import F1X.Repair.Restoration

/-!
# Patch templates

The first patch of a location goes through the transformer, the others through
the template that it left.  Both write the same text, so what is built, tested
and reported for a patch does not depend on the patches that came before it.
-/

namespace F1X.Repair

open Library Project

variable {ω : Type}

/-! ## Tools -/

/--
What the transformer and `patch` write.  The text for a location depends on the
file alone: the headers and the compilation database, which the transformer reads
too, are taken as they are.
-/
structure Rewrites (tools : Toolchain ω) (rewrite : String → Location → String → String) :
    Prop where
  transform : ∀ relpath location disk world content, disk relpath = some content →
    (tools.transform (.apply relpath location) disk world).2.1 =
      Function.update disk relpath (some (rewrite relpath location content))
  /-- The file is the one that the difference was made for. -/
  patch : ∀ (template : Diff) disk world, disk template.relpath = template.original →
    (tools.patch template disk world).2.1 =
      Function.update disk template.relpath template.patched

/-- Applications with one id have one location. -/
def LocatesById (tools : Toolchain ω) (args : Arguments) : Prop :=
  ∀ count world sas,
    loadSchemaApplications ((List.range count).map fun index =>
      tools.readApplications (saFile args index) world) = .ok sas →
    ∀ first ∈ sas, ∀ second ∈ sas, first.id = second.id → first.location = second.location

/-! ## Invariants -/

/-- Only the file of the patch is changed: its text is at the location. -/
def PatchedBy (rewrite : String → Location → String → String) (start : Disk)
    (files : List ProjectFile) (patch : Patch) (after : Disk) : Prop :=
  ∃ file content replacement,
    files[patch.app.location.fileId]? = some file ∧ start file.relpath = some content ∧
      expressionToString patch.modified = .ok replacement ∧
      ∀ other ∈ files, after other.relpath =
        if other.relpath = file.relpath then
          some (replacePlaceholder replacement (rewrite file.relpath patch.app.location content))
        else start other.relpath

def Applied (rewrite : String → Location → String → String) (start : Disk)
    (ws : Workspace ω) : Prop :=
  ∀ patch files before after, .applyPatch patch files before after ∈ ws.calls →
    files = ws.files ∧ PatchedBy rewrite start files patch after

/-- The template of an application is the difference for its location. -/
structure Cached (rewrite : String → Location → String → String) (start : Disk)
    (files : List ProjectFile) (searchSpace : List Patch) (ws : Workspace ω) : Prop where
  templates : ∀ patch ∈ searchSpace, ∀ template, ws.templates patch.app.id = some template →
    ∃ file content, files[patch.app.location.fileId]? = some file ∧
      start file.relpath = some content ∧
      template = ⟨file.relpath, some content,
        some (rewrite file.relpath patch.app.location content)⟩
  applied : Applied rewrite start ws

structure Fresh (start : Disk) (ws : Workspace ω) : Prop where
  templates : ws.templates = fun _ => none
  calls : ws.calls = []
  present : ∀ file ∈ ws.files, ∃ content, start file.relpath = some content

/-- Neither the source files nor their copies nor the outside world matter. -/
def Detached (inv : Workspace ω → Prop) : Prop :=
  ∀ ws disk saved world, inv ws → inv { ws with disk := disk, saved := saved, world := world }

section Invariants

variable {start : Disk} {files : List ProjectFile} {searchSpace : List Patch}
  {rewrite : String → Location → String → String}

theorem cached_detached : Detached (Cached rewrite start files searchSpace : Workspace ω → Prop) :=
  fun _ _ _ _ h => ⟨h.templates, h.applied⟩

theorem fresh_detached : Detached (Fresh start : Workspace ω → Prop) :=
  fun _ _ _ _ h => ⟨h.templates, h.calls, h.present⟩

theorem Fresh.applied {ws : Workspace ω} (h : Fresh start ws) : Applied rewrite start ws := by
  intro patch files before after hmem
  rw [h.calls] at hmem
  exact absurd hmem List.not_mem_nil

private theorem Fresh.cached {ws : Workspace ω} (h : Fresh start ws) :
    Cached rewrite start files searchSpace ws := by
  refine ⟨fun patch _ template htemplate => ?_, h.applied⟩
  rw [h.templates] at htemplate
  cases htemplate

theorem Cached.log {ws : Workspace ω} (h : Cached rewrite start files searchSpace ws)
    (record : CallRecord)
    (hrecord : ∀ patch files before after, record ≠ .applyPatch patch files before after) :
    Cached rewrite start files searchSpace { ws with calls := record :: ws.calls } := by
  refine ⟨h.templates, fun patch files before after hmem => ?_⟩
  rcases List.mem_cons.mp hmem with hhead | hmem
  · exact absurd hhead.symm (hrecord patch files before after)
  · exact h.applied patch files before after hmem

end Invariants

/-! ## Commands that apply no patch -/

section Detached

variable {inv : Workspace ω → Prop} (hinv : Detached inv) (tools : Toolchain ω)
  (args : Arguments) (cfg : Config)
include hinv

theorem Detached.world (ws : Workspace ω) (world : ω) (h : inv ws) :
    inv { ws with world := world } :=
  hinv ws ws.disk ws.saved world h

private theorem runTool_keeps (program : Disk → ω → Bool × Disk × ω) :
    Keeps inv (runTool program) :=
  .modifyGet fun ws h => hinv ws _ ws.saved _ h

theorem saveFilesWithPrefix_keeps (name : String) :
    Keeps inv (saveFilesWithPrefix name : RepairM ω PUnit) := by
  intro ws h u after hrun
  obtain ⟨saved, rfl, -, -⟩ := saveFilesWithPrefix_spec hrun
  exact hinv ws ws.disk saved ws.world h

theorem restoreFrom_keeps (name : String) (id : Nat) (others : List ProjectFile) :
    Keeps inv (restoreFrom name id others : RepairM ω PUnit) := by
  intro ws h u after hrun
  obtain ⟨disk, rfl, -⟩ := restoreFrom_spec hrun
  exact hinv ws disk ws.saved ws.world h

theorem restoreOriginalFiles_keeps : Keeps inv (restoreOriginalFiles : RepairM ω PUnit) :=
  .read_bind fun _ _ => restoreFrom_keeps hinv _ _ _

theorem instrumentFile_keeps (file : ProjectFile) (outputFile : String)
    (profile : Option (Finset String)) :
    Keeps inv (Project.instrumentFile tools file outputFile profile) := by
  refine .read_bind fun ws h => ?_
  exact .lift_bind fun _ _ => runTool_keeps hinv _

private theorem initialBuild_keeps : Keeps inv (initialBuild tools args) := by
  refine .read_bind fun ws h => ?_
  refine (buildInEnvironment_keeps tools hinv.world _ _).bind fun success => ?_
  refine .read_bind fun ws h => ?_
  refine .ite (fun _ => ?_) fun _ => .pure fun _ h => h
  exact Ensures.bind (.modify fun ws h => hinv.world ws _ h) fun _ => .pure fun _ h => h

private theorem buildProfiled_keeps : Keeps inv (buildProfiled tools args) := by
  refine .read_bind fun ws h => ?_
  have hinstrument : Keeps inv (forM ws.files fun file => do
      let _ ← Project.instrumentFile tools file (args.dataDir ++ "/trace.txt") none
      pure ⟨⟩) :=
    .forM fun file _ =>
      (instrumentFile_keeps hinv tools file _ _).bind fun _ => .pure fun _ h => h
  refine hinstrument.bind fun _ => ?_
  refine (saveFilesWithPrefix_keeps hinv _).bind fun _ => ?_
  refine (runProgram_keeps hinv.world _).bind fun compiled => ?_
  refine .ite (fun _ => ?_) fun _ => .pure fun _ h => h
  refine (buildInEnvironment_keeps tools hinv.world _ _).bind fun _ => ?_
  exact (restoreOriginalFiles_keeps hinv).bind fun _ => .pure fun _ h => h

private theorem profile_keeps (index : Nat) (tests : List String) (profiler : Profiler)
    (numNegative : Nat) : Keeps inv (profile tools index tests profiler numNegative) := by
  induction tests generalizing index profiler numNegative with
  | nil => exact .pure fun _ h => h
  | cons test tests ih =>
      rw [profile]
      refine (runProgram_keeps hinv.world _).bind fun _ => ?_
      refine (runProgram_keeps hinv.world _).bind fun status => ?_
      exact .read_bind fun ws h => ih _ _ _

private theorem instrumentFrom_keeps (interesting : Finset String) (index : Nat)
    (sources : List ProjectFile) :
    Keeps inv (instrumentFrom tools args interesting index sources) := by
  induction sources generalizing index with
  | nil => exact .pure fun _ h => h
  | cons file sources ih =>
      rw [instrumentFrom]
      refine (instrumentFile_keeps hinv tools file _ _).bind fun _ => ?_
      refine .read_bind fun ws h => ?_
      exact .ite (fun _ => ih _) fun _ => .pure fun _ h => h

private theorem generatePatches_keeps (fuel : Nat) :
    Keeps inv (generatePatches cfg tools args fuel) := by
  refine (saveFilesWithPrefix_keeps hinv _).bind fun _ => ?_
  refine .read_bind fun ws h => ?_
  refine .lift_bind fun sas _ => .lift_bind fun inferred _ => ?_
  refine .lift_bind fun ⟨code, searchSpace⟩ _ => ?_
  refine (runProgram_keeps hinv.world _).bind fun compiled => ?_
  refine .ite (fun _ => ?_) fun _ => .pure fun _ h => h
  refine (buildInEnvironment_keeps tools hinv.world _ _).bind fun _ => ?_
  exact (restoreOriginalFiles_keeps hinv).bind fun _ => .pure fun _ h => h

end Detached

/-! ## Before the search -/

section Stages

variable {start : Disk} (tools : Toolchain ω) (args : Arguments) (cfg : Config)

private theorem saveFrom_present {name : String} {id : Nat} {files : List ProjectFile} {u : PUnit}
    {ws after : Workspace ω} (h : (saveFrom name id files).run ws = some (u, after)) :
    ∀ file ∈ files, ∃ content, ws.disk file.relpath = some content := by
  induction files generalizing id ws with
  | nil => exact fun _ hmem => absurd hmem List.not_mem_nil
  | cons file files ih =>
      rw [saveFrom, run_get_bind] at h
      obtain ⟨content, hcontent, h⟩ := run_lift_bind_eq_some.mp h
      rw [run_modify_bind] at h
      intro other hother
      rcases List.mem_cons.mp hother with rfl | hother
      · exact ⟨content, hcontent⟩
      · exact ih h other hother

theorem setFiles_fresh (files : List ProjectFile) :
    Ensures (fun ws : Workspace ω =>
        ws.disk = start ∧ ws.templates = (fun _ => none) ∧ ws.calls = [])
      (setFiles files) fun _ => Fresh start := by
  rintro ws ⟨rfl, htemplates, hcalls⟩ u after hrun
  rw [setFiles, run_modify_bind, saveOriginalFiles, saveFilesWithPrefix, run_get_bind] at hrun
  have hpresent := saveFrom_present hrun
  obtain ⟨saved, rfl, -, -⟩ := saveFrom_spec hrun
  exact ⟨htemplates, hcalls, hpresent⟩

private theorem localizeFiles_fresh (testerFiles : List ProjectFile) :
    Ensures (fun ws => ws.disk = start ∧ Fresh start ws) (localizeFiles tools args testerFiles)
      fun _ => Fresh start := by
  refine .read_bind fun ws h => ?_
  refine .ite (fun _ => ?_) fun _ => .pure fun _ h => h.2
  have hlocalize : Keeps (fun ws : Workspace ω => ws.disk = start ∧ Fresh start ws)
      (runProgram fun world =>
        tools.localize args.tests (tools.filesFromCompilationDB world) world) :=
    runProgram_keeps (fun ws world h => ⟨h.1, fresh_detached.world ws world h.2⟩) _
  refine hlocalize.bind fun localized => ?_
  have hdestroy (value : Bool) : Ensures (Fresh start)
      (do destroyCopy testerFiles; pure value) fun _ (ws : Workspace ω) => Fresh start ws :=
    (restoreFrom_keeps fresh_detached _ 0 testerFiles).bind fun _ => .pure fun _ h => h
  refine .ite (fun _ => (hdestroy false).strengthen fun _ h => h.2) fun _ => ?_
  refine Ensures.bind ?_ fun _ => hdestroy true
  exact (setFiles_fresh _).strengthen fun ws h => ⟨h.1, h.2.templates, h.2.calls⟩

private theorem inferTypes_source {sas inferred : List SchemaApplication} {sa : SchemaApplication}
    (h : inferTypes sas = .ok inferred) (hsa : sa ∈ inferred) :
    ∃ source ∈ sas, sa.id = source.id ∧ sa.location = source.location := by
  obtain ⟨source, hsource, hsa⟩ := exists_of_mem_mapM h hsa
  obtain ⟨original, -, hsa⟩ := bind_eq_ok_iff.mp hsa
  rw [← Except.ok.inj hsa]
  exact ⟨source, hsource, rfl, rfl⟩

/-- A search space with what it is generated from in some run. -/
def Generated (fuel : Nat) (sas : List SchemaApplication) (codes : List generator.DispatchCode)
    (searchSpace : List Patch) : Prop :=
  ∃ count world loaded,
    loadSchemaApplications ((List.range count).map fun index =>
      tools.readApplications (saFile args index) world) = .ok loaded ∧
    inferTypes loaded = .ok sas ∧ generateSearchSpace cfg fuel sas = .ok (codes, searchSpace)

theorem generatePatches_generated (fuel : Nat) (pre : Workspace ω → Prop) :
    Ensures pre (generatePatches cfg tools args fuel) fun generated _ =>
      ∀ searchSpace, generated = some searchSpace →
        ∃ sas codes, Generated tools args cfg fuel sas codes searchSpace := by
  refine .any_bind fun _ => .read_bind fun ws _ => ?_
  refine .lift_bind fun loaded hloaded => .lift_bind fun sas hsas => ?_
  refine .lift_bind fun ⟨codes, searchSpace⟩ hspace => ?_
  refine .any_bind fun compiled => .ite (fun _ => ?_) fun _ => .pure fun _ _ _ h => by cases h
  refine .any_bind fun _ => .any_bind fun _ => .pure fun _ _ patches hpatches => ?_
  obtain rfl := Option.some.inj hpatches
  exact ⟨sas, codes, _, ws.world, loaded, toOption_eq_some_iff.mp hloaded,
    toOption_eq_some_iff.mp hsas, toOption_eq_some_iff.mp hspace⟩

def SharesLocations (searchSpace : List Patch) : Prop :=
  ∀ first ∈ searchSpace, ∀ second ∈ searchSpace, first.app.id = second.app.id →
    first.app.location = second.app.location

private theorem Generated.sharesLocations {tools : Toolchain ω} {args : Arguments} {cfg : Config}
    {fuel : Nat} {sas : List SchemaApplication} {codes : List generator.DispatchCode}
    {searchSpace : List Patch} (hids : LocatesById tools args)
    (h : Generated tools args cfg fuel sas codes searchSpace) : SharesLocations searchSpace := by
  obtain ⟨count, world, loaded, hloaded, hsas, hspace⟩ := h
  have hsource : ∀ patch ∈ searchSpace, ∃ source ∈ loaded,
      patch.app.id = source.id ∧ patch.app.location = source.location := by
    intro patch hpatch
    rcases partitioningFunctionsFrom_app hspace patch hpatch with hmem | hmem
    · exact absurd hmem List.not_mem_nil
    · exact inferTypes_source hsas hmem
  intro first hfirst second hsecond heq
  obtain ⟨source, hmem, hid, hlocation⟩ := hsource first hfirst
  obtain ⟨source', hmem', hid', hlocation'⟩ := hsource second hsecond
  rw [hlocation, hlocation']
  exact hids count world loaded hloaded source hmem source' hmem'
    (hid.symm.trans (heq.trans hid'))

end Stages

/-! ## Applications -/

section Search

variable {start : Disk} {files : List ProjectFile} {written : List (String × Patch)}
  {searchSpace : List Patch} {rewrite : String → Location → String → String}
  {tools : Toolchain ω} {patch : Patch} {file : ProjectFile} (args : Arguments) (cfg : Config)

def Placed (rewrite : String → Location → String → String) (start : Disk)
    (files : List ProjectFile) (file : ProjectFile) (location : Location) (disk : Disk) : Prop :=
  ∃ content, start file.relpath = some content ∧
    ∀ other ∈ files, disk other.relpath =
      if other.relpath = file.relpath then some (rewrite file.relpath location content)
      else start other.relpath

theorem run_runTool {program : Disk → ω → Bool × Disk × ω} {ws after : Workspace ω}
    {success : Bool} (h : (runTool program).run ws = some (success, after)) :
    after = { ws with
      disk := (program ws.disk ws.world).2.1, world := (program ws.disk ws.world).2.2 } :=
  (Prod.mk.inj (Option.some.inj h)).2.symm

theorem update_of_clean {disk : Disk}
    (hclean : ∀ file ∈ files, disk file.relpath = start file.relpath) (path text : String) :
    ∀ other ∈ files, Function.update disk path (some text) other.relpath =
      if other.relpath = path then some text else start other.relpath := by
  intro other hother
  rw [Function.update_apply, hclean other hother]

variable (htools : Rewrites tools rewrite)
  (hpresent : ∀ file ∈ files, ∃ content, start file.relpath = some content)
  (hlocated : SharesLocations searchSpace)
  (hids : ∀ patch ∈ searchSpace, patch.app.location.fileId < uintRange)
include htools hpresent hlocated hids

private theorem placeTemplate_placed (hpatch : patch ∈ searchSpace)
    (hfile : files[patch.app.location.fileId]? = some file) :
    Ensures (fun ws => Restored start files written ws ∧
        Cached rewrite start files searchSpace ws) (placeTemplate tools file patch)
      fun _ ws => Cached rewrite start files searchSpace ws ∧
        Placed rewrite start files file patch.app.location ws.disk := by
  rintro ws ⟨hrestored, hcached⟩ success after hrun
  obtain ⟨content, hcontent⟩ := hpresent file (List.mem_of_getElem? hfile)
  obtain ⟨_, transformed, htransform, hrun⟩ := run_bind_eq_some.mp hrun
  obtain ⟨_, copied, hcopy, hrun⟩ := run_bind_eq_some.mp hrun
  obtain ⟨_, compared, hdiff, hrun⟩ := run_bind_eq_some.mp hrun
  obtain ⟨-, rfl⟩ := run_pure_eq_some.mp hrun
  have hat : ws.disk file.relpath = some content := by
    rw [hrestored.atStart file (List.mem_of_getElem? hfile), hcontent]
  have htext := htools.transform file.relpath patch.app.location ws.disk ws.world content hat
  have hdisk := update_of_clean hrestored.atStart file.relpath
    (rewrite file.relpath patch.app.location content)
  rw [run_runTool htransform, htext] at hcopy
  obtain ⟨saved, rfl, hpatched, hkept⟩ := saveFilesWithPrefix_spec hcopy
  obtain ⟨id, hgetId, rfl⟩ := computeDiff_spec hdiff
  rw [hrestored.files_eq] at hpatched
  rw [hrestored.files_eq] at hgetId
  obtain ⟨found, hfound, hrelpath⟩ := getFileId_relpath hfile (hids patch hpatch) hgetId
  have horiginal : saved (savedName "original" id) = some content := by
    rw [hkept _ (original_ne (by decide) (by decide) id), hrestored.originals id found hfound,
      hrelpath, hcontent]
  have hplaced : saved (savedName "patched" id) =
      some (rewrite file.relpath patch.app.location content) := by
    rw [hpatched id found hfound, hrelpath]
    exact Function.update_self _ _ _
  refine ⟨⟨fun other hother template htemplate => ?_, hcached.applied⟩, content, hcontent, hdisk⟩
  by_cases happ : other.app.id = patch.app.id
  · have hlocation := hlocated other hother patch hpatch happ
    rw [happ] at htemplate
    have htemplate := (Function.update_self _ _ _).symm.trans htemplate
    obtain rfl := Option.some.inj htemplate
    refine ⟨file, content, hlocation ▸ hfile, hcontent, ?_⟩
    rw [hlocation]
    exact congrArg₂ (Diff.mk file.relpath) horiginal hplaced
  · have htemplate := (Function.update_of_ne happ _ _).symm.trans htemplate
    exact hcached.templates other hother template htemplate

private theorem placePatch_placed (hpatch : patch ∈ searchSpace)
    (hfile : files[patch.app.location.fileId]? = some file) :
    Ensures (fun ws => Restored start files written ws ∧
        Cached rewrite start files searchSpace ws) (placePatch tools file patch)
      fun _ ws => Cached rewrite start files searchSpace ws ∧
        Placed rewrite start files file patch.app.location ws.disk := by
  intro ws hws success after hrun
  rw [placePatch, run_get_bind] at hrun
  cases htemplate : ws.templates patch.app.id with
  | none =>
      rw [htemplate] at hrun
      exact placeTemplate_placed htools hpresent hlocated hids hpatch hfile ws hws success after
        hrun
  | some template =>
      rw [htemplate] at hrun
      obtain ⟨hrestored, hcached⟩ := hws
      obtain ⟨found, content, hfound, hcontent, rfl⟩ :=
        hcached.templates patch hpatch template htemplate
      obtain rfl := Option.some.inj (hfound.symm.trans hfile)
      have hat : ws.disk found.relpath = some content := by
        rw [hrestored.atStart found (List.mem_of_getElem? hfile), hcontent]
      have htext := htools.patch
        ⟨found.relpath, some content, some (rewrite found.relpath patch.app.location content)⟩
        ws.disk ws.world hat
      rw [run_runTool hrun, htext]
      exact ⟨cached_detached ws _ ws.saved _ hcached, content, hcontent,
        update_of_clean hrestored.atStart _ _⟩

theorem applyPatch_cached (hpatch : patch ∈ searchSpace) :
    Ensures (fun ws => Restored start files written ws ∧
        Cached rewrite start files searchSpace ws) (applyPatch tools patch)
      fun _ => Cached rewrite start files searchSpace := by
  intro ws hws success after hrun
  rw [applyPatch, run_get_bind] at hrun
  obtain ⟨file, hfile, hrun⟩ := run_lift_bind_eq_some.mp hrun
  rw [hws.1.files_eq] at hfile
  obtain ⟨_, placed, hplace, hrun⟩ := run_bind_eq_some.mp hrun
  obtain ⟨hcached, content, hcontent, hdisk⟩ :=
    placePatch_placed htools hpresent hlocated hids hpatch hfile ws hws _ placed hplace
  obtain ⟨replacement, hreplacement, hrun⟩ := run_lift_bind_eq_some.mp hrun
  rw [replacePlaceholderInFile, run_modify_bind] at hrun
  obtain ⟨_, copied, hcopy, hrun⟩ := run_bind_eq_some.mp hrun
  obtain ⟨saved, rfl, -, -⟩ := saveFilesWithPrefix_spec hcopy
  rw [run_modify_bind] at hrun
  obtain ⟨-, rfl⟩ := run_pure_eq_some.mp hrun
  refine ⟨hcached.templates, fun other others before applied hmem => ?_⟩
  have hfiles : placed.files = files :=
    (placePatch_tidy tools file patch ws hws.1.toTidy _ placed hplace).files_eq
  rcases List.mem_cons.mp hmem with hhead | hmem
  · cases hhead
    rw [hws.1.files_eq]
    refine ⟨hfiles.symm, file, content, replacement, hfile, hcontent,
      toOption_eq_some_iff.mp hreplacement, fun other hother => ?_⟩
    have hself := hdisk file (List.mem_of_getElem? hfile)
    rw [if_pos rfl] at hself
    refine (Function.update_apply _ _ _ _).trans ?_
    rw [hself, hdisk other hother]
    split_ifs <;> rfl
  · exact hcached.applied other others before applied hmem

/-! ## Search and output -/

theorem validatePatch_cached (hpatch : patch ∈ searchSpace) :
    Keeps (fun ws => Restored start files written ws ∧
      Cached rewrite start files searchSpace ws) (validatePatch tools args patch) := by
  refine Ensures.and ((validatePatch_restored tools args patch).strengthen fun _ h => h.1) ?_
  refine (applyPatch_cached htools hpresent hlocated hids hpatch).bind fun _ => ?_
  refine (buildInEnvironment_keeps tools cached_detached.world _ _).bind fun _ => ?_
  refine (failingTests_keeps tools cached_detached.world _).bind fun failing => ?_
  refine (restoreOriginalFiles_keeps cached_detached).bind fun _ => ?_
  exact Ensures.bind (.modify fun ws h => h.log _ (by simp)) fun _ => .pure fun _ h => h

private theorem validateAll_cached {found : List Patch} (hfound : found ⊆ searchSpace) :
    Keeps (fun ws => Restored start files written ws ∧
      Cached rewrite start files searchSpace ws) (validateAll tools args found) := by
  induction found with
  | nil => exact .pure fun _ h => h
  | cons patch found ih =>
      obtain ⟨hpatch, hfound⟩ := List.cons_subset.mp hfound
      rw [validateAll]
      refine (validatePatch_cached args htools hpresent hlocated hids hpatch).bind fun valid => ?_
      exact (ih hfound).bind fun rest => .pure fun _ h => h

private theorem validInSearch_cached (hpatch : patch ∈ searchSpace) :
    Keeps (fun ws => Restored start files written ws ∧
      Cached rewrite start files searchSpace ws) (validInSearch cfg tools args patch) := by
  refine .ite (fun _ => ?_) fun _ => .pure fun _ h => h
  exact (validatePatch_cached args htools hpresent hlocated hids hpatch).bind
    fun _ => .pure fun _ h => h

omit htools hpresent hlocated hids in
private theorem findNext_cached (last : Nat) (engine : SearchEngine ω) :
    Keeps (fun ws => Restored start files written ws ∧
      Cached rewrite start files searchSpace ws) (findNext cfg tools searchSpace last engine) := by
  refine Ensures.and ((findNext_restored tools cfg searchSpace last engine).strengthen
    fun _ h => h.1) (Ensures.strengthen ?_ fun _ h => h.2)
  refine .read_bind fun ws h => .lift_bind fun hit _ => ?_
  refine Ensures.bind (Ensures.modify fun after h => ?_) fun _ => .pure fun _ h => h
  exact (cached_detached.world after hit.2.world h).log (.findNext last hit.1) (by simp)

private theorem searchLoop_cached (rounds last : Nat) (plausiblePatches : List Patch)
    (engine : SearchEngine ω) :
    Keeps (fun ws => Restored start files written ws ∧
        Cached rewrite start files searchSpace ws)
      (searchLoop cfg tools args searchSpace rounds last plausiblePatches engine) := by
  induction rounds generalizing last plausiblePatches engine with
  | zero => exact .lift fun _ h => by cases h
  | succ rounds ih =>
      rw [searchLoop]
      refine .ite (fun _ => ?_) fun _ => .pure fun _ h => h
      refine (findNext_cached cfg last engine).bind fun found => ?_
      obtain ⟨hit, engine⟩ := found
      refine .ite (fun _ => .pure fun _ h => h) fun _ => ?_
      refine .ite (fun _ => .pure fun _ h => h) fun _ => ?_
      refine .lift_bind fun patch hpatch => ?_
      refine .ite (fun _ => ?_) fun _ => ih _ _ engine
      refine ((validInSearch_cached args cfg htools hpresent hlocated hids
        (List.mem_of_getElem? hpatch)).with_value fun _ _ _ => validInSearch_true).bind
        fun valid => ?_
      refine .ite (fun _ => .pure fun _ h => h.1) fun hinvalid _ h => ?_
      exact absurd h.2 hinvalid

private theorem searchPatches_cached (relatedTestIndexes : Location → Option (List Nat)) :
    Ensures (fun ws => Restored start files written ws ∧
        Cached rewrite start files searchSpace ws)
      (searchPatches cfg tools args searchSpace relatedTestIndexes)
      fun found ws => (Restored start files written ws ∧
        Cached rewrite start files searchSpace ws) ∧ found.1 ⊆ searchSpace := by
  refine Ensures.and ?_ (((searchPatches_restored tools args cfg searchSpace
    relatedTestIndexes).strengthen fun _ h => h.1).weaken fun _ _ h => h.2)
  refine .read_bind fun ws _ => ?_
  refine Ensures.bind (Ensures.and
    (searchLoop_cached args cfg htools hpresent hlocated hids _ 0 [] _)
    ((searchLoop_restored tools args cfg searchSpace _ 0 [] _ (List.nil_subset _)).mono
      (fun _ h => h.1) fun found _ h => h.2)) fun ⟨found, engine⟩ => ?_
  refine Ensures.strengthen (.and_pre fun hfound => ?_) fun _ h => ⟨h.2, h.1⟩
  refine Ensures.bind ?_ fun _ => .pure fun _ h => h
  refine .ite (fun _ => ?_) fun _ => .pure fun _ h => h
  exact validateAll_cached args htools hpresent hlocated hids hfound

private theorem outputPatch_cached (entry : String × Patch) (hentry : entry ∈ written)
    (hpatch : entry.2 ∈ searchSpace) :
    Keeps (fun ws => Restored start files written ws ∧
      Cached rewrite start files searchSpace ws) (outputPatch tools entry) := by
  refine Ensures.and ((outputPatch_restored tools entry hentry (hids _ hpatch)).strengthen
    fun _ h => h.1) ?_
  refine (applyPatch_cached htools hpresent hlocated hids hpatch).bind fun _ => ?_
  refine .read_bind fun ws _ => .lift_bind fun file _ => ?_
  refine Ensures.bind (fun ws h u after hrun => ?_) fun _ =>
    restoreOriginalFiles_keeps cached_detached
  obtain ⟨id, -, rfl⟩ := computeDiff_spec hrun
  exact h.log _ (by simp)

private theorem searchAndReport_applied (testerFiles : List ProjectFile)
    (relatedTestIndexes : Location → Option (List Nat)) :
    Ensures (fun ws => Restored start files [] ws ∧
        Cached rewrite start files searchSpace ws)
      (searchAndReport cfg tools args testerFiles searchSpace relatedTestIndexes)
      fun _ => Applied rewrite start := by
  refine (searchPatches_cached args cfg htools hpresent hlocated hids
    relatedTestIndexes).bind fun ⟨reported, engine⟩ => ?_
  refine Ensures.strengthen (.and_pre fun hreported => ?_) fun _ h => ⟨h.2, h.1⟩
  have hreport : Keeps (fun ws => Restored start files [] ws ∧
      Cached rewrite start files searchSpace ws)
      (reportSemanticDiff cfg searchSpace reported engine : RepairM ω _) :=
    .ite (fun _ => .lift fun _ _ _ h => h) fun _ => .pure fun _ h => h
  refine hreport.bind fun _ => ?_
  let result := report cfg args.patchOutput reported
  have hwritten : Keeps (fun ws => Restored start files result.patches ws ∧
      Cached rewrite start files searchSpace ws) (forM result.patches (outputPatch tools)) :=
    .forM fun entry hentry => outputPatch_cached htools hpresent hlocated hids entry hentry
      (hreported (writePatches_mem hentry))
  refine (hwritten.strengthen fun ws h =>
    ⟨h.1.mono (List.nil_subset result.patches), h.2⟩).bind fun _ => ?_
  refine Ensures.bind ((restoreFrom_keeps cached_detached _ 0 testerFiles).strengthen
    fun _ h => h.2) fun _ => .pure fun _ h => h.applied

end Search

/-! ## Whole runs -/

section Runs

variable {start : Disk} {files : List ProjectFile}
  {rewrite : String → Location → String → String} {tools : Toolchain ω} {args : Arguments}
  (cfg : Config) (htools : Rewrites tools rewrite) (hids : LocatesById tools args)
include htools hids

private theorem repairLocations_applied (fuel : Nat) (testerFiles : List ProjectFile)
    (profiler : Profiler) :
    Ensures (fun ws => Tidy start files [] ws ∧ Fresh start ws)
      (repairLocations cfg tools args fuel testerFiles profiler)
      fun _ => Applied rewrite start := by
  have hworld (ws : Workspace ω) (world : ω) (h : Tidy start files [] ws ∧ Fresh start ws) :
      Tidy start files [] { ws with world := world } ∧
        Fresh start { ws with world := world } :=
    ⟨tidy_world ws world h.1, fresh_detached.world ws world h.2⟩
  refine (runProgram_keeps hworld _).bind fun _ => .read_bind fun ws _ => ?_
  refine Ensures.bind (Ensures.and
    ((instrumentFrom_tidy tools args _ 0 _).strengthen fun _ h => h.1)
    ((instrumentFrom_keeps fresh_detached tools args _ 0 _).strengthen fun _ h => h.2))
    fun extracted => ?_
  refine .ite (fun _ => ?_) fun _ => .pure fun _ h => h.2.applied
  have hgenerated := Ensures.and (Ensures.and
    ((generatePatches_spec tools args cfg fuel).strengthen fun _ h => h.1)
    ((generatePatches_keeps fresh_detached tools args cfg fuel).strengthen fun _ h => h.2))
    (generatePatches_generated tools args cfg fuel
      fun ws => Tidy start files [] ws ∧ Fresh start ws)
  refine hgenerated.bind fun generated => ?_
  cases generated with
  | none => exact .pure fun _ h => h.1.2.applied
  | some searchSpace =>
      rintro ws ⟨⟨⟨htidy, hspace⟩, hnew⟩, hfound⟩
      obtain ⟨hrestored, hfileIds⟩ := hspace searchSpace rfl
      obtain ⟨sas, codes, hfound⟩ := hfound searchSpace rfl
      have hlocated := hfound.sharesLocations hids
      have hmem (patch : Patch) : patch ∈ prioritize searchSpace (patchCost searchSpace) →
          patch ∈ searchSpace := List.mem_mergeSort.mp
      refine searchAndReport_applied args cfg htools (htidy.files_eq ▸ hnew.present) ?_ ?_
        testerFiles _ ws ⟨hrestored, hnew.cached⟩
      · exact fun first hfirst second hsecond =>
          hlocated first (hmem first hfirst) second (hmem second hsecond)
      · exact fun patch hpatch => hfileIds patch (hmem patch hpatch)

private theorem repair_applied (fuel : Nat) (testerFiles : List ProjectFile) :
    Ensures (fun ws => Untouched start files ws ∧ Fresh start ws)
      (repair cfg tools args fuel testerFiles) fun _ => Applied rewrite start := by
  refine Ensures.bind (Ensures.and
    ((initialBuild_untouched tools args).strengthen fun _ h => h.1)
    ((initialBuild_keeps fresh_detached tools args).strengthen fun _ h => h.2))
    fun ⟨compiled, inferred⟩ => .read_bind fun ws _ => ?_
  refine .ite (fun _ => ?_) fun _ => .pure fun _ h => h.2.applied
  refine Ensures.bind (Ensures.and
    ((localizeFiles_tidy tools args testerFiles).strengthen fun _ h => h.1)
    ((localizeFiles_fresh tools args testerFiles).strengthen fun _ h => ⟨h.1.2, h.2⟩))
    fun localized => ?_
  rintro ws ⟨⟨found, -, htidy⟩, hnew⟩
  refine (?_ : Ensures (fun ws => Tidy start found [] ws ∧ Fresh start ws) _ _) ws
    ⟨htidy, hnew⟩
  refine .ite (fun _ => ?_) fun _ => .pure fun _ h => h.2.applied
  refine Ensures.bind (Ensures.and
    ((buildProfiled_tidy tools args).strengthen fun _ h => h.1)
    ((buildProfiled_keeps fresh_detached tools args).strengthen fun _ h => h.2))
    fun profiled => ?_
  refine .ite (fun _ => ?_) fun _ => .pure fun _ h => h.2.applied
  refine Ensures.bind (Ensures.and
    ((profile_tidy tools 0 args.tests .empty 0).strengthen fun _ h => h.1)
    ((profile_keeps fresh_detached tools 0 args.tests .empty 0).strengthen fun _ h => h.2))
    fun ⟨profiler, numNegative⟩ => ?_
  refine .ite (fun _ => .pure fun _ h => h.2.applied) fun _ => ?_
  exact repairLocations_applied cfg htools hids fuel testerFiles profiler

theorem main_applied (fuel : Nat) (sources : List ProjectFile) :
    Ensures (fun ws => ws.disk = start ∧ ws.templates = (fun _ => none) ∧ ws.calls = [])
      (main cfg tools args fuel sources) fun _ => Applied rewrite start := by
  refine Ensures.bind (Ensures.and
    ((setFiles_untouched sources).strengthen fun ws h => ⟨h.1, h.2.2 ▸ .nil⟩)
    (setFiles_fresh sources)) fun _ => ?_
  refine (repair_applied cfg htools hids fuel sources).bind fun result => ?_
  have hdetached : Detached (Applied rewrite start : Workspace ω → Prop) := fun _ _ _ _ h => h
  refine (restoreFrom_keeps hdetached _ 0 sources).bind fun _ => ?_
  exact (restoreOriginalFiles_keeps hdetached).bind fun _ => .pure fun _ h => h

end Runs

/--
In a whole run, whatever was applied before, an application puts the text of its
patch at its location of the clean files, and the output patch is the difference
that this makes.
-/
theorem applications_agree (cfg : Config) {tools : Toolchain ω} {args : Arguments}
    {rewrite : String → Location → String → String} (htools : Rewrites tools rewrite)
    (hids : LocatesById tools args) (fuel : Nat) (sources : List ProjectFile)
    {ws after : Workspace ω} {result : RepairResult} (htemplates : ws.templates = fun _ => none)
    (hcalls : ws.calls = [])
    (hrun : (main cfg tools args fuel sources).run ws = some (result, after)) :
    (∀ patch files before applied, .applyPatch patch files before applied ∈ after.calls →
      PatchedBy rewrite ws.disk after.files patch applied) ∧
    ∀ output diff, .computeDiff output diff ∈ after.calls →
      ∃ patch file content replacement, (output, patch) ∈ result.patches ∧
        after.files[patch.app.location.fileId]? = some file ∧
        ws.disk file.relpath = some content ∧
        expressionToString patch.modified = .ok replacement ∧
        diff = ⟨file.relpath, some content, some (replacePlaceholder replacement
          (rewrite file.relpath patch.app.location content))⟩ := by
  have happlied : Applied rewrite ws.disk after :=
    main_applied cfg htools hids fuel sources ws ⟨rfl, htemplates, hcalls⟩ result after hrun
  have happlication : ∀ patch files before applied,
      .applyPatch patch files before applied ∈ after.calls →
        PatchedBy rewrite ws.disk after.files patch applied := by
    intro patch files before applied hmem
    obtain ⟨rfl, hpatched⟩ := happlied patch files before applied hmem
    exact hpatched
  refine ⟨happlication, fun output diff hmem => ?_⟩
  obtain ⟨found, -, hrestored⟩ := main_restored tools args cfg fuel sources ws
    ⟨rfl, hcalls ▸ .nil⟩ result after hrun
  obtain ⟨later, earlier, hsplit⟩ := List.append_of_mem hmem
  obtain ⟨patch, files, before, applied, rest, file, rfl, hwritten, hfile, rfl⟩ :=
    hrestored.logged.compared later output diff earlier hsplit
  have hrecord : .applyPatch patch files before applied ∈ after.calls := by simp [hsplit]
  obtain rfl := (happlied patch files before applied hrecord).1
  obtain ⟨found, content, replacement, hfound, hcontent, hreplacement, hafter⟩ :=
    happlication patch after.files before applied hrecord
  obtain rfl := Option.some.inj (hfound.symm.trans hfile)
  refine ⟨patch, found, content, replacement, hwritten, hfile, hcontent, hreplacement, ?_⟩
  rw [hafter found (List.mem_of_getElem? hfile), if_pos rfl, hcontent]

/-! ## A patch that is validated and then written -/

def validatedConfig : Config := { onePatchConfig with validatePatches := true }

def returnPlaceholder (_ : String) (_ : Location) (_ : String) : String :=
  "return " ++ placeholder ++ ";\n"

private theorem onePatchTools_rewrites : Rewrites onePatchTools returnPlaceholder where
  transform _ _ _ _ _ _ := rfl
  patch _ _ _ _ := rfl

theorem onePatchTools_locatesById (args : Arguments) : LocatesById onePatchTools args := by
  intro count world sas h first hfirst second hsecond _
  obtain ⟨loaded, hloaded, h⟩ := bind_eq_ok_iff.mp h
  obtain rfl := Except.ok.inj h
  have hone : ∀ sa ∈ loaded.flatten, loadSchemaApplication onePatchApplication = .ok sa := by
    intro sa hsa
    obtain ⟨file, hfile, hsa⟩ := List.mem_flatten.mp hsa
    obtain ⟨apps, happs, hfile⟩ := exists_of_mem_mapM hloaded hfile
    obtain ⟨index, -, rfl⟩ := List.mem_map.mp happs
    obtain ⟨app, happ, hload⟩ := exists_of_mem_mapM hfile hsa
    rwa [List.mem_singleton.mp happ] at hload
  rw [Except.ok.inj ((hone first hfirst).symm.trans (hone second hsecond))]

theorem applications_agree_onePatch :
    ∃ result after,
      (main validatedConfig onePatchTools onePatchArguments 100 []).run onePatchWorkspace =
        some (result, after) ∧ result.patches.length = 1 ∧
      (∀ patch files before applied, .applyPatch patch files before applied ∈ after.calls →
        PatchedBy returnPlaceholder onePatchWorkspace.disk after.files patch applied) ∧
      ∀ output diff, .computeDiff output diff ∈ after.calls →
        ∃ patch file content replacement, (output, patch) ∈ result.patches ∧
          after.files[patch.app.location.fileId]? = some file ∧
          onePatchWorkspace.disk file.relpath = some content ∧
          expressionToString patch.modified = .ok replacement ∧
          diff = ⟨file.relpath, some content, some (replacePlaceholder replacement
            (returnPlaceholder file.relpath patch.app.location content))⟩ := by
  have hsome : ((main validatedConfig onePatchTools onePatchArguments 100 []).run
      onePatchWorkspace).any (fun run => run.1.patches.length = 1) = true := by
    decide +kernel
  obtain ⟨⟨result, after⟩, hrun, houtcome⟩ := (Option.any_eq_true _ _).mp hsome
  exact ⟨result, after, hrun, of_decide_eq_true houtcome,
    applications_agree validatedConfig onePatchTools_rewrites (onePatchTools_locatesById _) 100 []
      rfl rfl hrun⟩

end F1X.Repair
