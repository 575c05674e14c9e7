import F1X.Repair.Main

/-!
# Source files are restored

The copies with the prefix `original` hold the first contents of every project
file throughout a run.  Every change of the source files is undone by restoring
them, so that every patch is applied to clean files, every output patch compares
them with what its own application left, and the last destructor leaves them.
-/

namespace F1X.Repair

open Library Project

variable {ω : Type} {start : Disk} {files : List ProjectFile}
  {written : List (String × Patch)}

/-- An output patch is the difference that the application just before it made. -/
def ComparesPatch (start : Disk) (written : List (String × Patch)) (output : String)
    (diff : Diff) (earlier : List CallRecord) : Prop :=
  ∃ patch files before after rest file,
    earlier = .applyPatch patch files before after :: rest ∧
      (output, patch) ∈ written ∧ files[patch.app.location.fileId]? = some file ∧
      diff = ⟨file.relpath, start file.relpath, after file.relpath⟩

structure Logged (start : Disk) (written : List (String × Patch))
    (calls : List CallRecord) : Prop where
  applied : ∀ patch files before after, .applyPatch patch files before after ∈ calls →
    ∀ file ∈ files, before file.relpath = start file.relpath
  compared : ∀ later output diff earlier, calls = later ++ .computeDiff output diff :: earlier →
    ComparesPatch start written output diff earlier

/-- The copies of the first contents are there, whatever the source files are. -/
structure Tidy (start : Disk) (files : List ProjectFile) (written : List (String × Patch))
    (ws : Workspace ω) : Prop where
  files_eq : ws.files = files
  originals : ∀ id file, files[id]? = some file →
    ws.saved (savedName "original" id) = start file.relpath
  logged : Logged start written ws.calls

structure Restored (start : Disk) (files : List ProjectFile)
    (written : List (String × Patch)) (ws : Workspace ω) : Prop
    extends Tidy start files written ws where
  atStart : ∀ file ∈ files, ws.disk file.relpath = start file.relpath

/-! ## The log -/

theorem Logged.nil : Logged start written [] where
  applied := by simp
  compared := by simp

def NewRecord (start : Disk) (written : List (String × Patch)) (calls : List CallRecord) :
    CallRecord → Prop
  | .applyPatch _ files before _ =>
      ∀ file ∈ files, before file.relpath = start file.relpath
  | .computeDiff output diff => ComparesPatch start written output diff calls
  | .validatePatch _ _ | .findNext _ _ => True

theorem Logged.cons {calls : List CallRecord} {record : CallRecord}
    (h : Logged start written calls) (hrecord : NewRecord start written calls record) :
    Logged start written (record :: calls) where
  applied := by
    intro patch files before after hmem
    rcases List.mem_cons.mp hmem with rfl | hmem
    · exact hrecord
    · exact h.applied patch files before after hmem
  compared := by
    intro later output diff earlier hcalls
    cases later with
    | nil =>
        obtain ⟨rfl, rfl⟩ := List.cons.inj hcalls
        exact hrecord
    | cons last later =>
        obtain ⟨-, hcalls⟩ := List.cons.inj hcalls
        exact h.compared later output diff earlier hcalls

theorem Logged.mono {written' : List (String × Patch)} {calls : List CallRecord}
    (h : Logged start written calls) (hsub : written ⊆ written') :
    Logged start written' calls where
  applied := h.applied
  compared := by
    intro later output diff earlier hcalls
    obtain ⟨patch, files, before, after, rest, file, hearlier, hmem, hfile, hdiff⟩ :=
      h.compared later output diff earlier hcalls
    exact ⟨patch, files, before, after, rest, file, hearlier, hsub hmem, hfile, hdiff⟩

theorem Restored.mono {written' : List (String × Patch)} {ws : Workspace ω}
    (h : Restored start files written ws) (hsub : written ⊆ written') :
    Restored start files written' ws :=
  ⟨⟨h.files_eq, h.originals, h.logged.mono hsub⟩, h.atStart⟩

/-! ## Saving and restoring -/

theorem Tidy.outside {ws : Workspace ω} (h : Tidy start files written ws) (disk : Disk)
    (world : ω) :
    Tidy start files written { ws with disk := disk, world := world } :=
  ⟨h.files_eq, h.originals, h.logged⟩

theorem tidy_world (ws : Workspace ω) (world : ω) (h : Tidy start files written ws) :
    Tidy start files written { ws with world := world } :=
  h.outside ws.disk world

theorem Restored.world {ws : Workspace ω} (h : Restored start files written ws) (world : ω) :
    Restored start files written { ws with world := world } :=
  ⟨⟨h.files_eq, h.originals, h.logged⟩, h.atStart⟩

theorem original_ne {name : String} (hname : name.toList.head?.isSome)
    (hother : name.toList.head? ≠ some 'o') (id j : Nat) :
    savedName "original" id ≠ savedName name j :=
  savedName_ne (by decide) hname (fun h => hother (h ▸ rfl)) id j

theorem saveFilesWithPrefix_tidy {name : String} (hname : name.toList.head?.isSome)
    (hother : name.toList.head? ≠ some 'o') :
    Keeps (Tidy start files written) (saveFilesWithPrefix name : RepairM ω PUnit) := by
  intro ws h u after hrun
  obtain ⟨saved, rfl, -, hkept⟩ := saveFilesWithPrefix_spec hrun
  refine ⟨h.files_eq, fun id file hfile => ?_, h.logged⟩
  exact (hkept _ (original_ne hname hother id)).trans (h.originals id file hfile)

theorem restoreOriginalFiles_restored :
    Ensures (Tidy start files written) (restoreOriginalFiles : RepairM ω PUnit)
      fun _ => Restored start files written := by
  intro ws h u after hrun
  rw [restoreOriginalFiles, restoreFilesWithPrefix, run_get_bind] at hrun
  obtain ⟨disk, rfl, hdisk⟩ := restoreFrom_spec hrun
  have hstart := hdisk start fun id file hfile => by
    rw [h.files_eq] at hfile
    simpa using h.originals id file hfile
  rw [h.files_eq] at hstart
  exact ⟨h.outside disk ws.world,
    fun file hfile => (hstart file.relpath).1 (List.mem_map.mpr ⟨file, hfile, rfl⟩)⟩

theorem restoreFrom_tidy (name : String) (id : Nat) (others : List ProjectFile) :
    Keeps (Tidy start files written) (restoreFrom name id others : RepairM ω PUnit) := by
  intro ws h u after hrun
  obtain ⟨disk, rfl, -⟩ := restoreFrom_spec hrun
  exact h.outside disk ws.world

def Untouched (start : Disk) (files : List ProjectFile) (ws : Workspace ω) : Prop :=
  Restored start files [] ws ∧ ws.disk = start

theorem untouched_world (ws : Workspace ω) (world : ω) (h : Untouched start files ws) :
    Untouched start files { ws with world := world } :=
  ⟨h.1.world world, h.2⟩

theorem setFiles_untouched (files : List ProjectFile) :
    Ensures (fun ws : Workspace ω => ws.disk = start ∧ Logged start [] ws.calls)
      (setFiles files) fun _ => Untouched start files := by
  rintro ws ⟨rfl, hlogged⟩ u after hrun
  rw [setFiles, run_modify_bind] at hrun
  obtain ⟨saved, rfl, hsaved, -⟩ := saveFilesWithPrefix_spec hrun
  exact ⟨⟨⟨rfl, hsaved, hlogged⟩, fun _ _ => rfl⟩, rfl⟩

/-! ## Programs -/

section Programs

variable (tools : Toolchain ω) (args : Arguments)

theorem runTool_tidy (program : Disk → ω → Bool × Disk × ω) :
    Keeps (Tidy start files written) (runTool program) :=
  .modifyGet fun _ h => h.outside _ _

theorem instrumentFile_tidy (file : ProjectFile) (outputFile : String)
    (profile : Option (Finset String)) :
    Keeps (Tidy start files written) (Project.instrumentFile tools file outputFile profile) := by
  refine .read_bind fun ws h => ?_
  exact .lift_bind fun _ _ => runTool_tidy _

private theorem placeTemplate_tidy (file : ProjectFile) (patch : Patch) :
    Keeps (Tidy start files written) (placeTemplate tools file patch) := by
  refine (runTool_tidy _).bind fun success => ?_
  refine (saveFilesWithPrefix_tidy (by decide) (by decide)).bind fun _ => ?_
  have hdiff : Keeps (Tidy start files written)
      (computeDiff file (.template patch.app.id) : RepairM ω PUnit) := by
    intro ws h u after hrun
    obtain ⟨id, -, rfl⟩ := computeDiff_spec hrun
    exact ⟨h.files_eq, h.originals, h.logged⟩
  exact hdiff.bind fun _ => .pure fun _ h => h

theorem placePatch_tidy (file : ProjectFile) (patch : Patch) :
    Keeps (Tidy start files written) (placePatch tools file patch) := by
  refine .read_bind fun ws h => ?_
  split
  · exact runTool_tidy _
  · exact placeTemplate_tidy tools file patch

def Copied (files : List ProjectFile) (ws : Workspace ω) : Prop :=
  ∀ id file, files[id]? = some file →
    ws.saved (savedName "patched" id) = ws.disk file.relpath

omit tools args in
private theorem savePatched_spec :
    Ensures (Tidy start files written) (saveFilesWithPrefix "patched" : RepairM ω PUnit)
      fun _ ws => Tidy start files written ws ∧ Copied files ws := by
  intro ws h u after hrun
  have hafter := saveFilesWithPrefix_tidy (by decide) (by decide) ws h u after hrun
  obtain ⟨saved, rfl, hsaved, -⟩ := saveFilesWithPrefix_spec hrun
  rw [h.files_eq] at hsaved
  exact ⟨hafter, hsaved⟩

def JustApplied (files : List ProjectFile) (patch : Patch) (ws : Workspace ω) : Prop :=
  (∃ before rest, ws.calls = .applyPatch patch files before ws.disk :: rest) ∧ Copied files ws

theorem applyPatch_spec (patch : Patch) :
    Ensures (Restored start files written) (applyPatch tools patch) fun _ ws =>
      Tidy start files written ws ∧ JustApplied files patch ws := by
  refine .get_bind fun ws h => ?_
  refine Ensures.strengthen ?_ fun s (hs : s = ws) => hs ▸ h.toTidy
  refine .lift_bind fun file _ => ?_
  refine (placePatch_tidy tools file patch).bind fun success => ?_
  refine .lift_bind fun replacement _ => ?_
  have hreplace : Keeps (Tidy start files written)
      (replacePlaceholderInFile file.relpath replacement : RepairM ω PUnit) :=
    .modify fun ws h => h.outside _ ws.world
  refine hreplace.bind fun _ => savePatched_spec.bind fun _ => ?_
  refine Ensures.bind (Ensures.modify fun after hafter => ?_) fun _ => .pure fun _ h => h
  obtain ⟨htidy, hcopied⟩ := hafter
  have hbefore : NewRecord start written after.calls
      (.applyPatch patch ws.files ws.disk after.disk) := h.files_eq ▸ h.atStart
  exact ⟨⟨htidy.files_eq, htidy.originals, htidy.logged.cons hbefore⟩,
    ⟨ws.disk, after.calls, by rw [h.files_eq]⟩, hcopied⟩

theorem validatePatch_restored (patch : Patch) :
    Keeps (Restored start files written) (validatePatch tools args patch) := by
  refine (applyPatch_spec tools patch).bind fun _ => ?_
  refine Ensures.strengthen ?_ fun ws (h : _ ∧ JustApplied files patch ws) => h.1
  refine (buildInEnvironment_keeps tools tidy_world _ _).bind fun _ => ?_
  refine (failingTests_keeps tools tidy_world _).bind fun failing => ?_
  refine restoreOriginalFiles_restored.bind fun _ => ?_
  refine Ensures.bind (Ensures.modify fun ws h => ?_) fun _ => .pure fun _ h => h
  exact ⟨⟨h.files_eq, h.originals, h.logged.cons trivial⟩, h.atStart⟩

private theorem validateAll_restored (found : List Patch) :
    Keeps (Restored start files written) (validateAll tools args found) := by
  induction found with
  | nil => exact .pure fun _ h => h
  | cons patch found ih =>
      rw [validateAll]
      refine (validatePatch_restored tools args patch).bind fun valid => ?_
      exact ih.bind fun rest => .pure fun _ h => h

/-! ## Search and output -/

variable (cfg : Config)

private theorem validInSearch_restored (patch : Patch) :
    Keeps (Restored start files written) (validInSearch cfg tools args patch) := by
  refine .ite (fun _ => ?_) fun _ => .pure fun _ h => h
  exact (validatePatch_restored tools args patch).bind fun _ => .pure fun _ h => h

theorem findNext_restored (searchSpace : List Patch) (last : Nat) (engine : SearchEngine ω) :
    Keeps (Restored start files written) (findNext cfg tools searchSpace last engine) := by
  refine .read_bind fun ws h => ?_
  refine .lift_bind fun hit _ => ?_
  refine Ensures.bind (Ensures.modify fun after h => ?_) fun _ => .pure fun _ h => h
  exact ⟨⟨h.files_eq, h.originals, h.logged.cons trivial⟩, h.atStart⟩

theorem searchLoop_restored (searchSpace : List Patch) (rounds last : Nat)
    (plausiblePatches : List Patch) (engine : SearchEngine ω)
    (hreported : plausiblePatches ⊆ searchSpace) :
    Ensures (Restored start files written)
      (searchLoop cfg tools args searchSpace rounds last plausiblePatches engine)
      fun found ws => Restored start files written ws ∧ found.1 ⊆ searchSpace := by
  induction rounds generalizing last plausiblePatches engine with
  | zero => exact .lift fun _ h => by cases h
  | succ rounds ih =>
      rw [searchLoop]
      refine .ite (fun _ => ?_) fun _ => .pure fun _ h => ⟨h, hreported⟩
      refine (findNext_restored tools cfg searchSpace last engine).bind fun found => ?_
      obtain ⟨hit, engine⟩ := found
      refine .ite (fun _ => .pure fun _ h => ⟨h, hreported⟩) fun _ => ?_
      refine .ite (fun _ => .pure fun _ h => ⟨h, hreported⟩) fun _ => ?_
      refine .lift_bind fun patch hpatch => ?_
      have happend : plausiblePatches ++ [patch] ⊆ searchSpace :=
        List.append_subset.mpr ⟨hreported, by simpa using List.mem_of_getElem? hpatch⟩
      refine .ite (fun _ => ?_) fun _ => ih _ _ engine happend
      have hvalid : Ensures (Restored start files written)
          (validInSearch cfg tools args patch)
          fun valid ws => Restored start files written ws ∧ valid = true :=
        (validInSearch_restored tools args cfg patch).with_value fun _ _ _ => validInSearch_true
      refine hvalid.bind fun valid => ?_
      refine .ite (fun _ => .pure fun _ h => ⟨h.1, happend⟩) fun hinvalid _ h => ?_
      exact absurd h.2 hinvalid

theorem searchPatches_restored (searchSpace : List Patch)
    (relatedTestIndexes : Location → Option (List Nat)) :
    Ensures (Restored start files written)
      (searchPatches cfg tools args searchSpace relatedTestIndexes)
      fun found ws => Restored start files written ws ∧ found.1 ⊆ searchSpace := by
  refine .read_bind fun ws h => ?_
  refine (searchLoop_restored tools args cfg searchSpace _ 0 [] _ (List.nil_subset _)).bind
    fun ⟨found, engine⟩ => ?_
  intro ws ⟨h, hfound⟩
  have hvalidate : Ensures (Restored start files written)
      (validateFound cfg tools args found) fun reported ws =>
        Restored start files written ws ∧ reported ⊆ found := by
    refine Ensures.with_value ?_ fun _ _ _ => validateFound_subset
    exact .ite (fun _ => validateAll_restored tools args found) fun _ => .pure fun _ h => h
  refine (hvalidate.bind fun reported => .pure fun ws h => ⟨h.1, ?_⟩) ws h
  exact List.Subset.trans h.2 hfound

theorem outputPatch_restored (entry : String × Patch) (hentry : entry ∈ written)
    (hid : entry.2.app.location.fileId < uintRange) :
    Keeps (Restored start files written) (outputPatch tools entry) := by
  refine (applyPatch_spec tools entry.2).bind fun _ => ?_
  refine .get_bind fun ws ⟨h, hcalls, hcopied⟩ => ?_
  obtain ⟨before, rest, hcalls⟩ := hcalls
  intro s hs u after hrun
  subst hs
  obtain ⟨file, hfile, hrun⟩ := run_lift_bind_eq_some.mp hrun
  rw [h.files_eq] at hfile
  obtain ⟨_, compared, hdiff, hrun⟩ := run_bind_eq_some.mp hrun
  obtain ⟨id, hgetId, rfl⟩ := computeDiff_spec hdiff
  rw [h.files_eq] at hgetId
  obtain ⟨found, hfound, hrelpath⟩ := getFileId_relpath hfile hid hgetId
  have hrecord : NewRecord start written s.calls
      (.computeDiff entry.1 ⟨file.relpath, s.saved (savedName "original" id),
        s.saved (savedName "patched" id)⟩) := by
    refine ⟨entry.2, files, before, s.disk, rest, file, hcalls, hentry, hfile, ?_⟩
    rw [h.originals id found hfound, hcopied id found hfound, hrelpath]
  have htidy : Tidy start files written
      { s with calls := .computeDiff entry.1 _ :: s.calls } :=
    ⟨h.files_eq, h.originals, h.logged.cons hrecord⟩
  exact restoreOriginalFiles_restored _ htidy u after hrun

private theorem searchAndReport_tidy (testerFiles : List ProjectFile) {searchSpace : List Patch}
    (relatedTestIndexes : Location → Option (List Nat))
    (hids : ∀ patch ∈ searchSpace, patch.app.location.fileId < uintRange) :
    Ensures (Restored start files [])
      (searchAndReport cfg tools args testerFiles searchSpace relatedTestIndexes)
      fun result => Tidy start files result.patches := by
  refine (searchPatches_restored tools args cfg searchSpace relatedTestIndexes).bind
    fun ⟨reported, engine⟩ => ?_
  intro ws ⟨h, hreported⟩
  have hreport : Keeps (Restored start files [])
      (reportSemanticDiff cfg searchSpace reported engine : RepairM ω _) :=
    .ite (fun _ => .lift fun _ _ _ h => h) fun _ => .pure fun _ h => h
  refine (hreport.bind fun _ => ?_) ws h
  let result := report cfg args.patchOutput reported
  have hwritten : Ensures (Restored start files []) (forM result.patches (outputPatch tools))
      fun _ => Restored start files result.patches := by
    refine Ensures.strengthen ?_ fun ws h => h.mono (List.nil_subset result.patches)
    refine .forM fun entry hentry => ?_
    exact outputPatch_restored tools entry hentry
      (hids entry.2 (hreported (writePatches_mem hentry)))
  refine hwritten.bind fun _ => ?_
  refine Ensures.bind ?_ fun _ => .pure fun _ h => h
  exact (restoreFrom_tidy _ 0 testerFiles).strengthen fun _ h => h.toTidy

end Programs

/-! ## File ids are unsigned numbers -/

theorem loadSchemaApplications_fileId {saFiles : List (List ApplicationJson)}
    {sas : List SchemaApplication} (h : loadSchemaApplications saFiles = .ok sas) :
    ∀ sa ∈ sas, sa.location.fileId < uintRange := by
  obtain ⟨loaded, hloaded, h⟩ := bind_eq_ok_iff.mp h
  obtain rfl := Except.ok.inj h
  intro sa hsa
  obtain ⟨file, hfile, hsa⟩ := List.mem_flatten.mp hsa
  obtain ⟨apps, -, hfile⟩ := exists_of_mem_mapM hloaded hfile
  obtain ⟨app, -, happ⟩ := exists_of_mem_mapM hfile hsa
  obtain ⟨appId, -, happ⟩ := bind_eq_ok_iff.mp happ
  obtain ⟨schema, -, happ⟩ := bind_eq_ok_iff.mp happ
  obtain ⟨location, hlocation, happ⟩ := bind_eq_ok_iff.mp happ
  obtain ⟨expression, -, happ⟩ := bind_eq_ok_iff.mp happ
  obtain ⟨components, -, happ⟩ := bind_eq_ok_iff.mp happ
  obtain ⟨fileId, hfileId, hlocation⟩ := bind_eq_ok_iff.mp hlocation
  obtain ⟨beginLine, -, hlocation⟩ := bind_eq_ok_iff.mp hlocation
  obtain ⟨beginColumn, -, hlocation⟩ := bind_eq_ok_iff.mp hlocation
  obtain ⟨endLine, -, hlocation⟩ := bind_eq_ok_iff.mp hlocation
  obtain ⟨endColumn, -, hlocation⟩ := bind_eq_ok_iff.mp hlocation
  rw [← Except.ok.inj happ, ← Except.ok.inj hlocation]
  exact (getUint_eq_ok hfileId).2

private theorem inferTypes_fileId {sas inferred : List SchemaApplication}
    (h : inferTypes sas = .ok inferred) (hids : ∀ sa ∈ sas, sa.location.fileId < uintRange) :
    ∀ sa ∈ inferred, sa.location.fileId < uintRange := by
  intro sa hsa
  obtain ⟨source, hsource, hsa⟩ := exists_of_mem_mapM h hsa
  obtain ⟨original, -, hsa⟩ := bind_eq_ok_iff.mp hsa
  rw [← Except.ok.inj hsa]
  exact hids source hsource

private theorem dispatchBases_app {names : generator.Naming} {sa : SchemaApplication}
    {bool2Expressions : List Expression} {paramBound fuel : Nat}
    {candidates : List synthesis.Modification} {emission result : generator.Emission}
    (h : generator.dispatchBases names sa bool2Expressions paramBound fuel candidates emission =
      .ok result) :
    ∀ patch ∈ result.patches, patch ∈ emission.patches ∨ patch.app = sa := by
  induction candidates generalizing emission with
  | nil =>
      obtain rfl := Except.ok.inj h
      exact fun patch hpatch => .inl hpatch
  | cons candidate candidates ih =>
      obtain ⟨baseCase, -, h⟩ := bind_eq_ok_iff.mp h
      obtain ⟨instances, -, h⟩ := bind_eq_ok_iff.mp h
      intro patch hpatch
      rcases ih h patch hpatch with hmem | happ
      · rcases List.mem_append.mp hmem with hmem | hmem
        · exact .inl hmem
        · obtain ⟨_, -, rfl⟩ := List.mem_map.mp hmem
          exact .inr rfl
      · exact .inr happ

theorem partitioningFunctionsFrom_app {cfg : Config} {fuel : Nat}
    {sas : List SchemaApplication} {baseId : Nat} {before searchSpace : List Patch}
    {codes : List generator.DispatchCode}
    (h : generator.partitioningFunctionsFrom cfg fuel sas baseId before =
      .ok (codes, searchSpace)) :
    ∀ patch ∈ searchSpace, patch ∈ before ∨ patch.app ∈ sas := by
  induction sas generalizing baseId before codes with
  | nil =>
      obtain ⟨-, rfl⟩ := Prod.mk.inj (Except.ok.inj h)
      exact fun patch hpatch => .inl hpatch
  | cons sa sas ih =>
      obtain ⟨⟨code, nextId, extended⟩, hfirst, h⟩ := bind_eq_ok_iff.mp h
      obtain ⟨⟨codes, final⟩, hrest, h⟩ := bind_eq_ok_iff.mp h
      obtain ⟨-, rfl⟩ := Prod.mk.inj (Except.ok.inj h)
      obtain ⟨names, -, hfirst⟩ := bind_eq_ok_iff.mp hfirst
      obtain ⟨conditions, -, hfirst⟩ := bind_eq_ok_iff.mp hfirst
      obtain ⟨bool2Cases, -, hfirst⟩ := bind_eq_ok_iff.mp hfirst
      obtain ⟨modifications, -, hfirst⟩ := bind_eq_ok_iff.mp hfirst
      obtain ⟨emission, hemission, hfirst⟩ := bind_eq_ok_iff.mp hfirst
      obtain ⟨-, hfirst⟩ := Prod.mk.inj (Except.ok.inj hfirst)
      obtain ⟨-, rfl⟩ := Prod.mk.inj hfirst
      intro patch hpatch
      rcases ih hrest patch hpatch with hmem | happ
      · rcases dispatchBases_app hemission patch hmem with hmem | rfl
        · exact .inl hmem
        · exact .inr List.mem_cons_self
      · exact .inr (List.mem_cons_of_mem _ happ)

/-! ## The stages before the search -/

section Stages

variable (tools : Toolchain ω) (args : Arguments) (cfg : Config)

theorem initialBuild_untouched :
    Keeps (Untouched start files) (initialBuild tools args) := by
  refine .read_bind fun ws h => ?_
  refine (buildInEnvironment_keeps tools untouched_world _ _).bind fun success => ?_
  refine .read_bind fun ws h => ?_
  refine .ite (fun _ => ?_) fun _ => .pure fun _ h => h
  exact Ensures.bind (.modify fun ws h => untouched_world ws _ h) fun _ => .pure fun _ h => h

theorem localizeFiles_tidy (testerFiles : List ProjectFile) :
    Ensures (Untouched start files) (localizeFiles tools args testerFiles)
      fun _ ws => ∃ found, files ⊆ found ∧ Tidy start found [] ws := by
  refine .get_bind fun ws h => ?_
  refine .ite (fun hempty => ?_) fun _ => ?_
  · have hfiles : files = [] := by
      rw [← h.1.files_eq]
      exact List.isEmpty_iff.mp hempty
    have hdestroy (found : List ProjectFile) (value : Bool) :
        Ensures (Untouched start found) (do destroyCopy testerFiles; pure value)
          fun _ (ws : Workspace ω) => ∃ found, files ⊆ found ∧ Tidy start found [] ws :=
      ((restoreFrom_tidy _ 0 testerFiles).strengthen fun _ h => h.1.toTidy).bind
        fun _ => .pure fun _ h => ⟨found, by simp [hfiles], h⟩
    refine Ensures.strengthen ?_ fun s (hs : s = ws) => hs ▸ h
    refine (runProgram_keeps untouched_world _).bind fun localized => ?_
    refine .ite (fun _ => ?_) fun _ => ?_
    · exact hdestroy files false
    · refine Ensures.bind ?_ fun _ => hdestroy (localized.map fun file => ⟨file, 0, 0⟩) true
      exact (setFiles_untouched _).strengthen fun ws h => ⟨h.2, h.1.logged⟩
  · exact .pure fun s (hs : s = ws) => ⟨files, List.Subset.refl _, hs ▸ h.1.toTidy⟩

theorem buildProfiled_tidy :
    Keeps (Tidy start files written) (buildProfiled tools args) := by
  refine .read_bind fun ws h => ?_
  have hinstrument : Keeps (Tidy start files written) (forM ws.files fun file => do
      let _ ← Project.instrumentFile tools file (args.dataDir ++ "/trace.txt") none
      pure ⟨⟩) :=
    .forM fun file _ => (instrumentFile_tidy tools file _ _).bind fun _ => .pure fun _ h => h
  refine hinstrument.bind fun _ => ?_
  refine (saveFilesWithPrefix_tidy (by decide) (by decide)).bind fun _ => ?_
  refine (runProgram_keeps tidy_world _).bind fun compiled => ?_
  refine .ite (fun _ => ?_) fun _ => .pure fun _ h => h
  refine (buildInEnvironment_keeps tools tidy_world _ _).bind fun _ => ?_
  exact restoreOriginalFiles_restored.bind fun _ => .pure fun _ h => h.toTidy

theorem profile_tidy (index : Nat) (tests : List String) (profiler : Profiler)
    (numNegative : Nat) :
    Keeps (Tidy start files written) (profile tools index tests profiler numNegative) := by
  induction tests generalizing index profiler numNegative with
  | nil => exact .pure fun _ h => h
  | cons test tests ih =>
      rw [profile]
      refine (runProgram_keeps tidy_world _).bind fun _ => ?_
      refine (runProgram_keeps tidy_world _).bind fun status => ?_
      exact .read_bind fun ws h => ih _ _ _

theorem instrumentFrom_tidy (interesting : Finset String) (index : Nat)
    (sources : List ProjectFile) :
    Keeps (Tidy start files written) (instrumentFrom tools args interesting index sources) := by
  induction sources generalizing index with
  | nil => exact .pure fun _ h => h
  | cons file sources ih =>
      rw [instrumentFrom]
      refine (instrumentFile_tidy tools file _ _).bind fun _ => ?_
      refine .read_bind fun ws h => ?_
      exact .ite (fun _ => ih _) fun _ => .pure fun _ h => h

theorem generatePatches_spec (fuel : Nat) :
    Ensures (Tidy start files written) (generatePatches cfg tools args fuel)
      fun generated ws => Tidy start files written ws ∧
        ∀ searchSpace, generated = some searchSpace → Restored start files written ws ∧
          ∀ patch ∈ searchSpace, patch.app.location.fileId < uintRange := by
  refine (saveFilesWithPrefix_tidy (by decide) (by decide)).bind fun _ => ?_
  refine .read_bind fun ws h => ?_
  refine .lift_bind fun sas hsas => ?_
  refine .lift_bind fun inferred hinferred => ?_
  refine .lift_bind fun ⟨code, searchSpace⟩ hspace => ?_
  have hids : ∀ patch ∈ searchSpace, patch.app.location.fileId < uintRange := by
    intro patch hpatch
    rcases partitioningFunctionsFrom_app (toOption_eq_some_iff.mp hspace) patch hpatch with
      hmem | hmem
    · simp at hmem
    · exact inferTypes_fileId (toOption_eq_some_iff.mp hinferred)
        (loadSchemaApplications_fileId (toOption_eq_some_iff.mp hsas)) _ hmem
  refine (runProgram_keeps tidy_world _).bind fun compiled => ?_
  refine .ite (fun _ => ?_) fun _ => .pure fun _ h => ⟨h, by simp⟩
  refine (buildInEnvironment_keeps tools tidy_world _ _).bind fun _ => ?_
  refine restoreOriginalFiles_restored.bind fun _ => .pure fun ws h => ⟨h.toTidy, ?_⟩
  intro patches hpatches
  obtain rfl := Option.some.inj hpatches
  exact ⟨h, hids⟩

private theorem repairLocations_tidy (fuel : Nat) (testerFiles : List ProjectFile)
    (profiler : Profiler) :
    Ensures (Tidy start files []) (repairLocations cfg tools args fuel testerFiles profiler)
      fun result => Tidy start files result.patches := by
  refine (runProgram_keeps tidy_world _).bind fun _ => ?_
  refine .read_bind fun ws h => ?_
  refine (instrumentFrom_tidy tools args _ 0 _).bind fun extracted => ?_
  refine .ite (fun _ => ?_) fun _ => .pure fun _ h => h
  refine (generatePatches_spec tools args cfg fuel).bind fun generated => ?_
  cases generated with
  | none => exact .pure fun _ h => h.1
  | some searchSpace =>
      intro ws h
      obtain ⟨hrestored, hids⟩ := h.2 searchSpace rfl
      refine searchAndReport_tidy tools args cfg testerFiles _ (fun patch hpatch => ?_) ws
        hrestored
      exact hids patch (List.mem_mergeSort.mp hpatch)

private theorem repair_tidy (fuel : Nat) (testerFiles : List ProjectFile) :
    Ensures (Untouched start files) (repair cfg tools args fuel testerFiles)
      fun result ws => ∃ found, files ⊆ found ∧ Tidy start found result.patches ws := by
  refine (initialBuild_untouched tools args).bind fun ⟨compiled, inferred⟩ => ?_
  refine .read_bind fun ws h => ?_
  refine .ite (fun _ => ?_) fun _ => .pure fun _ h => ⟨files, List.Subset.refl _, h.1.toTidy⟩
  refine (localizeFiles_tidy tools args testerFiles).bind fun localized => ?_
  refine .exists_pre fun found => .and_pre fun hfound => ?_
  refine .ite (fun _ => ?_) fun _ => .pure fun _ h => ⟨found, hfound, h⟩
  refine (buildProfiled_tidy tools args).bind fun profiled => ?_
  refine .ite (fun _ => ?_) fun _ => .pure fun _ h => ⟨found, hfound, h⟩
  refine (profile_tidy tools 0 args.tests .empty 0).bind fun ⟨profiler, numNegative⟩ => ?_
  refine .ite (fun _ => .pure fun _ h => ⟨found, hfound, h⟩) fun _ => ?_
  exact (repairLocations_tidy tools args cfg fuel testerFiles profiler).weaken
    fun _ _ h => ⟨found, hfound, h⟩

theorem main_restored (fuel : Nat) (sources : List ProjectFile) :
    Ensures (fun ws => ws.disk = start ∧ Logged start [] ws.calls)
      (main cfg tools args fuel sources)
      fun result ws => ∃ found, sources ⊆ found ∧ Restored start found result.patches ws := by
  refine (setFiles_untouched sources).bind fun _ => ?_
  refine (repair_tidy tools args cfg fuel sources).bind fun result => ?_
  refine .exists_pre fun found => .and_pre fun hfound => ?_
  refine Ensures.bind (restoreFrom_tidy _ 0 sources) fun _ => ?_
  exact restoreOriginalFiles_restored.bind fun _ => .pure fun _ h => ⟨found, hfound, h⟩

end Stages

/--
A whole run: every patch is applied to files as they were at the start, every
output patch is the difference that the application just before it made, and
the destructors leave the files as they were.
-/
theorem source_files_restored (cfg : Config) (tools : Toolchain ω) (args : Arguments)
    (fuel : Nat) (sources : List ProjectFile) {ws after : Workspace ω}
    {result : RepairResult} (hcalls : ws.calls = [])
    (hrun : (main cfg tools args fuel sources).run ws = some (result, after)) :
    (∀ patch files before applied,
        .applyPatch patch files before applied ∈ after.calls →
        ∀ file ∈ files, before file.relpath = ws.disk file.relpath) ∧
      (∀ later output diff earlier,
        after.calls = later ++ .computeDiff output diff :: earlier →
        ComparesPatch ws.disk result.patches output diff earlier) ∧
      sources ⊆ after.files ∧
      ∀ file ∈ after.files, after.disk file.relpath = ws.disk file.relpath := by
  have hbefore : ws.disk = ws.disk ∧ Logged ws.disk [] ws.calls := by
    rw [hcalls]
    exact ⟨rfl, .nil⟩
  obtain ⟨found, hfound, hrestored⟩ :=
    main_restored tools args cfg fuel sources ws hbefore result after hrun
  rw [hrestored.files_eq]
  exact ⟨hrestored.logged.applied, hrestored.logged.compared, hfound, hrestored.atStart⟩

theorem source_files_restored_onePatch :
    ∃ result after,
      (main onePatchConfig onePatchTools onePatchArguments 100 []).run onePatchWorkspace =
        some (result, after) ∧ result.status = .success ∧ after.files ≠ [] ∧
      (∀ later output diff earlier,
        after.calls = later ++ .computeDiff output diff :: earlier →
        ComparesPatch onePatchWorkspace.disk result.patches output diff earlier) ∧
      ∀ file ∈ after.files,
        after.disk file.relpath = onePatchWorkspace.disk file.relpath := by
  have hsome : ((main onePatchConfig onePatchTools onePatchArguments 100 []).run
      onePatchWorkspace).any (fun run => run.1.status = .success ∧ run.2.files ≠ []) = true := by
    decide +kernel
  obtain ⟨⟨result, after⟩, hrun, houtcome⟩ := (Option.any_eq_true _ _).mp hsome
  obtain ⟨-, hcompared, -, hrestored⟩ :=
    source_files_restored onePatchConfig onePatchTools onePatchArguments 100 [] rfl hrun
  have houtcome : result.status = .success ∧ after.files ≠ [] := by simpa using houtcome
  exact ⟨result, after, hrun, houtcome.1, houtcome.2, hcompared, hrestored⟩

end F1X.Repair
