import F1X.Repair.Main

/-!
# Validation of the output patches

With `generateAll` the plausible patches are filtered by `validatePatch`.  In
single-patch mode the search loop drops what `validatePatch` returns, so that the
first plausible patch is output whether it is valid or not.
-/

namespace F1X.Repair

open Library Project

variable {ω : Type} {vs : List (Patch × Bool)}

/-- The calls of `validatePatch` with their results, latest first. -/
def validations (calls : List CallRecord) : List (Patch × Bool) :=
  calls.filterMap fun
    | .validatePatch patch valid => some (patch, valid)
    | _ => none

def testsPass (tools : Toolchain ω) : List String → ω → Bool
  | [], _ => true
  | test :: tests, world =>
      let (status, world) := tools.execute [] test world
      testsPass tools tests world && status = .pass

private theorem testsPass_cons (tools : Toolchain ω) (test : String) (tests : List String)
    (world : ω) :
    testsPass tools (test :: tests) world =
      (testsPass tools tests (tools.execute [] test world).2 &&
        decide ((tools.execute [] test world).1 = .pass)) := rfl

/-! ## Commands that validate nothing -/

section Commands

variable (tools : Toolchain ω) (args : Arguments) (cfg : Config)

theorem saveFilesWithPrefix_validations (name : String) :
    Keeps (fun ws : Workspace ω => validations ws.calls = vs) (saveFilesWithPrefix name) := by
  intro ws h u after hrun
  obtain ⟨saved, rfl, -, -⟩ := saveFilesWithPrefix_spec hrun
  exact h

theorem restoreFrom_validations (name : String) (id : Nat) (files : List ProjectFile) :
    Keeps (fun ws : Workspace ω => validations ws.calls = vs) (restoreFrom name id files) := by
  intro ws h u after hrun
  obtain ⟨disk, rfl, -⟩ := restoreFrom_spec hrun
  exact h

theorem restoreOriginalFiles_validations :
    Keeps (fun ws : Workspace ω => validations ws.calls = vs) restoreOriginalFiles :=
  .read_bind fun ws _ => restoreFrom_validations "original" 0 ws.files

theorem computeDiff_validations (file : ProjectFile) (output : DiffOutput) :
    Keeps (fun ws : Workspace ω => validations ws.calls = vs) (computeDiff file output) := by
  intro ws h u after hrun
  obtain ⟨id, -, rfl⟩ := computeDiff_spec hrun
  cases output with
  | template app => exact h
  | patchFile output => exact h

theorem runTool_validations (program : Disk → ω → Bool × Disk × ω) :
    Keeps (fun ws => validations ws.calls = vs) (runTool program) :=
  .modifyGet fun _ h => h

private theorem placePatch_validations (file : ProjectFile) (patch : Patch) :
    Keeps (fun ws => validations ws.calls = vs) (placePatch tools file patch) := by
  refine .read_bind fun ws _ => ?_
  split
  · exact runTool_validations _
  · refine (runTool_validations _).bind fun _ => ?_
    refine (saveFilesWithPrefix_validations _).bind fun _ => ?_
    exact (computeDiff_validations file _).bind fun _ => .pure fun _ h => h

theorem applyPatch_validations (patch : Patch) :
    Keeps (fun ws => validations ws.calls = vs) (applyPatch tools patch) := by
  refine .read_bind fun ws _ => .lift_bind fun file _ => ?_
  refine (placePatch_validations tools file patch).bind fun _ => ?_
  refine .lift_bind fun replacement _ => ?_
  have hreplace : Keeps (fun ws => validations ws.calls = vs)
      (replacePlaceholderInFile file.relpath replacement : RepairM ω PUnit) :=
    .modify fun _ h => h
  refine hreplace.bind fun _ => (saveFilesWithPrefix_validations _).bind fun _ => ?_
  exact Ensures.bind (.modify fun _ h => h) fun _ => .pure fun _ h => h

theorem findNext_validations (searchSpace : List Patch) (start : Nat)
    (engine : SearchEngine ω) :
    Keeps (fun ws => validations ws.calls = vs)
      (findNext cfg tools searchSpace start engine) := by
  refine .read_bind fun ws _ => .lift_bind fun found _ => ?_
  exact Ensures.bind (.modify fun _ h => h) fun _ => .pure fun _ h => h

private theorem outputPatch_validations (entry : String × Patch) :
    Keeps (fun ws => validations ws.calls = vs) (outputPatch tools entry) := by
  refine (applyPatch_validations tools entry.2).bind fun _ => ?_
  refine .read_bind fun ws _ => .lift_bind fun file _ => ?_
  refine (computeDiff_validations file _).bind fun _ => ?_
  exact restoreOriginalFiles_validations

private theorem report_validations (testerFiles : List ProjectFile)
    (searchSpace plausiblePatches : List Patch) (engine : SearchEngine ω) :
    Ensures (fun ws => validations ws.calls = vs) (do
      let _ ← reportSemanticDiff cfg searchSpace plausiblePatches engine
      let result := report cfg args.patchOutput plausiblePatches
      forM result.patches (outputPatch tools)
      destroyCopy testerFiles
      pure result) fun result ws =>
        result = report cfg args.patchOutput plausiblePatches ∧ validations ws.calls = vs := by
  have hreport : Keeps (fun ws => validations ws.calls = vs)
      (reportSemanticDiff cfg searchSpace plausiblePatches engine : RepairM ω _) :=
    .ite (fun _ => .lift fun _ _ _ h => h) fun _ => .pure fun _ h => h
  refine hreport.bind fun _ => ?_
  refine Ensures.bind (.forM fun entry _ => outputPatch_validations tools entry) fun _ => ?_
  exact (restoreFrom_validations _ 0 testerFiles).bind fun _ => .pure fun _ h => ⟨rfl, h⟩

end Commands

/-! ## Validations -/

section Validate

variable {cfg : Config} {tools : Toolchain ω} {args : Arguments} {ws after : Workspace ω}

private theorem failingTests_spec {tests failing : List String}
    (h : (failingTests tools tests).run ws = some (failing, after)) :
    failing.isEmpty = testsPass tools tests ws.world ∧ after.calls = ws.calls := by
  induction tests generalizing ws failing with
  | nil =>
      obtain ⟨rfl, rfl⟩ := run_pure_eq_some.mp h
      exact ⟨rfl, rfl⟩
  | cons test tests ih =>
      obtain ⟨status, middle, hexecute, h⟩ := run_bind_eq_some.mp h
      obtain ⟨rest, final, hrest, h⟩ := run_bind_eq_some.mp h
      obtain ⟨rfl, rfl⟩ := run_pure_eq_some.mp h
      obtain ⟨hstatus, hmiddle⟩ := Prod.mk.inj (Option.some.inj hexecute)
      subst hmiddle
      obtain ⟨hempty, hcalls⟩ := ih hrest
      refine ⟨?_, hcalls⟩
      rw [testsPass_cons, hstatus]
      by_cases hpass : status = .pass
      · simpa [hpass] using hempty
      · simp [hpass]

theorem validatePatch_spec {patch : Patch} {valid : Bool}
    (h : (validatePatch tools args patch).run ws = some (valid, after)) :
    ∃ success applied, (applyPatch tools patch).run ws = some (success, applied) ∧
      valid = testsPass tools args.tests
        (tools.build compilers args.buildCmd applied.disk applied.world).2 ∧
      validations after.calls = (patch, valid) :: validations ws.calls := by
  obtain ⟨success, applied, happly, h⟩ := run_bind_eq_some.mp h
  obtain ⟨built, compiled, hbuild, h⟩ := run_bind_eq_some.mp h
  obtain ⟨failing, tested, htests, h⟩ := run_bind_eq_some.mp h
  obtain ⟨_, restored, hrestore, h⟩ := run_bind_eq_some.mp h
  rw [run_modify_bind] at h
  obtain ⟨rfl, rfl⟩ := run_pure_eq_some.mp h
  obtain ⟨-, hcompiled⟩ := Prod.mk.inj (Option.some.inj hbuild)
  subst hcompiled
  obtain ⟨hvalid, hcalls⟩ := failingTests_spec htests
  refine ⟨success, applied, happly, hvalid, ?_⟩
  have happlied := applyPatch_validations tools patch ws rfl success applied happly
  have htested : validations tested.calls = validations ws.calls := by
    rw [hcalls]
    exact happlied
  exact congrArg ((patch, failing.isEmpty) :: ·)
    (restoreOriginalFiles_validations tested htested _ restored hrestore)

private theorem validateAll_spec {found valid : List Patch}
    (h : (validateAll tools args found).run ws = some (valid, after)) :
    validations ws.calls ⊆ validations after.calls ∧
      ∀ patch ∈ valid, (patch, true) ∈ validations after.calls := by
  induction found generalizing ws valid with
  | nil =>
      obtain ⟨rfl, rfl⟩ := run_pure_eq_some.mp h
      exact ⟨List.Subset.refl _, by simp⟩
  | cons patch found ih =>
      obtain ⟨first, middle, hfirst, h⟩ := run_bind_eq_some.mp h
      obtain ⟨rest, final, hrest, h⟩ := run_bind_eq_some.mp h
      obtain ⟨rfl, rfl⟩ := run_pure_eq_some.mp h
      obtain ⟨-, -, -, -, hrecord⟩ := validatePatch_spec hfirst
      obtain ⟨hsub, hvalid⟩ := ih hrest
      rw [hrecord] at hsub
      refine ⟨List.Subset.trans (List.subset_cons_self _ _) hsub, ?_⟩
      cases first with
      | true =>
          intro other hother
          rcases List.mem_cons.mp hother with rfl | hother
          · exact hsub List.mem_cons_self
          · exact hvalid other hother
      | false => exact hvalid

/-! ## The two modes -/

variable {searchSpace reported : List Patch} {engine next : SearchEngine ω}

private theorem searchPatches_all {table : Location → Option (List Nat)}
    (hvalidate : cfg.validatePatches = true) (hall : cfg.generateAll = true)
    (h : (searchPatches cfg tools args searchSpace table).run ws =
      some ((reported, engine), after)) :
    ∀ patch ∈ reported, (patch, true) ∈ validations after.calls := by
  rw [searchPatches, run_get_bind] at h
  obtain ⟨⟨found, final⟩, middle, -, h⟩ := run_bind_eq_some.mp h
  obtain ⟨valid, last, hfilter, h⟩ := run_bind_eq_some.mp h
  obtain ⟨hreported, rfl⟩ := run_pure_eq_some.mp h
  obtain ⟨rfl, -⟩ := Prod.mk.inj hreported
  rw [validateFound, hvalidate, hall] at hfilter
  exact (validateAll_spec hfilter).2

private theorem searchLoop_single (hvalidate : cfg.validatePatches = true)
    (hsingle : cfg.generateAll = false) {rounds : Nat}
    (h : (searchLoop cfg tools args searchSpace (rounds + 1) 0 [] engine).run ws =
      some ((reported, next), after)) :
    (reported = [] ∧ validations after.calls = validations ws.calls ∧
        ∀ hit next found,
          (findNext cfg tools searchSpace 0 engine).run ws = some ((hit, next), found) →
          searchSpace[hit]? = none) ∨
      ∃ hit found patch valid,
        (findNext cfg tools searchSpace 0 engine).run ws = some ((hit, next), found) ∧
          searchSpace[hit]? = some patch ∧
          (validatePatch tools args patch).run found = some (valid, after) ∧
          reported = [patch] := by
  cases searchLoop_round h with
  | finished hlast =>
      refine .inl ⟨rfl, rfl, fun hit _ _ _ => List.getElem?_eq_none ?_⟩
      exact hlast.trans (Nat.zero_le hit)
  | missed _ hfind =>
      refine .inl ⟨rfl, findNext_validations tools cfg _ 0 _ ws rfl _ after hfind, ?_⟩
      intro other engine' found' hother
      rw [hfind] at hother
      cases hother
      exact List.getElem?_eq_none (Nat.le_refl _)
  | enough _ _ _ henough =>
      rw [List.length_nil, foundEnough_zero] at henough
      cases henough
  | @single hit _ patch searched _ _ hfind hpatch _ _ hvalid =>
      rw [validInSearch, hvalidate, if_pos rfl] at hvalid
      obtain ⟨valid, validated, hvalidated, hvalid⟩ := run_bind_eq_some.mp hvalid
      obtain ⟨-, rfl⟩ := run_pure_eq_some.mp hvalid
      exact .inr ⟨hit, searched, patch, valid, hfind, hpatch, hvalidated, rfl⟩
  | next _ _ _ _ hall =>
      rw [hsingle] at hall
      cases hall

end Validate

/-! ## When only validated patches are output -/

/-- After a failed validation the search goes on with the next index, if there is one. -/
def ContinuesSearch (searchSpace : List Patch) (calls : List CallRecord) : Prop :=
  ∀ later patch earlier start hit rest,
    calls = later ++ .validatePatch patch false :: earlier →
    earlier.dropWhile (fun | .findNext _ _ => false | _ => true) =
      .findNext start hit :: rest →
    hit + 1 < searchSpace.length → ∃ next, .findNext (hit + 1) next ∈ later

structure OnlyValidated (cfg : Config) (searchSpace : List Patch) (result : RepairResult)
    (calls : List CallRecord) : Prop where
  reported : ∀ patch ∈ result.plausiblePatches, (patch, true) ∈ validations calls
  written : ∀ entry ∈ result.patches, (entry.2, true) ∈ validations calls
  success : result.status = .success →
    ∃ patch ∈ result.plausiblePatches, (patch, true) ∈ validations calls
  continues : cfg.generateAll = false → ContinuesSearch searchSpace calls

/--
All tests pass with the first plausible patch, if there is one, once it is applied
and built.
-/
def FirstValidates (cfg : Config) (tools : Toolchain ω) (args : Arguments)
    (searchSpace : List Patch) (table : Location → Option (List Nat)) (ws : Workspace ω) :
    Prop :=
  ∀ hit engine found patch success applied,
    (findNext cfg tools searchSpace 0
      (.create args.tests (getPartitionable searchSpace) table ws.world)).run ws =
        some ((hit, engine), found) →
    searchSpace[hit]? = some patch →
    (applyPatch tools patch).run found = some (success, applied) →
    testsPass tools args.tests
      (tools.build compilers args.buildCmd applied.disk applied.world).2 = true

section Output

variable {cfg : Config} {tools : Toolchain ω} {args : Arguments} {ws after : Workspace ω}
  {searchSpace : List Patch} {table : Location → Option (List Nat)}

private theorem searchPatches_single {reported : List Patch} {engine : SearchEngine ω}
    (hvalidate : cfg.validatePatches = true) (hsingle : cfg.generateAll = false)
    (hcalls : validations ws.calls = [])
    (h : (searchPatches cfg tools args searchSpace table).run ws =
      some ((reported, engine), after)) :
    (reported = [] ∧ validations after.calls = [] ∧
        FirstValidates cfg tools args searchSpace table ws) ∨
      ∃ patch valid, reported = [patch] ∧ validations after.calls = [(patch, valid)] ∧
        (FirstValidates cfg tools args searchSpace table ws ↔ valid = true) := by
  rw [searchPatches, run_get_bind] at h
  obtain ⟨⟨found, final⟩, middle, hloop, h⟩ := run_bind_eq_some.mp h
  dsimp only at h
  rw [validateFound, hsingle, Bool.and_false, if_neg (by simp)] at h
  obtain ⟨hreported, rfl⟩ := run_pure_eq_some.mp h
  obtain ⟨rfl, rfl⟩ := Prod.mk.inj hreported
  rcases searchLoop_single hvalidate hsingle hloop with
    ⟨rfl, hnone, hmiss⟩ | ⟨hit, searched, patch, valid, hfind, hpatch, hvalid, rfl⟩
  · refine .inl ⟨rfl, hnone.trans hcalls, ?_⟩
    intro hit engine found patch success applied hfind hpatch _
    rw [hmiss hit engine found hfind] at hpatch
    cases hpatch
  · obtain ⟨success, applied, happly, hvalue, hrecord⟩ := validatePatch_spec hvalid
    have hbefore := findNext_validations tools cfg _ 0 _ ws rfl _ searched hfind
    refine .inr ⟨patch, valid, rfl, by rw [hrecord, hbefore, hcalls], ?_⟩
    constructor
    · intro hfirst
      exact hvalue.trans (hfirst hit _ searched patch success applied hfind hpatch happly)
    · intro hpass hit' engine' found' patch' success' applied' hfind' hpatch' happly'
      obtain ⟨heq, rfl⟩ := Prod.mk.inj (Option.some.inj (hfind.symm.trans hfind'))
      obtain ⟨rfl, -⟩ := Prod.mk.inj heq
      obtain rfl : patch = patch' := Option.some.inj (hpatch.symm.trans hpatch')
      obtain ⟨-, rfl⟩ := Prod.mk.inj (Option.some.inj (happly.symm.trans happly'))
      rw [← hvalue, hpass]

private theorem continuesSearch_of_valid {calls : List CallRecord}
    (h : ∀ entry ∈ validations calls, entry.2 = true) : ContinuesSearch searchSpace calls := by
  rintro later patch earlier start hit rest rfl
  have hmem : (patch, false) ∈ validations (later ++ .validatePatch patch false :: earlier) := by
    simp [validations]
  exact absurd (h _ hmem) (by simp)

/-- It is enough that the plausible patches are validated and no validation failed. -/
theorem onlyValidated_report {reported : List Patch} {calls : List CallRecord}
    (hreported : ∀ patch ∈ reported, (patch, true) ∈ validations calls)
    (hcontinues : cfg.generateAll = false → ∀ entry ∈ validations calls, entry.2 = true) :
    OnlyValidated cfg searchSpace (report cfg args.patchOutput reported) calls where
  reported := hreported
  written entry hentry := hreported entry.2 (writePatches_mem hentry)
  success hsuccess := by
    cases reported with
    | nil => simp [report] at hsuccess
    | cons patch rest => exact ⟨patch, List.mem_cons_self, hreported _ List.mem_cons_self⟩
  continues hsingle := continuesSearch_of_valid (hcontinues hsingle)

end Output

/--
With validation enabled, only validated patches are output exactly if all
plausible patches are generated or the first one that is found is valid.
-/
theorem validated_output_iff (cfg : Config) (tools : Toolchain ω) (args : Arguments)
    (testerFiles : List ProjectFile) (searchSpace : List Patch)
    (table : Location → Option (List Nat)) {ws after : Workspace ω} {result : RepairResult}
    (hvalidate : cfg.validatePatches = true) (hcalls : ws.calls = [])
    (hrun : (searchAndReport cfg tools args testerFiles searchSpace table).run ws =
      some (result, after)) :
    OnlyValidated cfg searchSpace result after.calls ↔
      cfg.generateAll = true ∨ FirstValidates cfg tools args searchSpace table ws := by
  rw [searchAndReport] at hrun
  obtain ⟨⟨reported, engine⟩, searched, hsearch, hrun⟩ := run_bind_eq_some.mp hrun
  obtain ⟨rfl, hrecords⟩ :=
    report_validations tools args cfg testerFiles searchSpace reported engine searched rfl
      result after hrun
  cases hmode : cfg.generateAll with
  | true =>
      have hvalid := searchPatches_all hvalidate hmode hsearch
      rw [← hrecords] at hvalid
      refine ⟨fun _ => .inl rfl, fun _ => onlyValidated_report hvalid fun hsingle => ?_⟩
      rw [hmode] at hsingle
      cases hsingle
  | false =>
      have hnothing : validations ws.calls = [] := by rw [hcalls]; rfl
      rcases searchPatches_single hvalidate hmode hnothing hsearch with
        ⟨rfl, hnone, hfirst⟩ | ⟨patch, valid, rfl, hone, hiff⟩
      · refine ⟨fun _ => .inr hfirst, fun _ => onlyValidated_report (by simp) ?_⟩
        simp [hrecords, hnone]
      · rw [hone] at hrecords
        constructor
        · intro h
          have hmem := h.reported patch List.mem_cons_self
          rw [hrecords, List.mem_singleton] at hmem
          exact .inr (hiff.mpr (Prod.mk.inj hmem).2.symm)
        · rintro (hall | hfirst)
          · cases hall
          · obtain rfl := hiff.mp hfirst
            exact onlyValidated_report (by simp [hrecords]) (by simp [hrecords])

/-! ## A patch that fails its validation -/

def validatingConfig (generateAll : Bool) : Config :=
  { onePatchConfig with validatePatches := true, generateAll := generateAll }

def firstCandidate : Patch where
  id := ⟨1, 0, 0, 0, 0⟩
  app := SearchEngine.twoPatchesApp
  modified := falseNode
  metadata := ⟨.concretization, 1⟩

def savedWorkspace : Workspace Unit :=
  { onePatchWorkspace with
    files := [⟨"main.c", 0, 0⟩]
    saved := fun name => if name = savedName "original" 0 then some "return x;\n" else none }

def validatingRun (generateAll : Bool) : Option (RepairResult × Workspace Unit) :=
  (searchAndReport (validatingConfig generateAll) onePatchTools onePatchArguments []
    [firstCandidate] fun _ => some [0]).run savedWorkspace

theorem validated_output_iff_generateAll :
    ∃ result after, validatingRun true = some (result, after) ∧
      OnlyValidated (validatingConfig true) [firstCandidate] result after.calls := by
  obtain ⟨⟨result, after⟩, hrun⟩ : ∃ run, validatingRun true = some run :=
    Option.isSome_iff_exists.mp (by decide +kernel)
  exact ⟨result, after, hrun,
    (validated_output_iff _ _ _ _ _ _ rfl rfl hrun).mpr (.inl rfl)⟩

theorem invalid_patch_output :
    ¬ ∀ (cfg : Config) (tools : Toolchain Unit) (args : Arguments)
      (testerFiles : List ProjectFile) (searchSpace : List Patch)
      (table : Location → Option (List Nat)) (ws after : Workspace Unit)
      (result : RepairResult),
      cfg.validatePatches = true → ws.calls = [] →
      (searchAndReport cfg tools args testerFiles searchSpace table).run ws =
        some (result, after) → OnlyValidated cfg searchSpace result after.calls := by
  intro hvalidated
  have hinvalid : (validatingRun false).any (fun run =>
      run.1.plausiblePatches.any fun patch => (patch, true) ∉ validations run.2.calls) =
      true := by
    decide +kernel
  obtain ⟨⟨result, after⟩, hrun, hpatch⟩ := (Option.any_eq_true _ _).mp hinvalid
  obtain ⟨patch, hpatch, hmissing⟩ := List.any_eq_true.mp hpatch
  have honly := hvalidated _ _ _ _ _ _ _ after result rfl rfl hrun
  exact absurd (honly.reported patch hpatch) (by simpa using hmissing)

end F1X.Repair
