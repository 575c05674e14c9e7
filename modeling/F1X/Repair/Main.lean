import F1X.Repair.Project
import F1X.Repair.Profiler
import F1X.Repair.Repair

/-!
# The whole run

`repair` of `repair/Repair.cpp` and the end of `main` of `tools/F1X.cpp`, with
every change of the source files.  The objects that hold a copy of the project
restore its files when they are destroyed: the test driver of `main` and the
copies of it in the fault localization and in the search engine.  Left out is
what is written for the user only or outside the project: the log, the dumped
search space, the output directory and the removal of the intermediate data.
-/

namespace F1X.Repair

open Library Project

section Definitions

variable {ω : Type} (cfg : Config) (tools : Toolchain ω) (args : Arguments)

/-! ## Validation -/

def executeTest (test : String) : RepairM ω TestStatus :=
  runProgram (tools.execute [] test)

def failingTests : List String → RepairM ω (List String)
  | [] => pure []
  | test :: tests => do
      let status ← executeTest tools test
      let failing ← failingTests tests
      pure (if status = .pass then failing else test :: failing)

def validatePatch (patch : Patch) : RepairM ω Bool := do
  let _ ← applyPatch tools patch
  let _ ← build tools args
  let failing ← failingTests tools args.tests
  restoreOriginalFiles
  modify fun ws => { ws with calls := .validatePatch patch failing.isEmpty :: ws.calls }
  pure failing.isEmpty

def validateAll : List Patch → RepairM ω (List Patch)
  | [] => pure []
  | patch :: plausiblePatches => do
      let valid ← validatePatch tools args patch
      let validPatches ← validateAll plausiblePatches
      pure (if valid then patch :: validPatches else validPatches)

/-! ## Search -/

def runtimeHeader : String := args.dataDir ++ "/rt.h"

/-- `findNext` of the engine, which shares the outside world with the project. -/
def findNext (searchSpace : List Patch) (start : Nat) (engine : SearchEngine ω) :
    RepairM ω (Nat × SearchEngine ω) := do
  let ws ← get
  let (hit, engine) ← StateT.lift
    ({ engine with world := ws.world }.findNext cfg tools.toTestHarness searchSpace start)
  modify fun ws =>
    { ws with world := engine.world, calls := .findNext start hit :: ws.calls }
  pure (hit, engine)

/-- The variable `valid` of the search loop: what `validatePatch` returns is dropped. -/
def validInSearch (patch : Patch) : RepairM ω Bool :=
  if cfg.validatePatches then do
    let _ ← validatePatch tools args patch
    pure true
  else pure true

/-- The loop that generates plausible patches, with a bound on its rounds. -/
def searchLoop (searchSpace : List Patch) :
    (rounds last : Nat) → (plausiblePatches : List Patch) → (engine : SearchEngine ω) →
      RepairM ω (List Patch × SearchEngine ω)
  | 0, _, _, _ => StateT.lift none
  | rounds + 1, last, plausiblePatches, engine =>
      if last < searchSpace.length then do
        let (last, engine) ← findNext cfg tools searchSpace last engine
        if last = searchSpace.length then
          pure (plausiblePatches, engine)
        else if foundEnough cfg plausiblePatches.length then
          pure (plausiblePatches, engine)
        else do
          let patch ← StateT.lift searchSpace[last]?
          if !cfg.generateAll then do
            let valid ← validInSearch cfg tools args patch
            if valid then
              pure (plausiblePatches ++ [patch], engine)
            else do
              restoreInstrumentedFiles
              let _ ← buildWithRuntime tools args (runtimeHeader args)
              searchLoop searchSpace rounds (last + 1) plausiblePatches engine
          else
            searchLoop searchSpace rounds (last + 1) (plausiblePatches ++ [patch]) engine
      else
        pure (plausiblePatches, engine)

def validateFound (found : List Patch) : RepairM ω (List Patch) :=
  if cfg.validatePatches && cfg.generateAll then validateAll tools args found
  else pure found

/-- The plausible patches after both validations, with the engine that found them. -/
def searchPatches (searchSpace : List Patch)
    (relatedTestIndexes : Location → Option (List Nat)) :
    RepairM ω (List Patch × SearchEngine ω) := do
  let ws ← get
  let (found, engine) ←
    searchLoop cfg tools args searchSpace (searchSpace.length + 1) 0 []
      (.create args.tests (getPartitionable searchSpace) relatedTestIndexes ws.world)
  let plausiblePatches ← validateFound cfg tools args found
  pure (plausiblePatches, engine)

/-! ## Reports -/

def hasCoverage (searchSpace : List Patch) (engine : SearchEngine ω) (test : String) : Bool :=
  searchSpace.any fun elem => (engine.coverageSet test elem.id).isSome

/-- The loop over `coverageSet`; `none` when a null pointer is dereferenced. -/
def reportCoverage (searchSpace plausiblePatches : List Patch) (engine : SearchEngine ω) :
    Option (List (String × List (PatchID × Coverage))) :=
  (engine.tests.eraseDups.filter (hasCoverage searchSpace engine)).mapM fun test => do
    let entries ← plausiblePatches.mapM fun patch => do
      let coverage ← engine.coverageSet test patch.id
      some (patch.id, coverage)
    some (test, entries)

def reportSemanticDiff (searchSpace plausiblePatches : List Patch) (engine : SearchEngine ω) :
    RepairM ω (List (String × List (PatchID × Coverage))) :=
  if cfg.patchPrioritization = .semanticDiff then
    StateT.lift (reportCoverage searchSpace plausiblePatches engine)
  else pure []

def outputPatch (entry : String × Patch) : RepairM ω PUnit := do
  let _ ← applyPatch tools entry.2
  let ws ← get
  let file ← StateT.lift ws.files[entry.2.app.location.fileId]?
  computeDiff file (.patchFile entry.1)
  restoreOriginalFiles

/-- From the search engine to the end; `testerFiles` is the list in its test driver. -/
def searchAndReport (testerFiles : List ProjectFile) (searchSpace : List Patch)
    (relatedTestIndexes : Location → Option (List Nat)) : RepairM ω RepairResult := do
  let (plausiblePatches, engine) ←
    searchPatches cfg tools args searchSpace relatedTestIndexes
  let _ ← reportSemanticDiff cfg searchSpace plausiblePatches engine
  let result := report cfg args.patchOutput plausiblePatches
  forM result.patches (outputPatch tools)
  destroyCopy testerFiles
  pure result

/-! ## Before the search -/

/-- The files to repair when none are given; false when none are found. -/
def localizeFiles (testerFiles : List ProjectFile) : RepairM ω Bool := do
  let ws ← get
  if ws.files.isEmpty then do
    let localized ← runProgram fun world =>
      tools.localize args.tests (tools.filesFromCompilationDB world) world
    if localized.isEmpty then do
      destroyCopy testerFiles
      pure false
    else do
      setFiles (localized.map fun file => ⟨file, 0, 0⟩)
      destroyCopy testerFiles
      pure true
  else pure true

/-- False when the profiler runtime does not compile; then the files stay instrumented. -/
def buildProfiled : RepairM ω Bool := do
  let ws ← get
  forM ws.files fun file => do
    let _ ← Project.instrumentFile tools file (args.dataDir ++ "/trace.txt") none
    pure ⟨⟩
  saveProfileInstumentedFiles
  let compiled ← runProgram tools.compileProfiler
  if compiled then do
    let _ ← buildWithRuntime tools args (args.dataDir ++ "/profile.h")
    restoreOriginalFiles
    pure true
  else pure false

def profile : (index : Nat) → List String → Profiler → Nat → RepairM ω (Profiler × Nat)
  | _, [], profiler, numNegative => pure (profiler, numNegative)
  | index, test :: tests, profiler, numNegative => do
      runProgram fun world => (⟨⟩, tools.clearTrace world)
      let status ← executeTest tools test
      let ws ← get
      profile (index + 1) tests
        (profiler.mergeTrace index (status = .pass) (tools.readTrace ws.world))
        (if status = .pass then numNegative else numNegative + 1)

def saFile (index : Nat) : String :=
  args.dataDir ++ "/applications" ++ toString index ++ ".json"

/-- False when a file leaves no candidate locations; then the files stay instrumented. -/
def instrumentFrom (interesting : Finset String) :
    (index : Nat) → List ProjectFile → RepairM ω Bool
  | _, [] => pure true
  | index, file :: files => do
      let _ ← Project.instrumentFile tools file (saFile args index) (some interesting)
      let ws ← get
      if tools.fileExists (saFile args index) ws.world then
        instrumentFrom interesting (index + 1) files
      else pure false

def inferTypes (sas : List SchemaApplication) : Except Failure (List SchemaApplication) :=
  sas.mapM fun sa => do
    let original ← correctTypes sa.original
      (if sa.context = .condition then .boolean else .any)
    .ok { sa with original := original }

/-- The unsorted search space; `none` when the runtime does not compile. -/
def generatePatches (fuel : Nat) : RepairM ω (Option (List Patch)) := do
  saveInstrumentedFiles
  let ws ← get
  let saFiles := (List.range ws.files.length).map fun index =>
    tools.readApplications (saFile args index) ws.world
  let sas ← StateT.lift (loadSchemaApplications saFiles).toOption
  let sas ← StateT.lift (inferTypes sas).toOption
  let (code, searchSpace) ← StateT.lift (generateSearchSpace cfg fuel sas).toOption
  let compiled ← runProgram (tools.compileRuntime code)
  if compiled then do
    let _ ← buildWithRuntime tools args (runtimeHeader args)
    restoreOriginalFiles
    pure (some searchSpace)
  else pure none

def stopped (status : RepairStatus) : RepairResult := ⟨status, [], []⟩

def deleteCoverageFiles : RepairM ω PUnit :=
  runProgram fun world =>
    (⟨⟩, if cfg.patchPrioritization = .semanticDiff then tools.deleteCoverageFiles world
      else world)

def repairLocations (fuel : Nat) (testerFiles : List ProjectFile) (profiler : Profiler) :
    RepairM ω RepairResult := do
  deleteCoverageFiles cfg tools
  let profiler := profiler.getProfile
  let ws ← get
  let extracted ← instrumentFrom tools args profiler.interestingLocations 0 ws.files
  if extracted then do
    let generated ← generatePatches cfg tools args fuel
    match generated with
    | none => pure (stopped .error)
    | some searchSpace =>
        searchAndReport cfg tools args testerFiles
          (prioritize searchSpace (patchCost searchSpace)) profiler.relatedTestIndexes
  else pure (stopped .error)

def repair (fuel : Nat) (testerFiles : List ProjectFile) : RepairM ω RepairResult := do
  let (_, inferenceSuccess) ← initialBuild tools args
  let ws ← get
  if inferenceSuccess && tools.driverIsOK ws.world then do
    let localized ← localizeFiles tools args testerFiles
    if localized then do
      let profiled ← buildProfiled tools args
      if profiled then do
        let (profiler, numNegative) ← profile tools 0 args.tests .empty 0
        if numNegative = 0 then pure (stopped .noNegativeTests)
        else repairLocations cfg tools args fuel testerFiles profiler
      else pure (stopped .error)
    else pure (stopped .failure)
  else pure (stopped .error)

/-- The block of `main` in which the project and the test driver live. -/
def main (fuel : Nat) (files : List ProjectFile) : RepairM ω RepairResult := do
  setFiles files
  let result ← repair cfg tools args fuel files
  -- the test driver with its copy of the project, then the project itself
  destroyCopy files
  restoreOriginalFiles
  pure result

end Definitions

/-! ## What a run returns -/

section Runs

variable {ω : Type} {cfg : Config} {tools : Toolchain ω} {args : Arguments}
  {searchSpace found : List Patch} {engine : SearchEngine ω} {last rounds : Nat}
  {ws after : Workspace ω}

theorem validInSearch_true {patch : Patch} {valid : Bool}
    (h : (validInSearch cfg tools args patch).run ws = some (valid, after)) :
    valid = true := by
  rw [validInSearch] at h
  split_ifs at h
  · obtain ⟨_, middle, -, h⟩ := run_bind_eq_some.mp h
    exact (run_pure_eq_some.mp h).1
  · exact (run_pure_eq_some.mp h).1

private theorem validateAll_subset {valid : List Patch}
    (h : (validateAll tools args found).run ws = some (valid, after)) : valid ⊆ found := by
  induction found generalizing ws valid with
  | nil =>
      obtain ⟨rfl, -⟩ := run_pure_eq_some.mp h
      exact List.Subset.refl _
  | cons patch found ih =>
      obtain ⟨first, middle, -, h⟩ := run_bind_eq_some.mp h
      obtain ⟨rest, final, hrest, h⟩ := run_bind_eq_some.mp h
      obtain ⟨rfl, rfl⟩ := run_pure_eq_some.mp h
      cases first with
      | true => exact List.cons_subset_cons patch (ih hrest)
      | false => exact List.Subset.trans (ih hrest) (List.subset_cons_self _ _)

theorem validateFound_subset {valid : List Patch}
    (h : (validateFound cfg tools args found).run ws = some (valid, after)) :
    valid ⊆ found := by
  rw [validateFound] at h
  split_ifs at h
  · exact validateAll_subset h
  · obtain ⟨rfl, -⟩ := run_pure_eq_some.mp h
    exact List.Subset.refl _

/-- All that a round of the search loop can do, up to the result of the loop. -/
inductive SearchRound (cfg : Config) (tools : Toolchain ω) (args : Arguments)
    (searchSpace : List Patch) (rounds last : Nat) (found : List Patch)
    (engine : SearchEngine ω) (ws : Workspace ω) :
    (List Patch × SearchEngine ω) × Workspace ω → Prop
  | finished (hlast : searchSpace.length ≤ last) :
      SearchRound cfg tools args searchSpace rounds last found engine ws ((found, engine), ws)
  | missed {next : SearchEngine ω} {searched : Workspace ω} (hlast : last < searchSpace.length)
      (hfind : (findNext cfg tools searchSpace last engine).run ws =
        some ((searchSpace.length, next), searched)) :
      SearchRound cfg tools args searchSpace rounds last found engine ws
        ((found, next), searched)
  | enough {hit : Nat} {next : SearchEngine ω} {searched : Workspace ω}
      (hlast : last < searchSpace.length)
      (hfind : (findNext cfg tools searchSpace last engine).run ws =
        some ((hit, next), searched))
      (hhit : hit ≠ searchSpace.length) (henough : foundEnough cfg found.length = true) :
      SearchRound cfg tools args searchSpace rounds last found engine ws
        ((found, next), searched)
  | single {hit : Nat} {next : SearchEngine ω} {patch : Patch}
      {searched validated : Workspace ω} (hlast : last < searchSpace.length)
      (hfind : (findNext cfg tools searchSpace last engine).run ws =
        some ((hit, next), searched))
      (hpatch : searchSpace[hit]? = some patch)
      (henough : foundEnough cfg found.length = false) (hmode : cfg.generateAll = false)
      (hvalid : (validInSearch cfg tools args patch).run searched = some (true, validated)) :
      SearchRound cfg tools args searchSpace rounds last found engine ws
        ((found ++ [patch], next), validated)
  | next {hit : Nat} {next : SearchEngine ω} {patch : Patch} {searched : Workspace ω}
      {result : (List Patch × SearchEngine ω) × Workspace ω}
      (hlast : last < searchSpace.length)
      (hfind : (findNext cfg tools searchSpace last engine).run ws =
        some ((hit, next), searched))
      (hpatch : searchSpace[hit]? = some patch)
      (henough : foundEnough cfg found.length = false) (hmode : cfg.generateAll = true)
      (hrest : (searchLoop cfg tools args searchSpace rounds (hit + 1) (found ++ [patch])
        next).run searched = some result) :
      SearchRound cfg tools args searchSpace rounds last found engine ws result

theorem searchLoop_round {result : (List Patch × SearchEngine ω) × Workspace ω}
    (h : (searchLoop cfg tools args searchSpace (rounds + 1) last found engine).run ws =
      some result) :
    SearchRound cfg tools args searchSpace rounds last found engine ws result := by
  obtain ⟨⟨found', engine'⟩, after⟩ := result
  rw [searchLoop] at h
  by_cases hlast : last < searchSpace.length
  · rw [if_pos hlast] at h
    obtain ⟨⟨hit, next⟩, searched, hfind, h⟩ := run_bind_eq_some.mp h
    dsimp only at h
    by_cases hend : hit = searchSpace.length
    · rw [if_pos hend] at h
      obtain ⟨heq, rfl⟩ := run_pure_eq_some.mp h
      obtain ⟨rfl, rfl⟩ := Prod.mk.inj heq
      exact .missed hlast (hend ▸ hfind)
    · rw [if_neg hend] at h
      cases henough : foundEnough cfg found.length with
      | true =>
          rw [henough, if_pos rfl] at h
          obtain ⟨heq, rfl⟩ := run_pure_eq_some.mp h
          obtain ⟨rfl, rfl⟩ := Prod.mk.inj heq
          exact .enough hlast hfind hend henough
      | false =>
          rw [henough, if_neg Bool.false_ne_true] at h
          obtain ⟨patch, hpatch, h⟩ := run_lift_bind_eq_some.mp h
          cases hmode : cfg.generateAll with
          | true =>
              rw [hmode, if_neg (by simp)] at h
              exact .next hlast hfind hpatch henough hmode h
          | false =>
              rw [hmode, if_pos (by simp)] at h
              obtain ⟨valid, validated, hvalid, h⟩ := run_bind_eq_some.mp h
              obtain rfl := validInSearch_true hvalid
              rw [if_pos rfl] at h
              obtain ⟨heq, rfl⟩ := run_pure_eq_some.mp h
              obtain ⟨rfl, rfl⟩ := Prod.mk.inj heq
              exact .single hlast hfind hpatch henough hmode hvalid
  · rw [if_neg hlast] at h
    obtain ⟨heq, rfl⟩ := run_pure_eq_some.mp h
    obtain ⟨rfl, rfl⟩ := Prod.mk.inj heq
    exact .finished (Nat.le_of_not_lt hlast)

end Runs

/-! ## Programs that write no source files -/

section Programs

variable {ω : Type} (tools : Toolchain ω)

theorem runProgram_keeps {α : Type} {inv : Workspace ω → Prop}
    (hinv : ∀ ws world, inv ws → inv { ws with world := world }) (program : ω → α × ω) :
    Keeps inv (runProgram program) :=
  .modifyGet fun ws h => hinv ws _ h

theorem buildInEnvironment_keeps {inv : Workspace ω → Prop}
    (hinv : ∀ ws world, inv ws → inv { ws with world := world })
    (environment : List (String × String)) (baseCmd : String) :
    Keeps inv (buildInEnvironment tools environment baseCmd) :=
  .modifyGet fun ws h => hinv ws _ h

theorem failingTests_keeps {inv : Workspace ω → Prop}
    (hinv : ∀ ws world, inv ws → inv { ws with world := world }) (tests : List String) :
    Keeps inv (failingTests tools tests) := by
  induction tests with
  | nil => exact .pure fun _ h => h
  | cons test tests ih =>
      rw [failingTests]
      exact (runProgram_keeps hinv _).bind fun _ => ih.bind fun _ => .pure fun _ h => h

end Programs

/-! ## A project with one candidate -/

def onePatchConfig : Config :=
  { Config.default with
    maxExpressionParameter := 0
    expressionBound := by decide }

def onePatchApplication : ApplicationJson where
  appId := 0
  schema := "expression"
  location := ⟨0, 3, 5, 3, 9⟩
  context := "unknown"
  expression := .leaf "variable" "integer" "int" "x"
  components := []

/-- The test fails unless the first candidate is evaluated. -/
def onePatchTools : Toolchain Unit where
  execute := fun environment _ world =>
    (if environment.lookup "F1X_ID_BASE" = some "1" then .pass else .fail, world)
  setPartition := fun _ world => world
  getPartition := fun _ => ∅
  extractAndSaveCoverage := fun _ _ _ => ∅
  transform := fun command disk world =>
    match command with
    | .instrument file _ _ _ =>
        (true, Function.update disk file.relpath (some "instrumented
"), world)
    | .apply relpath _ =>
        (true, Function.update disk relpath (some ("return " ++ placeholder ++ ";
")), world)
  patch := fun template disk world =>
    (true, Function.update disk template.relpath template.patched, world)
  build := fun _ _ _ world => (true, world)
  reusableCompilationDatabaseExists := fun _ => true
  compileCommandsExist := fun _ => true
  projectFilesInCompileDB := fun _ _ => true
  adjustCompileDB := id
  filesFromCompilationDB := fun _ => ["main.c"]
  localize := fun _ allFiles world => (allFiles, world)
  driverIsOK := fun _ => true
  compileProfiler := fun world => (true, world)
  clearTrace := id
  readTrace := fun _ => [⟨0, 3, 5, 3, 9⟩]
  deleteCoverageFiles := id
  fileExists := fun _ _ => true
  readApplications := fun _ _ => [onePatchApplication]
  compileRuntime := fun _ world => (true, world)

def onePatchArguments : Arguments := ⟨["n1"], "make", "f1x.patch", "/tmp/f1x"⟩

def onePatchWorkspace : Workspace Unit where
  disk := fun path => if path = "main.c" then some "return x;
" else none
  saved := fun _ => none
  templates := fun _ => none
  files := []
  world := ()
  calls := []

end F1X.Repair
