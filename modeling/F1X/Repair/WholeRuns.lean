import F1X.Repair.PatchTemplates
import F1X.Repair.RuntimeSearch

/-!
# What a whole run reports

The commands of a whole run refine `repair` over the search space: without
validation the project, its files and the builds do not change what is found.
So what `main` returns are the cheapest patches of the search space that was
generated in the run, for the tests that were profiled in it.
-/

namespace F1X.Repair

open Library Project generator

/-! ## The search loop -/

section Search

variable {ω : Type} {cfg : Config} {tools : Toolchain ω} {args : Arguments}
  {searchSpace found reported : List Patch} {engine final : SearchEngine ω}
  {ws after : Workspace ω}

theorem findNext_engine {last hit : Nat} {next : SearchEngine ω}
    (hworld : engine.world = ws.world)
    (h : (findNext cfg tools searchSpace last engine).run ws = some ((hit, next), after)) :
    engineFindNext cfg tools.toTestHarness searchSpace last engine = some (hit, next) ∧
      next.world = after.world := by
  rw [findNext, run_get_bind] at h
  obtain ⟨⟨found, later⟩, hfind, h⟩ := run_lift_bind_eq_some.mp h
  rw [run_modify_bind] at h
  obtain ⟨heq, rfl⟩ := run_pure_eq_some.mp h
  cases heq
  rw [← hworld] at hfind
  exact ⟨hfind, rfl⟩

private theorem searchLoop_plausibleLoop {rounds last : Nat} (hworld : engine.world = ws.world)
    (h : (searchLoop cfg tools args searchSpace rounds last found engine).run ws =
      some ((reported, final), after)) :
    plausibleLoop cfg (engineFindNext cfg tools.toTestHarness) searchSpace rounds last found
      engine = some reported := by
  induction rounds generalizing last found engine ws with
  | zero => cases h
  | succ rounds ih =>
      rw [plausibleLoop]
      cases searchLoop_round h with
      | finished hlast => rw [if_neg (Nat.not_lt.mpr hlast)]
      | missed hlast hfind =>
          rw [if_pos hlast, (findNext_engine hworld hfind).1]
          exact if_pos rfl
      | enough hlast hfind hhit henough =>
          rw [if_pos hlast, (findNext_engine hworld hfind).1]
          exact (if_neg hhit).trans (if_pos henough)
      | single hlast hfind hpatch henough hmode _ =>
          have hhit := Nat.ne_of_lt (List.getElem?_eq_some_iff.mp hpatch).1
          rw [if_pos hlast, (findNext_engine hworld hfind).1]
          refine (if_neg hhit).trans ?_
          simp [henough, hpatch, hmode]
      | next hlast hfind hpatch henough hmode hrest =>
          have hhit := Nat.ne_of_lt (List.getElem?_eq_some_iff.mp hpatch).1
          obtain ⟨hfound, hnext⟩ := findNext_engine hworld hfind
          have hrest := ih hnext hrest
          rw [if_pos hlast, hfound]
          refine (if_neg hhit).trans ?_
          simpa [henough, hpatch, hmode] using hrest

/-- The commands of the search refine `repair`. -/
theorem searchAndReport_repair {testerFiles : List ProjectFile}
    {table : Location → Option (List Nat)} {result : RepairResult}
    (hvalidate : cfg.validatePatches = false) (validate : Patch → Bool)
    (h : (searchAndReport cfg tools args testerFiles
      (prioritize searchSpace (patchCost searchSpace)) table).run ws = some (result, after)) :
    F1X.repair cfg (engineFindNext cfg tools.toTestHarness) validate
      (fun sorted => .create args.tests (getPartitionable sorted) table ws.world)
      args.patchOutput searchSpace = some result := by
  obtain ⟨⟨chosen, engine⟩, searched, hsearch, h⟩ := run_bind_eq_some.mp h
  obtain ⟨_, _, -, h⟩ := run_bind_eq_some.mp h
  obtain ⟨_, _, -, h⟩ := run_bind_eq_some.mp h
  obtain ⟨_, _, -, h⟩ := run_bind_eq_some.mp h
  obtain ⟨rfl, -⟩ := run_pure_eq_some.mp h
  rw [searchPatches, run_get_bind] at hsearch
  obtain ⟨⟨found, engine'⟩, looped, hloop, hsearch⟩ := run_bind_eq_some.mp hsearch
  obtain ⟨reported, validated, hreported, hsearch⟩ := run_bind_eq_some.mp hsearch
  obtain ⟨heq, -⟩ := run_pure_eq_some.mp hsearch
  obtain ⟨rfl, rfl⟩ := Prod.mk.inj heq
  rw [validateFound, hvalidate, Bool.false_and, if_neg Bool.false_ne_true] at hreported
  obtain ⟨rfl, -⟩ := run_pure_eq_some.mp hreported
  have hfound := searchLoop_plausibleLoop rfl hloop
  rw [F1X.repair, hfound, hvalidate]
  rfl

end Search

/-! ## The tests of a run -/

section Profile

variable {ω : Type} {tools : Toolchain ω}

private theorem profile_profileTests {index numNegative total : Nat} {tests : List String}
    {profiler final : Profiler} {ws after : Workspace ω}
    (h : (profile tools index tests profiler numNegative).run ws =
      some ((final, total), after)) :
    ∃ profiled : List ProfiledTest, profiled.length = tests.length ∧
      final = (profiled.zipIdx index).foldl
        (fun profiler entry => profiler.mergeTrace entry.2 entry.1.isPassing entry.1.trace)
        profiler ∧
      total = numNegative + profiled.countP (!·.isPassing) := by
  induction tests generalizing index profiler numNegative ws with
  | nil =>
      obtain ⟨heq, -⟩ := run_pure_eq_some.mp h
      obtain ⟨rfl, rfl⟩ := Prod.mk.inj heq
      exact ⟨[], rfl, rfl, rfl⟩
  | cons test tests ih =>
      obtain ⟨_, cleared, -, h⟩ := run_bind_eq_some.mp h
      obtain ⟨status, executed, -, h⟩ := run_bind_eq_some.mp h
      rw [run_get_bind] at h
      obtain ⟨profiled, hlength, rfl, rfl⟩ := ih h
      refine ⟨⟨tools.readTrace executed.world, status⟩ :: profiled, by simp [hlength], rfl, ?_⟩
      rw [List.countP_cons]
      by_cases hpass : status = .pass
      · simp [ProfiledTest.isPassing, hpass]
      · simp [ProfiledTest.isPassing, hpass]
        omega

private theorem relatedTestIndexes_lt (profiled : List ProfiledTest) (location : Location) :
    ∀ i ∈ ((profileTests profiled).getProfile.relatedTestIndexes location).getD [],
      i < profiled.length := by
  intro i hi
  rw [Profiler.getProfile] at hi
  dsimp only at hi
  split_ifs at hi with hinteresting
  · cases hlist : (profileTests profiled).relatedTestIndexes location with
    | none => simp [hlist] at hi
    | some list =>
        rw [hlist, Option.getD_some] at hi
        obtain ⟨test, htest, -⟩ := (profileTests_tabulated profiled).sound location list hlist i hi
        exact (List.getElem?_eq_some_iff.mp htest).1
  · cases hi

end Profile

/-! ## Outcomes -/

section Outcomes

variable {ω : Type} (cfg : Config) (tools : Toolchain ω) (args : Arguments) (fuel : Nat)

/-- What was profiled and generated in a run that got to the search, and what it returned. -/
structure CompletedSearch (profiled : List ProfiledTest) (sas : List SchemaApplication)
    (codes : List DispatchCode) (searchSpace : List Patch) (result : RepairResult) : Prop where
  length_eq : profiled.length = args.tests.length
  failing : ∃ test ∈ profiled, test.status ≠ .pass
  generated : Generated tools args cfg fuel sas codes searchSpace
  returned : ∃ world, ∀ validate : Patch → Bool,
    F1X.repair cfg (engineFindNext cfg tools.toTestHarness) validate
      (fun sorted => .create args.tests (getPartitionable sorted)
        (profileTests profiled).getProfile.relatedTestIndexes world)
      args.patchOutput searchSpace = some result

def Ended (result : RepairResult) : Prop :=
  (∃ status, result = stopped status) ∨
    ∃ profiled sas codes searchSpace,
      CompletedSearch cfg tools args fuel profiled sas codes searchSpace result

variable {cfg} (hvalidate : cfg.validatePatches = false)
include hvalidate

private theorem repairLocations_ended (testerFiles : List ProjectFile)
    (profiled : List ProfiledTest) (hlength : profiled.length = args.tests.length)
    (hfailing : ∃ test ∈ profiled, test.status ≠ .pass) (pre : Workspace ω → Prop) :
    Ensures pre (repairLocations cfg tools args fuel testerFiles (profileTests profiled))
      fun result _ => Ended cfg tools args fuel result := by
  refine .any_bind fun _ => .read_bind fun ws _ => .any_bind fun extracted => ?_
  refine .ite (fun _ => ?_) fun _ => .pure fun _ _ => .inl ⟨_, rfl⟩
  refine (generatePatches_generated tools args cfg fuel _).bind fun generated => ?_
  cases generated with
  | none => exact .pure fun _ _ => .inl ⟨_, rfl⟩
  | some searchSpace =>
      intro ws h result after hrun
      obtain ⟨sas, codes, hgenerated⟩ := h searchSpace rfl
      exact .inr ⟨profiled, sas, codes, searchSpace, hlength, hfailing, hgenerated, ws.world,
        fun validate => searchAndReport_repair hvalidate validate hrun⟩

private theorem repair_ended (testerFiles : List ProjectFile) (pre : Workspace ω → Prop) :
    Ensures pre (repair cfg tools args fuel testerFiles)
      fun result _ => Ended cfg tools args fuel result := by
  refine .any_bind fun ⟨compiled, inferred⟩ => .read_bind fun ws _ => ?_
  refine .ite (fun _ => ?_) fun _ => .pure fun _ _ => .inl ⟨_, rfl⟩
  refine .any_bind fun localized => ?_
  refine .ite (fun _ => ?_) fun _ => .pure fun _ _ => .inl ⟨_, rfl⟩
  refine .any_bind fun built => ?_
  refine .ite (fun _ => ?_) fun _ => .pure fun _ _ => .inl ⟨_, rfl⟩
  intro ws _ result after hrun
  obtain ⟨⟨profiler, numNegative⟩, profiledAt, hprofile, hrun⟩ := run_bind_eq_some.mp hrun
  obtain ⟨profiled, hlength, rfl, rfl⟩ := profile_profileTests hprofile
  dsimp only at hrun
  split_ifs at hrun with hnegative
  · obtain ⟨rfl, -⟩ := run_pure_eq_some.mp hrun
    exact .inl ⟨_, rfl⟩
  · have hfailing : ∃ test ∈ profiled, test.status ≠ .pass := by
      rw [Nat.zero_add, ← ne_eq, ← Nat.pos_iff_ne_zero, List.countP_pos_iff] at hnegative
      simpa [ProfiledTest.isPassing] using hnegative
    exact repairLocations_ended tools args fuel hvalidate testerFiles profiled hlength hfailing
      (fun _ => True) profiledAt trivial result after hrun

private theorem main_ended (sources : List ProjectFile) (pre : Workspace ω → Prop) :
    Ensures pre (main cfg tools args fuel sources)
      fun result _ => Ended cfg tools args fuel result := by
  refine .any_bind fun _ => ?_
  refine (repair_ended tools args fuel hvalidate sources _).bind fun result => ?_
  refine Ensures.bind (fun _ h _ _ _ => h) fun _ => ?_
  exact Ensures.bind (fun _ h _ _ _ => h) fun _ => .pure fun _ h => h

end Outcomes

/-! ## The reported patches -/

/--
The tests run over the analysis runtime of the search space, in mathematical
integers; `passes` says which patches pass their related tests when they are
compiled into the program.
-/
structure TestsPatches {ω : Type} (cfg : Config) (fuel : Nat) (sas : List SchemaApplication)
    (codes : List DispatchCode) (searchSpace : List Patch) (harness : TestHarness ω)
    (tests : List String) (table : Location → Option (List Nat))
    (literal : String → String → Int) (tested : AppID → String → InstrumentedTest Int)
    (memory : ω → PartitionMemory) (status : PatchID → String → TestStatus)
    (passes : Patch → Bool) : Prop where
  literal_toString : ∀ n : Nat, literal "int" (toString n) = n
  deployed : Deployed cfg fuel sas codes searchSpace
  hosts : Hosts cfg.valueTEQ (integers literal) (sas.zip codes) tested harness memory
  calm : NeverHoistsFault (integers literal) (sas.zip codes) tested searchSpace
  patched : Patched (integers literal) tested searchSpace status
  passes_iff : ∀ patch, passes patch = true ↔
    Plausible tests (fun location => (table location).getD []) status patch

def constantApplication : ApplicationJson :=
  { onePatchApplication with expression := .leaf "constant" "integer" "int" "1" }

noncomputable def runtimeHarness : TestHarness PartitionMemory where
  execute entries _ before := (if (loadRuntime entries).isSome then .pass else .fail, before)
  setPartition ids before := (F1X.setPartition ids.toList before).getD before
  getPartition memory := (F1X.getPartition memory).getD ∅
  extractAndSaveCoverage _ _ _ := ∅

noncomputable def runtimeTools : Toolchain PartitionMemory where
  toTestHarness := runtimeHarness
  transform := fun _ disk world => (true, disk, world)
  patch := fun _ disk world => (true, disk, world)
  build := fun _ _ _ world => (true, world)
  reusableCompilationDatabaseExists := fun _ => true
  compileCommandsExist := fun _ => true
  projectFilesInCompileDB := fun _ _ => true
  adjustCompileDB := id
  filesFromCompilationDB := fun _ => ["main.c"]
  localize := fun _ allFiles world => (allFiles, world)
  driverIsOK := fun _ => true
  compileProfiler := fun world => (true, world)
  clearTrace := id
  readTrace := fun _ => [⟨0, 3, 5, 3, 9⟩]
  deleteCoverageFiles := id
  fileExists := fun _ _ => true
  readApplications := fun file _ =>
    if file = saFile onePatchArguments 0 then [constantApplication] else []
  compileRuntime := fun _ world => (true, world)

def runtimeConfig : Config := { onePatchConfig with valueTEQ := false }

def runtimeWorkspace : Workspace PartitionMemory where
  disk := fun path => if path = "main.c" then some "return 1;\n" else none
  saved := fun _ => none
  templates := fun _ => none
  files := []
  world := fun _ => outputTerminator
  calls := []

def constantSchemaApplication : SchemaApplication where
  id := 0
  schema := .expression
  location := ⟨0, 3, 5, 3, 9⟩
  context := .unknown
  original := ⟨.constant, .integer, .none, "int", "1", []⟩
  components := []
  completePointeeTypes := []

private theorem constant_abstractFree : constantSchemaApplication.AbstractFree :=
  ⟨rfl, fun _ h => absurd h List.not_mem_nil⟩

private theorem constant_scoped : constantSchemaApplication.Scoped where
  original := .constant _ _ _
  components _ h := absurd h List.not_mem_nil
  builtin _ h := absurd h List.not_mem_nil
  pointees _ h := absurd h List.not_mem_nil

private theorem saFile_injective {args : Arguments} {i j : Nat}
    (h : saFile args i = saFile args j) :
    i = j := by
  have hlist := congrArg String.toList h
  simp only [saFile, String.toList_append, List.append_assoc, List.append_cancel_left_eq,
    List.append_cancel_right_eq] at hlist
  exact toString_injective (String.toList_injective hlist)

private theorem mapM_loadSAFile_nil (n : Nat) :
    (List.replicate n []).mapM loadSAFile = .ok (List.replicate n []) := by
  induction n with
  | zero => rfl
  | succ n ih =>
      rw [List.replicate_succ, List.mapM_cons, ih]
      rfl

private theorem load_constant :
    loadSAFile [constantApplication] = .ok [constantSchemaApplication] := by
  have hcheck : ((loadSAFile [constantApplication]).toOption.any fun sas =>
      sas = [constantSchemaApplication]) = true := by
    decide +kernel
  obtain ⟨sas, hsas, heq⟩ := eq_ok_of_any hcheck
  rw [hsas, of_decide_eq_true heq]

private theorem loaded_constant {count : Nat} {world : PartitionMemory}
    {loaded : List SchemaApplication}
    (h : loadSchemaApplications ((List.range count).map fun index =>
      runtimeTools.readApplications (saFile onePatchArguments index) world) = .ok loaded) :
    loaded = [] ∨ loaded = [constantSchemaApplication] := by
  cases count with
  | zero => exact .inl (Except.ok.inj h).symm
  | succ count =>
      refine .inr ?_
      have hrest : (List.range count).map ((fun index =>
          runtimeTools.readApplications (saFile onePatchArguments index) world) ∘ Nat.succ) =
            List.replicate count [] := by
        refine List.eq_replicate_iff.mpr ⟨by simp, fun apps happs => ?_⟩
        obtain ⟨index, -, rfl⟩ := List.mem_map.mp happs
        exact if_neg fun heq => absurd (saFile_injective heq) (Nat.succ_ne_zero index)
      have hfirst : runtimeTools.readApplications (saFile onePatchArguments 0) world =
          [constantApplication] := by
        simp [runtimeTools]
      rw [List.range_succ_eq_map, List.map_cons, List.map_map, hrest, hfirst,
        loadSchemaApplications, List.mapM_cons, mapM_loadSAFile_nil, load_constant] at h
      have h := (Except.ok.inj h).symm
      simpa using h

private theorem generated_constant {sas : List SchemaApplication} {codes : List DispatchCode}
    {searchSpace : List Patch}
    (h : Generated runtimeTools onePatchArguments runtimeConfig 100 sas codes searchSpace) :
    searchSpace = [] ∨ sas = [constantSchemaApplication] ∧
      searchSpace.all unsignedPatch = true ∧ searchSpace.length = 1 := by
  obtain ⟨count, world, loaded, hload, hinfer, hgenerate⟩ := h
  rcases loaded_constant hload with rfl | rfl
  · obtain rfl := Except.ok.inj hinfer
    obtain ⟨rfl, rfl⟩ := Prod.mk.inj (Except.ok.inj hgenerate)
    exact .inl rfl
  · have hcheck : ((inferTypes [constantSchemaApplication]).toOption.any fun sas =>
        sas = [constantSchemaApplication] &&
          (generateSearchSpace runtimeConfig 100 sas).toOption.any
            fun result => result.2.all unsignedPatch && result.2.length = 1) = true := by
      decide +kernel
    obtain ⟨inferred, hinferred, hfound⟩ := eq_ok_of_any hcheck
    obtain rfl := Except.ok.inj (hinferred.symm.trans hinfer)
    obtain ⟨hsas, hfound⟩ := Bool.and_eq_true_iff.mp hfound
    obtain ⟨result, hresult, hfound⟩ := eq_ok_of_any hfound
    obtain rfl := Except.ok.inj (hresult.symm.trans hgenerate)
    obtain ⟨hunsigned, hlength⟩ := Bool.and_eq_true_iff.mp hfound
    exact .inr ⟨of_decide_eq_true hsas, hunsigned, of_decide_eq_true hlength⟩

def passingTest : InstrumentedTest Int where
  State := Unit
  next _ := .finished .pass
  start := ()

private theorem runtimeHarness_hosts (functions : List (SchemaApplication × DispatchCode)) :
    Hosts false (integers decimal) functions (fun _ _ => passingTest) runtimeHarness id where
  setPartition ids world hsize := by
    rw [← Finset.length_toList] at hsize
    have hset := setPartition_eq ids.toList world hsize
    exact ⟨ids.toList, ids.nodup_toList, ids.toList_toFinset, by simp [runtimeHarness, hset]⟩
  getPartition world partition h := by
    rw [id_eq] at h
    simp [runtimeHarness, h]
  execute function hfunction entries test world patchId hload hrun := by
    refine ⟨[], ?_⟩
    simp only [runtimeHarness, hload, Option.isSome_some, if_true]
    exact .finished rfl

end F1X.Repair
