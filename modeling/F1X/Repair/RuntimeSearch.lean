import F1X.Repair.HostedTests
import F1X.Repair.Repair

/-!
# The search over the generated runtime

Synthesis, the generated functions, the shared buffer, the memoised search and
the report together.  Which patches are found does not depend on the
configuration that the runtime is generated for, and in mathematical integers
the reported ones are the cheapest that repair the program when they are
compiled into it.
-/

namespace F1X

open Library generator synthesis

section Search

variable {V : Type} [DecidableEq V] [Zero V] {machine : CMachine V} {genCfg : Config}
  {fuel : Nat} {sas : List SchemaApplication} {codes : List DispatchCode}
  {searchSpace : List Patch} {tested : AppID → String → InstrumentedTest V}
  {status : PatchID → String → TestStatus}

/--
Every sequence of calls finds the patches that pass when they are run alone,
whether the runtime compares the candidates of an application or not.
-/
theorem findNexts_hosted (deployed : Deployed genCfg fuel sas codes searchSpace)
    (htrap : NeverTraps machine (sas.zip codes) tested searchSpace)
    (halone : RunAlone machine (sas.zip codes) tested searchSpace status)
    (tests : List String) (table : Location → Option (List Nat))
    (hindexes : ∀ location, ∀ i ∈ (table location).getD [], i < tests.length)
    (starts : List Nat) (hstarts : ∀ start ∈ starts, start ≤ searchSpace.length) :
    ∃ hits,
      List.Forall₂
        (IsNext (Plausible tests (fun location => (table location).getD []) status)
          searchSpace) starts hits ∧
      ∀ (cfg : Config) (ω : Type) (harness : TestHarness ω) (memory : ω → PartitionMemory)
        (world : ω),
        Hosts cfg.valueTEQ machine (sas.zip codes) tested harness memory →
        ((SearchEngine.create tests (getPartitionable searchSpace) table world).findNexts
          cfg harness searchSpace starts).map Prod.fst = some hits := by
  obtain ⟨hits, hhits⟩ := IsNext.total_all hstarts
  refine ⟨hits, hhits, fun cfg ω harness memory world hosts => ?_⟩
  obtain ⟨found, after, hrun, hfound⟩ := SearchEngine.findNexts_prepared cfg deployed.patchIds
    (fun _ hp _ hq => deployed.locations hp hq) hindexes
    (hosts.faithfulUnder deployed htrap halone) starts _
    (SearchEngine.create_consistent table world) hstarts
  have heq : found = hits :=
    List.right_unique_forall₂' (fun _ _ _ hi hj => hi.unique hj) hfound hhits
  rw [hrun, heq]
  rfl

end Search

/-! ## The patched program -/

def patchedOutcome {V : Type*} (machine : CMachine V) (modified : Expression)
    (valuation : Valuation V) : Outcome V :=
  match evaluate machine valuation modified with
  | some (value, _) => .value value
  | none => .panic

/-- The status of each test of the patched program. -/
def Patched {V : Type} (machine : CMachine V) (tested : AppID → String → InstrumentedTest V)
    (searchSpace : List Patch) (status : PatchID → String → TestStatus) : Prop :=
  ∀ patch ∈ searchSpace, ∀ test, ∃ trace,
    Library.Answered (tested patch.app.id test).next (patchedOutcome machine patch.modified)
      (tested patch.app.id test).start trace (status patch.id test)

def firstBase (code : DispatchCode) : Nat :=
  (code.baseCases.head?.map Prod.fst).getD 0

/-- Where a test evaluates a candidate, the candidate skips no condition that faults. -/
def NeverHoistsFault (machine : CMachine Int)
    (functions : List (SchemaApplication × DispatchCode))
    (tested : AppID → String → InstrumentedTest Int) (searchSpace : List Patch) : Prop :=
  ∀ function ∈ functions, ∀ conditions modifications,
    bool2Expressions function.1.components = .ok conditions →
    baseModifications function.1.schema function.1.original function.1.components =
      .ok modifications →
    ∀ test valuation, Asked (tested function.1.id test).next valuation →
      ∀ patch ∈ searchSpace, patch.app = function.1 →
        ¬HoistedFault machine valuation conditions modifications (firstBase function.2)
          patch.id

section Patched

variable {literal : String → String → Int}
  (hliteral : ∀ n : Nat, literal "int" (toString n) = n)
  {sa : SchemaApplication} (hfree : sa.AbstractFree) (hscoped : sa.Scoped)
  {conditions : List Expression} {modifications : List Modification}
  (hconditions : bool2Expressions sa.components = .ok conditions)
  (hmodifications : baseModifications sa.schema sa.original sa.components =
    .ok modifications)
  {cfg : Config} {fuel baseId next : Nat} {ss patches : List Patch} {code : DispatchCode}
  (h : candidateDispatch cfg fuel sa baseId ss = .ok (code, next, ss ++ patches))
  {patch : Patch} (hpatch : patch ∈ patches)

include hfree hmodifications h hpatch in
private theorem firstBase_dispatch : firstBase code = baseId := by
  obtain ⟨conditions', modifications', hconditions', hmodifications', hcode, -, hpatches⟩ :=
    candidateDispatch_inv hfree h
  cases hmodifications.symm.trans hmodifications'
  rw [List.append_cancel_left_eq] at hpatches
  obtain ⟨-, j, hj, -⟩ := mem_basePatches.mp (hpatches ▸ hpatch)
  have hcases := congrArg List.head? (emittedCode_cases hcode)
  rw [List.head?_map, List.head?_range', if_neg (by omega)] at hcases
  rw [firstBase, hcases, Option.getD_some]

include hliteral hfree hscoped hconditions hmodifications h hpatch in
private theorem answer_eq_patched {valuation : Valuation Int}
    (hcalm : ¬HoistedFault (integers literal) valuation conditions modifications baseId
      patch.id) :
    answer (integers literal) sa code patch.id valuation =
      patchedOutcome (integers literal) patch.modified valuation := by
  obtain ⟨names, m, hnaming, hm, hdecodes, hruns⟩ :=
    candidateDispatch_runs hfree hscoped hconditions hmodifications h hpatch
  have hzero : literal "int" "0" = 0 := hliteral 0
  have hlaw := integers_lawful hzero
  have htotal := fun _ : True => integers_total hzero
  have hvalue : evaluate (integers literal) valuation patch.modified =
      instanceResult (integers literal) valuation ((integers literal).param patch.id.param)
        conditions patch.id.bool2 m.1 := by
    rw [hdecodes.evaluate_patch hfree hscoped hconditions hmodifications _ _ hm]
    exact congrArg (instanceResult _ _ · _ _ _) (hliteral patch.id.param)
  have hguarded := run_guarded hlaw integers_boolean htotal valuation hscoped hnaming hruns
    ⟨0, 0, 0, false⟩
  rw [stored_integers] at hguarded
  have heager : eagerResult (integers literal) valuation
      ((integers literal).param patch.id.param) conditions patch.id.bool2 m.1 =
      evaluate (integers literal) valuation patch.modified := by
    rw [hvalue]
    by_cases hdefined : patch.id.bool2 = 0 ∨ conditionResult (integers literal) valuation
        ((integers literal).param patch.id.param) conditions patch.id.bool2 ≠ none
    · exact eagerResult_of_defined hlaw htotal valuation hscoped hnaming hruns hdefined
        ⟨0, 0, 0, false⟩
    -- the condition faults, so that the base modification must read it
    · obtain ⟨hbool2, hcondition⟩ := not_or.mp hdefined
      rw [not_not] at hcondition
      obtain ⟨i, hi⟩ := Nat.exists_eq_succ_of_ne_zero hbool2
      obtain ⟨condition, -, hget, -⟩ := hruns.condition i hi
      have hchosen : chosenCondition conditions patch.id.bool2 = some condition := by
        rw [hi, chosenCondition, hget]
      rw [eagerResult_of_undefined valuation hbool2 hcondition, instanceResult, hcondition]
      rw [conditionResult, hchosen] at hcondition
      by_contra hread
      exact hcalm ⟨condition, m, hchosen, hm, hcondition, Ne.symm hread⟩
  rw [heager] at hguarded
  rw [answer, patchedOutcome]
  cases hsource : evaluate (integers literal) valuation patch.modified with
  | none =>
      obtain ⟨value, htarget⟩ := hguarded.faults trivial hsource
      rw [htarget]
  | some pair =>
      obtain ⟨-, htarget⟩ := hguarded.eq_some hsource
      rw [htarget]

end Patched

section Deployed

variable {literal : String → String → Int}
  (hliteral : ∀ n : Nat, literal "int" (toString n) = n)
  {cfg : Config} {fuel : Nat} {sas : List SchemaApplication} {codes : List DispatchCode}
  {searchSpace : List Patch} (deployed : Deployed cfg fuel sas codes searchSpace)
  {tested : AppID → String → InstrumentedTest Int} {status : PatchID → String → TestStatus}

include hliteral deployed

theorem neverTraps_integers :
    NeverTraps (integers literal) (sas.zip codes) tested searchSpace := by
  intro function hfunction test valuation hasked patch hpatch happ
  have hsa := (List.of_mem_zip hfunction).1
  obtain ⟨-, part, ⟨baseId, next, ss, hdispatch⟩, hmem⟩ :=
    deployed.dispatched hfunction hpatch (congrArg (·.id) happ)
  obtain ⟨conditions, modifications, hconditions, hmodifications, -⟩ :=
    candidateDispatch_inv (deployed.abstractFree _ hsa) hdispatch
  obtain ⟨names, m, hnaming, -, -, hruns⟩ := candidateDispatch_runs
    (deployed.abstractFree _ hsa) (deployed.inScope _ hsa) hconditions hmodifications
    hdispatch hmem
  exact trapFree_integers (hliteral 0) (deployed.inScope _ hsa) hnaming hruns valuation

theorem answer_patched
    (hcalm : NeverHoistsFault (integers literal) (sas.zip codes) tested searchSpace)
    {function : SchemaApplication × DispatchCode} (hfunction : function ∈ sas.zip codes)
    {patch : Patch} (hpatch : patch ∈ searchSpace) (happ : patch.app = function.1)
    (test : String) {valuation : Valuation Int}
    (hasked : Asked (tested function.1.id test).next valuation) :
    answer (integers literal) function.1 function.2 patch.id valuation =
      patchedOutcome (integers literal) patch.modified valuation := by
  have hsa := (List.of_mem_zip hfunction).1
  obtain ⟨-, part, ⟨baseId, next, ss, hdispatch⟩, hmem⟩ :=
    deployed.dispatched hfunction hpatch (congrArg (·.id) happ)
  obtain ⟨conditions, modifications, hconditions, hmodifications, -⟩ :=
    candidateDispatch_inv (deployed.abstractFree _ hsa) hdispatch
  have hskips := hcalm function hfunction conditions modifications hconditions hmodifications
    test valuation hasked patch hpatch happ
  rw [firstBase_dispatch (deployed.abstractFree _ hsa) hmodifications hdispatch hmem] at hskips
  exact answer_eq_patched hliteral (deployed.abstractFree _ hsa) (deployed.inScope _ hsa)
    hconditions hmodifications hdispatch hmem hskips

private theorem runAlone_of_patched
    (hcalm : NeverHoistsFault (integers literal) (sas.zip codes) tested searchSpace)
    (hpatched : Patched (integers literal) tested searchSpace status) :
    RunAlone (integers literal) (sas.zip codes) tested searchSpace status := by
  intro function hfunction patch hpatch happ test
  obtain ⟨trace, hanswered⟩ := hpatched patch hpatch test
  rw [happ] at hanswered
  refine ⟨trace, hanswered.congr fun entry hentry => ?_⟩
  rw [answer_patched hliteral deployed hcalm hfunction hpatch happ test
    (hanswered.asked entry hentry)]
  exact (hanswered.answers entry hentry).symm

section Hosted

variable (hcalm : NeverHoistsFault (integers literal) (sas.zip codes) tested searchSpace)
  (hpatched : Patched (integers literal) tested searchSpace status) {tests : List String}
  {table : Location → Option (List Nat)}
  (hindexes : ∀ location, ∀ i ∈ (table location).getD [], i < tests.length)
  {passes : Patch → Bool}
  (hpasses : ∀ patch, passes patch = true ↔
    Plausible tests (fun location => (table location).getD []) status patch)
  {ω : Type} {harness : TestHarness ω} {memory : ω → PartitionMemory}
  (hosts : Hosts cfg.valueTEQ (integers literal) (sas.zip codes) tested harness memory)

include hliteral deployed hcalm hpatched hindexes hpasses hosts in
theorem findsNext_hosted :
    FindsNext (engineFindNext cfg harness) (prioritize searchSpace (patchCost searchSpace)) passes
      (SearchEngine.Consistent (prioritize searchSpace (patchCost searchSpace)) tests
        (fun location => (table location).getD []) status) :=
  engine_findsNext_prepared cfg deployed.patchIds
    (fun _ hp _ hq => deployed.locations hp hq) hindexes
    (hosts.faithfulUnder deployed (neverTraps_integers hliteral deployed)
      (runAlone_of_patched hliteral deployed hcalm hpatched))
    hpasses (prioritize_stableOrder deployed.patchIds).perm

end Hosted

/--
The reported patches are the cheapest of those that pass all related tests when
they are compiled into the program, although none of them is compiled while the
search runs.
-/
theorem repair_hosted
    (hcalm : NeverHoistsFault (integers literal) (sas.zip codes) tested searchSpace)
    (hpatched : Patched (integers literal) tested searchSpace status)
    (tests : List String) (table : Location → Option (List Nat))
    (hindexes : ∀ location, ∀ i ∈ (table location).getD [], i < tests.length)
    (passes : Patch → Bool)
    (hpasses : ∀ patch, passes patch = true ↔
      Plausible tests (fun location => (table location).getD []) status patch)
    {ω : Type} {harness : TestHarness ω} {memory : ω → PartitionMemory}
    (hosts : Hosts cfg.valueTEQ (integers literal) (sas.zip codes) tested harness memory)
    (validatePatch : Patch → Bool) (patchOutput : String) (world : ω)
    (hvalidate : cfg.validatePatches = false)
    (hsize : cfg.outputTop < 0 → searchSpace.length < 2 ^ 63) :
    ∃ result,
      repair cfg (engineFindNext cfg harness) validatePatch
          (fun sorted => .create tests (getPartitionable sorted) table world)
          patchOutput searchSpace = some result ∧
        ReportsCheapest cfg searchSpace passes result := by
  have hsorted := prioritize_stableOrder deployed.patchIds
  have hfind := findsNext_hosted hliteral deployed hcalm hpatched hindexes hpasses hosts
  exact ⟨_, repair_eq validatePatch patchOutput hvalidate hfind
      (SearchEngine.create_consistent table world),
    report_cheapest patchOutput (hsorted.filter passes) hsize⟩

end Deployed

/-! ## One evaluation with a valid pointer -/

def validPointer : Valuation Int where
  value _ := 1
  isNull _ := false
  sizeof _ := 4

/-- Reach the location once; the test fails on a panic and on 0. -/
def branchTest (valuation : Valuation Int) : InstrumentedTest Int where
  State := Option (Outcome Int)
  next
    | none => .asks valuation some
    | some outcome => .finished (if outcome = .panic ∨ outcome = .value 0 then .fail else .pass)
  start := none

def branchStatus (valuation : Valuation Int) (code : DispatchCode) (id : PatchID)
    (_ : String) : TestStatus :=
  if answer (integers decimal) generator.nullTest code id valuation = .panic ∨
      answer (integers decimal) generator.nullTest code id valuation = .value 0 then .fail
  else .pass

private theorem asked_branchTest {valuation asked : Valuation Int}
    (h : Asked (branchTest valuation).next asked) : asked = valuation := by
  obtain ⟨state, resume, hasks⟩ := h
  cases state with
  | some outcome => cases hasks
  | none =>
      cases hasks
      rfl

theorem runAlone_branchTest {code : DispatchCode} {searchSpace : List Patch}
    (valuation : Valuation Int) :
    RunAlone (integers decimal) [(generator.nullTest, code)] (fun _ _ => branchTest valuation)
      searchSpace (branchStatus valuation code) := by
  intro function hfunction patch hpatch happ test
  obtain rfl := List.mem_singleton.mp hfunction
  exact ⟨_, .asks (s := none) rfl (.finished rfl)⟩

def unsignedPatch (patch : Patch) : Bool :=
  patch.app.id < 2 ^ 64 && patch.id.base < 2 ^ 64 && patch.id.int2 < 2 ^ 64 &&
    patch.id.bool2 < 2 ^ 64 && patch.id.cond3 < 2 ^ 64 && patch.id.param < 2 ^ 64

theorem isUnsignedLong_of_check {patch : Patch} (h : unsignedPatch patch = true) :
    patch.IsUnsignedLong := by
  simp only [unsignedPatch, Bool.and_eq_true, decide_eq_true_eq] at h
  obtain ⟨⟨⟨⟨⟨happ, hbase⟩, hint2⟩, hbool2⟩, hcond3⟩, hparam⟩ := h
  exact ⟨happ, hbase, hint2, hbool2, hcond3, hparam⟩

def conditionsCalm (sa : SchemaApplication) (patch : Patch) : Bool :=
  match bool2Expressions sa.components with
  | .ok conditions => conditions.all fun condition =>
      (evaluateWith (integers decimal) validPointer
        (some ((integers decimal).param patch.id.param, false)) none condition).isSome
  | .error _ => false

theorem deployed_of_check {sa : SchemaApplication} (hfree : sa.AbstractFree) (hscoped : sa.Scoped)
    {check : Patch → Bool}
    (hcheck : (generateSearchSpace .default 18 [sa]).toOption.any (fun result =>
      result.1.length = 1 && 1 ≤ result.2.length && result.2.length < 1000 &&
        result.2.all fun patch => unsignedPatch patch && check patch) = true) :
    ∃ code searchSpace, Deployed .default 18 [sa] [code] searchSpace ∧
      1 ≤ searchSpace.length ∧ ∀ patch ∈ searchSpace, check patch = true := by
  obtain ⟨⟨codes, searchSpace⟩, hresult, hfound⟩ := eq_ok_of_any hcheck
  simp only [Bool.and_eq_true, decide_eq_true_eq, List.all_eq_true] at hfound
  obtain ⟨⟨⟨hlength, hsome⟩, hsmall⟩, hpatches⟩ := hfound
  obtain ⟨code, rfl⟩ := List.length_eq_one_iff.mp hlength
  refine ⟨code, searchSpace, ⟨by simpa using hfree, by simpa using hscoped, by simp, hresult,
    fun patch hpatch => isUnsignedLong_of_check (hpatches patch hpatch).1, fun app => ?_⟩,
    hsome, fun patch hpatch => (hpatches patch hpatch).2⟩
  have hcard := card_getPartitionable_le searchSpace app
  have hmax : maxPartitionSize = 1000000 := rfl
  omega

theorem nullTest_deployed :
    ∃ code searchSpace, Deployed .default 18 [generator.nullTest] [code] searchSpace ∧
      1 ≤ searchSpace.length ∧
        ∀ patch ∈ searchSpace, conditionsCalm generator.nullTest patch = true :=
  deployed_of_check nullTest_abstractFree nullTest_scoped (by decide +kernel)

theorem findNexts_hosted_nullTest :
    ∃ code searchSpace hits,
      List.Forall₂
        (IsNext (Plausible ["n1"] (fun _ => [0]) (branchStatus nullPointer code)) searchSpace)
        [0, 1] hits ∧
      ((SearchEngine.create ["n1"] (getPartitionable searchSpace) (fun _ => some [0])
        (fun _ => outputTerminator)).findNexts .default
          (bufferHarness true (integers decimal) [(generator.nullTest, code)]
            fun _ _ => branchTest nullPointer)
          searchSpace [0, 1]).map Prod.fst = some hits := by
  obtain ⟨code, searchSpace, deployed, hlength, -⟩ := nullTest_deployed
  have htrap : NeverTraps (integers decimal) [(generator.nullTest, code)]
      (fun _ _ => branchTest nullPointer) searchSpace :=
    neverTraps_integers decimal_toString deployed
  have hindexes : ∀ location : Location, ∀ i ∈ (some [0]).getD [], i < ["n1"].length :=
    fun _ => by decide
  obtain ⟨hits, hhits, hall⟩ := findNexts_hosted deployed htrap
    (runAlone_branchTest nullPointer) ["n1"] (fun _ => some [0]) hindexes [0, 1]
    (by simpa using hlength)
  exact ⟨code, searchSpace, hits, hhits, hall .default PartitionMemory _ id _
    (bufferHarness_hosts deployed true (integers decimal) _)⟩

theorem neverHoistsFault_validPointer {sa : SchemaApplication} {code : DispatchCode}
    {searchSpace : List Patch}
    (hcalm : ∀ patch ∈ searchSpace, conditionsCalm sa patch = true) :
    NeverHoistsFault (integers decimal) [(sa, code)]
      (fun _ _ => branchTest validPointer) searchSpace := by
  intro function hfunction conditions modifications hconditions hmodifications test valuation
    hasked patch hpatch happ
  obtain rfl := List.mem_singleton.mp hfunction
  rw [asked_branchTest hasked]
  rintro ⟨condition, m, hchosen, -, hfault, -⟩
  have hcheck := hcalm patch hpatch
  simp only [conditionsCalm, hconditions, List.all_eq_true] at hcheck
  have hmem : condition ∈ conditions := by
    unfold chosenCondition at hchosen
    split at hchosen
    · cases hchosen
    · exact List.mem_of_getElem? hchosen
  have hsome := hcheck condition hmem
  rw [hfault] at hsome
  cases hsome

private theorem patched_branchTest {code : DispatchCode} {searchSpace : List Patch}
    (deployed : Deployed .default 18 [generator.nullTest] [code] searchSpace)
    (hcalm : ∀ patch ∈ searchSpace, conditionsCalm generator.nullTest patch = true) :
    Patched (integers decimal) (fun _ _ => branchTest validPointer) searchSpace
      (branchStatus validPointer code) := by
  intro patch hpatch test
  obtain ⟨other, hfunction⟩ := deployed.function hpatch
  obtain ⟨happ, rfl⟩ : patch.app = generator.nullTest ∧ other = code := by
    simpa using hfunction
  have hanswer := answer_patched decimal_toString deployed
    (neverHoistsFault_validPointer hcalm) hfunction hpatch rfl
    test ⟨none, some, rfl⟩
  refine ⟨_, .asks (s := none) rfl (.finished ?_)⟩
  rw [branchStatus, ← happ, hanswer]
  rfl

theorem repair_hosted_nullTest :
    ∃ code searchSpace result,
      repair .default
          (engineFindNext .default (bufferHarness true (integers decimal)
            [(generator.nullTest, code)] fun _ _ => branchTest validPointer))
          (fun _ => true)
          (fun sorted => .create ["n1"] (getPartitionable sorted) (fun _ => some [0])
            fun _ => outputTerminator)
          "f1x.patch" searchSpace = some result ∧
        ReportsCheapest .default searchSpace
          (fun patch => branchStatus validPointer code patch.id "n1" = .pass) result := by
  obtain ⟨code, searchSpace, deployed, -, hcalm⟩ := nullTest_deployed
  obtain ⟨result, hresult⟩ := repair_hosted decimal_toString deployed
    (neverHoistsFault_validPointer hcalm) (patched_branchTest deployed hcalm)
    ["n1"] (fun _ => some [0]) (fun _ => by decide)
    (fun patch => branchStatus validPointer code patch.id "n1" = .pass)
    (fun patch => by simp [Plausible]) (bufferHarness_hosts deployed true (integers decimal) _)
    (fun _ => true) "f1x.patch" (fun _ => outputTerminator) rfl (fun h => absurd h (by decide))
  exact ⟨code, searchSpace, result, hresult⟩

end F1X
