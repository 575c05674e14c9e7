import F1X.Repair.PlainSearch
import F1X.Repair.ProfileText
import F1X.Semantics.TestEquivalence
import Mathlib.Data.Finset.Card

/-!
# Tests over the analysis runtime

What the test driver does when the library that `generateSearchSpace` emits is
loaded: the environment chooses the application and the id, and every evaluation
at the location is a call of the generated function over the shared buffer.  Such
a driver is faithful: a candidate has the status that its answers give, and what
is read from the buffer after a test are candidates with the same answers.
-/

namespace F1X

open Library generator ProfileText

/-! ## The environment of a test -/

/-- `strtoul` in base 10; a text without digits is 0. -/
def strtoul (str : String) : Nat :=
  match readUnsignedLong str.toList with
  | some (value, _) => value
  | none => 0

/-- The globals that `runtimeLoader` initializes; `none` for an unset variable. -/
def loadRuntime (entries : List (String × String)) : Option (AppID × PatchID) := do
  let app ← entries.lookup "F1X_APP"
  let base ← entries.lookup "F1X_ID_BASE"
  let int2 ← entries.lookup "F1X_ID_INT2"
  let bool2 ← entries.lookup "F1X_ID_BOOL2"
  let cond3 ← entries.lookup "F1X_ID_COND3"
  let param ← entries.lookup "F1X_ID_PARAM"
  some (strtoul app, ⟨strtoul base, strtoul int2, strtoul bool2, strtoul cond3, strtoul param⟩)

structure Patch.IsUnsignedLong (patch : Patch) : Prop where
  app : patch.app.id < 2 ^ 64
  base : patch.id.base < 2 ^ 64
  int2 : patch.id.int2 < 2 ^ 64
  bool2 : patch.id.bool2 < 2 ^ 64
  cond3 : patch.id.cond3 < 2 ^ 64
  param : patch.id.param < 2 ^ 64

theorem strtoul_toString {n : Nat} (hn : n < 2 ^ 64) : strtoul (toString n) = n := by
  have hread := @readUnsignedLong_toString n hn [] [] (by simp) (by simp)
  rw [List.nil_append, List.append_nil] at hread
  rw [strtoul, hread]

theorem loadRuntime_environment {elem : Patch} (h : elem.IsUnsignedLong) :
    loadRuntime (environment elem) = some (elem.app.id, elem.id) := by
  have hentries : loadRuntime (environment elem) =
      some (strtoul (toString elem.app.id),
        ⟨strtoul (toString elem.id.base), strtoul (toString elem.id.int2),
          strtoul (toString elem.id.bool2), strtoul (toString elem.id.cond3),
          strtoul (toString elem.id.param)⟩) := by
    simp [loadRuntime, environment, List.lookup_cons]
  rw [hentries, strtoul_toString h.app, strtoul_toString h.base, strtoul_toString h.int2,
    strtoul_toString h.bool2, strtoul_toString h.cond3, strtoul_toString h.param]

/-! ## Calls with test equivalence on or off -/

section Calls

variable {V : Type*} [DecidableEq V] [Zero V]

omit [Zero V] in
private theorem step_advance_off (dispatch : Dispatch V) {frame : Frame V}
    (point : frame.point = .advance) :
    step false dispatch frame = { frame with point := .leave } := by
  simp [step, point]

private theorem call_off {call : Call V} {current : PatchID} {memory : PartitionMemory}
    {locals : Locals V} (h : call.dispatch current call.uninitialized.calm = some locals) :
    (call.after false current memory 4).result = some locals.outcome ∧
      (call.after false current memory 4).memory = memory := by
  let entered := call.enter current memory
  have hlabel : step false call.dispatch entered =
      { entered with point := .compare, locals := locals } :=
    step_label_some false call.dispatch rfl h
  let compared : Frame V := { entered with point := .compare, locals := locals }
  have hcompare := step_compare_initial false call.dispatch (rfl : compared.point = .compare)
    rfl
  rw [Call.after, Function.iterate_succ_apply, hlabel, Function.iterate_succ_apply, hcompare,
    Function.iterate_succ_apply, step_advance_off call.dispatch rfl,
    Function.iterate_succ_apply, step_leave_eq false call.dispatch rfl]
  constructor
  · cases hpanic : locals.currentPanic <;> simp [compared, Frame.result, Locals.outcome, hpanic]
  · rfl

variable (machine : CMachine V)

/-- One complete call of the function that is emitted with `valueTEQ` on or off. -/
def EvaluatesUnder (valueTEQ : Bool) (sa : SchemaApplication) (code : DispatchCode)
    (current : PatchID) (memory : PartitionMemory) (valuation : Valuation V)
    (outcome : Outcome V) (later : PartitionMemory) : Prop :=
  ∃ (uninitialized : Locals V) (steps : Nat),
    (Call.after valueTEQ ⟨code.run machine valuation sa, uninitialized⟩ current memory
      steps).result = some outcome ∧
    (Call.after valueTEQ ⟨code.run machine valuation sa, uninitialized⟩ current memory
      steps).memory = later

variable {sa : SchemaApplication} {code : DispatchCode} {valuation : Valuation V}
  {id : PatchID} (hscoped : sa.Scoped) (hlocated : Located sa code id)
  (htrap : TrapFree machine sa code valuation id)

include hscoped hlocated htrap

theorem call_off_answer (uninitialized : Locals V) (memory : PartitionMemory) :
    (Call.after false ⟨code.run machine valuation sa, uninitialized⟩ id memory 4).result =
        some (answer machine sa code id valuation) ∧
      (Call.after false ⟨code.run machine valuation sa, uninitialized⟩ id memory 4).memory =
        memory := by
  obtain ⟨after, hafter, houtcome⟩ := answer_gives machine hscoped hlocated htrap
    (rfl : uninitialized.calm.currentPanic = false)
  rw [← houtcome]
  exact call_off hafter

private theorem evaluatesUnder_off {memory later : PartitionMemory} {outcome : Outcome V}
    (h : EvaluatesUnder machine false sa code id memory valuation outcome later) :
    outcome = answer machine sa code id valuation ∧ later = memory := by
  obtain ⟨uninitialized, steps, hresult, rfl⟩ := h
  obtain ⟨hanswer, hmemory⟩ :=
    call_off_answer machine hscoped hlocated htrap uninitialized memory
  have hlate := Call.after_finished hresult (Nat.le_max_left steps 4)
  rw [Call.after_finished hanswer (Nat.le_max_right steps 4)] at hlate
  rw [hlate] at hanswer hmemory
  exact ⟨Option.some.inj (hresult.symm.trans hanswer), hmemory⟩

private theorem evaluatesUnder_off_total (memory : PartitionMemory) :
    EvaluatesUnder machine false sa code id memory valuation
      (answer machine sa code id valuation) memory :=
  ⟨⟨0, 0, 0, false⟩, 4, call_off_answer machine hscoped hlocated htrap _ memory⟩

end Calls

/-! ## Executions -/

/-- One test with one application switched on; it asks at every evaluation there. -/
structure InstrumentedTest (V : Type) where
  State : Type
  next : State → Event State (Valuation V) (Outcome V) TestStatus
  start : State

section Hosting

variable {V : Type} [DecidableEq V] [Zero V] {ω : Type}

def InstrumentedTest.Served (test : InstrumentedTest V) (valueTEQ : Bool)
    (machine : CMachine V) (function : SchemaApplication × DispatchCode) (id : PatchID)
    (before : PartitionMemory) (trace : List (Valuation V × Outcome V)) (status : TestStatus)
    (after : PartitionMemory) : Prop :=
  Library.Served test.next (EvaluatesUnder machine valueTEQ function.1 function.2 id)
    test.start before trace status after

def InstrumentedTest.Answered (test : InstrumentedTest V) (machine : CMachine V)
    (function : SchemaApplication × DispatchCode) (id : PatchID)
    (trace : List (Valuation V × Outcome V)) (status : TestStatus) : Prop :=
  Library.Answered test.next (answer machine function.1 function.2 id) test.start trace status

/--
The harness is the test driver over the analysis runtime: the partition is in the
shared buffer, in the order of an unordered set, and an execution is a run of the
test that starts from the buffer as it is.
-/
structure Hosts (valueTEQ : Bool) (machine : CMachine V)
    (functions : List (SchemaApplication × DispatchCode))
    (tested : AppID → String → InstrumentedTest V) (harness : TestHarness ω)
    (memory : ω → PartitionMemory) : Prop where
  setPartition : ∀ ids world, ids.card < maxPartitionSize → ∃ listed : List PatchID,
    listed.Nodup ∧ listed.toFinset = ids ∧
      F1X.setPartition listed (memory world) = some (memory (harness.setPartition ids world))
  getPartition : ∀ world partition, F1X.getPartition (memory world) = some partition →
    harness.getPartition world = partition
  execute : ∀ function ∈ functions, ∀ entries test world id,
    loadRuntime entries = some (function.1.id, id) →
    (∃ trace status after, (tested function.1.id test).Served valueTEQ machine function id
      (memory world) trace status after) →
    ∃ trace, (tested function.1.id test).Served valueTEQ machine function id (memory world)
      trace (harness.execute entries test world).1
      (memory (harness.execute entries test world).2)

/-- A search space with the runtime that is generated for it. -/
structure Deployed (cfg : Config) (fuel : Nat) (sas : List SchemaApplication)
    (codes : List DispatchCode) (searchSpace : List Patch) : Prop where
  abstractFree : ∀ sa ∈ sas, sa.AbstractFree
  inScope : ∀ sa ∈ sas, sa.Scoped
  ids : (sas.map (·.id)).Nodup
  generated : generateSearchSpace cfg fuel sas = .ok (codes, searchSpace)
  unsigned : ∀ patch ∈ searchSpace, patch.IsUnsignedLong
  fits : ∀ app, (getPartitionable searchSpace app).card < maxPartitionSize

/-- No candidate traps where the test of its application evaluates it. -/
def NeverTraps (machine : CMachine V) (functions : List (SchemaApplication × DispatchCode))
    (tested : AppID → String → InstrumentedTest V) (searchSpace : List Patch) : Prop :=
  ∀ function ∈ functions, ∀ test valuation,
    Asked (tested function.1.id test).next valuation →
    ∀ patch ∈ searchSpace, patch.app = function.1 →
      TrapFree machine function.1 function.2 valuation patch.id

/-- The status of each candidate when it is run alone. -/
def RunAlone (machine : CMachine V) (functions : List (SchemaApplication × DispatchCode))
    (tested : AppID → String → InstrumentedTest V) (searchSpace : List Patch)
    (status : PatchID → String → TestStatus) : Prop :=
  ∀ function ∈ functions, ∀ patch ∈ searchSpace, patch.app = function.1 → ∀ test,
    ∃ trace, (tested function.1.id test).Answered machine function patch.id trace
      (status patch.id test)

/-! ## The function of a patch -/

theorem card_getPartitionable_le (searchSpace : List Patch) (app : AppID) :
    (getPartitionable searchSpace app).card ≤ searchSpace.length := by
  have hsub : getPartitionable searchSpace app ⊆ (searchSpace.map Patch.id).toFinset := by
    intro id hid
    obtain ⟨patch, hpatch, rfl, -⟩ := mem_getPartitionable.mp hid
    exact List.mem_toFinset.mpr (List.mem_map.mpr ⟨patch, hpatch, rfl⟩)
  calc (getPartitionable searchSpace app).card
      ≤ (searchSpace.map Patch.id).toFinset.card := Finset.card_le_card hsub
    _ ≤ (searchSpace.map Patch.id).length := List.toFinset_card_le _
    _ = searchSpace.length := List.length_map _

section Functions

variable {cfg : Config} {fuel : Nat} {sas : List SchemaApplication}
  {codes : List DispatchCode} {searchSpace : List Patch}
  (deployed : Deployed cfg fuel sas codes searchSpace)

include deployed

theorem Deployed.segments : Segments sas 1 codes searchSpace := by
  obtain ⟨patches, hpatches, segments⟩ :=
    partitioningFunctionsFrom_segments deployed.abstractFree deployed.generated
  rw [List.nil_append] at hpatches
  exact hpatches ▸ segments

theorem Deployed.patchIds : (searchSpace.map Patch.id).Nodup :=
  deployed.segments.ids_nodup

theorem Deployed.base_ne {patch : Patch} (hpatch : patch ∈ searchSpace) :
    patch.id.base ≠ 0 :=
  Nat.one_le_iff_ne_zero.mp (deployed.segments.base_le patch hpatch)

theorem Deployed.function {patch : Patch} (hpatch : patch ∈ searchSpace) :
    ∃ code, (patch.app, code) ∈ sas.zip codes := by
  obtain ⟨code, part, hfunction, -⟩ :=
    generateSearchSpace_function deployed.abstractFree deployed.generated hpatch
  exact ⟨code, hfunction⟩

theorem Deployed.dispatched {function : SchemaApplication × DispatchCode}
    (hfunction : function ∈ sas.zip codes) {patch : Patch} (hpatch : patch ∈ searchSpace)
    (happ : patch.app.id = function.1.id) :
    patch.app = function.1 ∧ ∃ part, DispatchedAs cfg fuel function part ∧ patch ∈ part := by
  obtain ⟨code, part, hmem, hdispatched, hpart⟩ :=
    generateSearchSpace_function deployed.abstractFree deployed.generated hpatch
  cases function_unique deployed.ids hmem hfunction happ
  exact ⟨rfl, part, hdispatched, hpart⟩

theorem Deployed.located {function : SchemaApplication × DispatchCode}
    (hfunction : function ∈ sas.zip codes) {patch : Patch} (hpatch : patch ∈ searchSpace)
    (happ : patch.app.id = function.1.id) : Located function.1 function.2 patch.id := by
  have hsa := (List.of_mem_zip hfunction).1
  obtain ⟨-, part, ⟨baseId, next, ss, hdispatch⟩, hmem⟩ :=
    deployed.dispatched hfunction hpatch happ
  exact candidateDispatch_located (deployed.abstractFree _ hsa) (deployed.inScope _ hsa)
    hdispatch patch.id (List.mem_map.mpr ⟨patch, hmem, rfl⟩)

theorem Deployed.locations {p q : Patch} (hp : p ∈ searchSpace) (hq : q ∈ searchSpace)
    (happ : p.app.id = q.app.id) : p.app.location = q.app.location := by
  obtain ⟨code, hfunction⟩ := deployed.function hq
  rw [(deployed.dispatched hfunction hp happ).1]

end Functions

/-! ## One execution -/

theorem getPartition_bufferHolds (machine : CMachine V) {sa : SchemaApplication}
    {code : DispatchCode} {current : PatchID} {listed : List PatchID}
    (hbase : ∀ id ∈ listed, id.base ≠ 0) (hsize : listed.length < maxPartitionSize)
    {past : List (Valuation V)} {memory : PartitionMemory}
    (h : BufferHolds machine sa code current listed past memory) :
    getPartition memory =
      some (if past = [] then ∅
        else (agreeing machine sa code current past listed).toFinset) := by
  obtain ⟨background, rfl⟩ := h
  have hkeptBase : ∀ id ∈ agreeing machine sa code current past listed, id.base ≠ 0 :=
    fun id hid => hbase id (List.mem_of_mem_filter hid)
  have hkeptSize : (agreeing machine sa code current past listed).length <
      maxPartitionSize := Nat.lt_of_le_of_lt (List.length_filter_le _ _) hsize
  split
  · exact getPartition_input _ _ hkeptBase hkeptSize
  · exact getPartition_output _ _ hkeptBase hkeptSize

section Executions

variable {cfg : Config} {fuel : Nat} {sas : List SchemaApplication}
  {codes : List DispatchCode} {searchSpace : List Patch} {machine : CMachine V}
  {tested : AppID → String → InstrumentedTest V} {status : PatchID → String → TestStatus}
  {harness : TestHarness ω} {memory : ω → PartitionMemory}
  (deployed : Deployed cfg fuel sas codes searchSpace)
  (htrap : NeverTraps machine (sas.zip codes) tested searchSpace)
  (halone : RunAlone machine (sas.zip codes) tested searchSpace status)
  {function : SchemaApplication × DispatchCode} (hfunction : function ∈ sas.zip codes)
  {patch : Patch} (hpatch : patch ∈ searchSpace) (happ : patch.app = function.1)

include deployed htrap halone hfunction hpatch happ

private theorem Hosts.execute_off
    (hosts : Hosts false machine (sas.zip codes) tested harness memory)
    (test : String) (world : ω) :
    (harness.execute (environment patch) test world).1 = status patch.id test := by
  have hscoped := deployed.inScope _ (List.of_mem_zip hfunction).1
  have hlocated := deployed.located hfunction hpatch (congrArg (·.id) happ)
  have htrap' := fun valuation hasked =>
    htrap function hfunction test valuation hasked patch hpatch happ
  have hexact : ∀ before valuation outcome after,
      Asked (tested function.1.id test).next valuation →
      EvaluatesUnder machine false function.1 function.2 patch.id before valuation outcome
        after →
      outcome = answer machine function.1 function.2 patch.id valuation :=
    fun _ valuation _ _ hasked h =>
      (evaluatesUnder_off machine hscoped hlocated (htrap' valuation hasked) h).1
  have hreply : ∀ before valuation, Asked (tested function.1.id test).next valuation →
      ∃ outcome after, EvaluatesUnder machine false function.1 function.2 patch.id before
        valuation outcome after :=
    fun before valuation hasked => ⟨_, _,
      evaluatesUnder_off_total machine hscoped hlocated (htrap' valuation hasked) before⟩
  have hload := loadRuntime_environment (deployed.unsigned patch hpatch)
  rw [happ] at hload
  obtain ⟨trace, hanswered⟩ := halone function hfunction patch hpatch happ test
  obtain ⟨after, hserved⟩ := hanswered.served_of_exact hexact hreply (memory world)
  obtain ⟨trace', hserved'⟩ := hosts.execute function hfunction _ test world _ hload
    ⟨trace, _, after, hserved⟩
  exact ((hserved'.answered_of_exact hexact).unique hanswered).2

private theorem Hosts.execute_on (hosts : Hosts true machine (sas.zip codes) tested harness memory)
    (test : String) (world : ω) :
    ∃ trace listed,
      (tested function.1.id test).Answered machine function patch.id trace
        (harness.execute (environment patch) test
          (harness.setPartition (getPartitionable searchSpace patch.app.id) world)).1 ∧
      listed.toFinset = getPartitionable searchSpace patch.app.id ∧
      listed.length < maxPartitionSize ∧
      BufferHolds machine function.1 function.2 patch.id listed (trace.map Prod.fst)
        (memory (harness.execute (environment patch) test
          (harness.setPartition (getPartitionable searchSpace patch.app.id) world)).2) := by
  have hscoped := deployed.inScope _ (List.of_mem_zip hfunction).1
  have hload := loadRuntime_environment (deployed.unsigned patch hpatch)
  obtain ⟨listed, hnodup, hlisted, hstart⟩ := hosts.setPartition
    (getPartitionable searchSpace patch.app.id) world (deployed.fits _)
  have hmem : ∀ id, id = patch.id ∨ id ∈ listed →
      ∃ q ∈ searchSpace, q.id = id ∧ q.app = function.1 ∧
        Located function.1 function.2 q.id := by
    rintro id (rfl | hid)
    · exact ⟨patch, hpatch, rfl, happ,
        deployed.located hfunction hpatch (congrArg (·.id) happ)⟩
    · rw [← List.mem_toFinset, hlisted, mem_getPartitionable] at hid
      obtain ⟨q, hq, hid, hqapp⟩ := hid
      rw [happ] at hqapp
      exact ⟨q, hq, hid, (deployed.dispatched hfunction hq hqapp).1,
        deployed.located hfunction hq hqapp⟩
  have hsize : listed.length < maxPartitionSize := by
    rw [← List.toFinset_card_of_nodup hnodup, hlisted]
    exact deployed.fits _
  have hevaluable : Evaluable {id | id = patch.id ∨ id ∈ listed} patch.id listed := by
    refine ⟨.inl rfl, fun id hid => .inr hid, fun id hid => ?_, hsize⟩
    obtain ⟨q, hq, rfl, -⟩ := hmem id (.inr hid)
    exact deployed.base_ne hq
  have hlocated : ∀ id, id = patch.id ∨ id ∈ listed → Located function.1 function.2 id := by
    intro id hid
    obtain ⟨q, -, rfl, -, hlocated⟩ := hmem id hid
    exact hlocated
  have htrap' : ∀ valuation, Asked (tested function.1.id test).next valuation →
      ∀ id, id = patch.id ∨ id ∈ listed →
        TrapFree machine function.1 function.2 valuation id := by
    intro valuation hasked id hid
    obtain ⟨q, hq, rfl, hqapp, -⟩ := hmem id hid
    exact htrap function hfunction test valuation hasked q hq hqapp
  obtain ⟨trace, hanswered⟩ := halone function hfunction patch hpatch happ test
  obtain ⟨after, hserved⟩ :=
    answered_served machine hscoped hevaluable hlocated htrap' hstart hanswered
  rw [happ] at hload
  obtain ⟨trace', hserved'⟩ := hosts.execute function hfunction _ test _ _ hload
    ⟨trace, _, after, hserved⟩
  obtain ⟨hanswered', hholds⟩ :=
    served_answered machine hscoped hevaluable hlocated htrap' hstart hserved'
  exact ⟨trace', listed, hanswered', hlisted, hsize, hholds⟩

theorem Hosts.partition_on (hosts : Hosts true machine (sas.zip codes) tested harness memory)
    (test : String) (world : ω) :
    ∃ trace,
      (tested function.1.id test).Answered machine function patch.id trace
        (harness.execute (environment patch) test
          (harness.setPartition (getPartitionable searchSpace patch.app.id) world)).1 ∧
      ∀ id, id ∈ harness.getPartition (harness.execute (environment patch) test
          (harness.setPartition (getPartitionable searchSpace patch.app.id) world)).2 ↔
        trace ≠ [] ∧ id ∈ getPartitionable searchSpace patch.app.id ∧
          ∀ entry ∈ trace, answer machine function.1 function.2 id entry.1 = entry.2 := by
  obtain ⟨trace, listed, hanswered, hlisted, hsize, hholds⟩ :=
    hosts.execute_on deployed htrap halone hfunction hpatch happ test world
  have hbase : ∀ id ∈ listed, id.base ≠ 0 := by
    intro id hid
    rw [← List.mem_toFinset, hlisted, mem_getPartitionable] at hid
    obtain ⟨q, hq, rfl, -⟩ := hid
    exact deployed.base_ne hq
  refine ⟨trace, hanswered, fun id => ?_⟩
  rw [hosts.getPartition _ _ (getPartition_bufferHolds machine hbase hsize hholds), ← hlisted]
  split_ifs with hnil
  · simp [List.map_eq_nil_iff.mp hnil]
  · have hanswers := hanswered.answers
    rw [List.map_eq_nil_iff] at hnil
    simp only [agreeing, List.mem_toFinset, List.mem_filter, List.all_eq_true,
      List.forall_mem_map, decide_eq_true_eq]
    constructor
    · rintro ⟨hid, hagree⟩
      exact ⟨hnil, hid, fun entry hentry =>
        (hagree entry hentry).trans (hanswers entry hentry).symm⟩
    · rintro ⟨-, hid, hagree⟩
      exact ⟨hid, fun entry hentry =>
        (hagree entry hentry).trans (hanswers entry hentry)⟩

end Executions

/--
The test driver over the generated runtime is faithful under the configuration
that the runtime is generated for.
-/
theorem Hosts.faithfulUnder {cfg genCfg : Config} {fuel : Nat} {sas : List SchemaApplication}
    {codes : List DispatchCode} {searchSpace : List Patch} {machine : CMachine V}
    {tested : AppID → String → InstrumentedTest V} {status : PatchID → String → TestStatus}
    {harness : TestHarness ω} {memory : ω → PartitionMemory}
    (hosts : Hosts cfg.valueTEQ machine (sas.zip codes) tested harness memory)
    (deployed : Deployed genCfg fuel sas codes searchSpace)
    (htrap : NeverTraps machine (sas.zip codes) tested searchSpace)
    (halone : RunAlone machine (sas.zip codes) tested searchSpace status) :
    harness.FaithfulUnder cfg searchSpace status where
  execute := by
    intro patch hpatch test world
    obtain ⟨code, hfunction⟩ := deployed.function hpatch
    cases hteq : cfg.valueTEQ with
    | false =>
        rw [hteq] at hosts
        exact hosts.execute_off deployed htrap halone hfunction hpatch rfl test world
    | true =>
        rw [hteq] at hosts
        obtain ⟨trace, hanswered, -⟩ :=
          hosts.partition_on deployed htrap halone hfunction hpatch rfl test world
        obtain ⟨trace', halone'⟩ := halone _ hfunction patch hpatch rfl test
        exact (hanswered.unique halone').2
  getPartition := by
    intro hteq patch hpatch test world before after id hid
    rw [hteq] at hosts
    obtain ⟨code, hfunction⟩ := deployed.function hpatch
    obtain ⟨trace, hanswered, hpartition⟩ :=
      hosts.partition_on deployed htrap halone hfunction hpatch rfl test world
    obtain ⟨-, hmem, hagree⟩ := (hpartition id).mp hid
    obtain ⟨q, hq, rfl, hqapp⟩ := mem_getPartitionable.mp hmem
    have hsame := (deployed.dispatched hfunction hq hqapp).1
    obtain ⟨traceQ, haloneQ⟩ := halone _ hfunction q hq hsame test
    obtain ⟨traceP, haloneP⟩ := halone _ hfunction patch hpatch rfl test
    -- the same answers along the run lead to the same status
    have hstatusQ := ((hanswered.congr hagree).unique haloneQ).2
    have hstatusP := (hanswered.unique haloneP).2
    exact ⟨hmem, by rw [← hstatusQ, ← hstatusP]⟩

/-! ## Drivers exist -/

open Classical in
noncomputable def bufferHarness (valueTEQ : Bool) (machine : CMachine V)
    (functions : List (SchemaApplication × DispatchCode))
    (tested : AppID → String → InstrumentedTest V) : TestHarness PartitionMemory where
  execute entries test before :=
    if h : ∃ done : TestStatus × PartitionMemory, ∃ function ∈ functions, ∃ id trace,
        loadRuntime entries = some (function.1.id, id) ∧
          (tested function.1.id test).Served valueTEQ machine function id before trace done.1
            done.2
    then h.choose
    else (.fail, before)
  setPartition ids before := (F1X.setPartition ids.toList before).getD before
  getPartition memory := (F1X.getPartition memory).getD ∅
  extractAndSaveCoverage _ _ _ := ∅

theorem bufferHarness_hosts {cfg : Config} {fuel : Nat} {sas : List SchemaApplication}
    {codes : List DispatchCode} {searchSpace : List Patch}
    (deployed : Deployed cfg fuel sas codes searchSpace) (valueTEQ : Bool)
    (machine : CMachine V) (tested : AppID → String → InstrumentedTest V) :
    Hosts valueTEQ machine (sas.zip codes) tested
      (bufferHarness valueTEQ machine (sas.zip codes) tested) id where
  setPartition ids world hsize := by
    rw [← Finset.length_toList] at hsize
    have hset := setPartition_eq ids.toList world hsize
    exact ⟨ids.toList, ids.nodup_toList, ids.toList_toFinset, by simp [bufferHarness, hset]⟩
  getPartition world partition h := by
    simp only [id_eq] at h
    simp [bufferHarness, h]
  execute function hfunction entries test world patchId hload hrun := by
    obtain ⟨trace, status, after, hserved⟩ := hrun
    have hdone : ∃ done : TestStatus × PartitionMemory, ∃ function ∈ sas.zip codes,
        ∃ id trace, loadRuntime entries = some (function.1.id, id) ∧
          (tested function.1.id test).Served valueTEQ machine function id world trace done.1
            done.2 :=
      ⟨(status, after), function, hfunction, patchId, trace, hload, hserved⟩
    obtain ⟨other, hother, otherId, otherTrace, hload', hserved'⟩ := hdone.choose_spec
    have hsame := hload.symm.trans hload'
    simp only [Option.some_inj, Prod.mk.injEq] at hsame
    obtain ⟨happ, rfl⟩ := hsame
    cases function_unique deployed.ids hfunction hother happ
    refine ⟨otherTrace, ?_⟩
    simpa only [bufferHarness, dif_pos hdone, id_eq] using hserved'

end Hosting

end F1X
