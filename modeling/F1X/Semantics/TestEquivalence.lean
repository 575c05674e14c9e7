import F1X.Library.Interaction
import F1X.Runtime.Protocol
import F1X.Semantics.Faults

/-!
# Value-based test-equivalence

What an id does at an evaluation depends on the valuation only, not on what
earlier passes and calls left in the locals of the generated function.  The
runtime is then a service that answers every evaluation of the program by a
function of the valuation, and keeps the ids with the same answers so far.
-/

namespace F1X.generator

open F1X.Library F1X.synthesis

/-! ## Stale locals -/

section Reads

variable {sa : SchemaApplication} {names : Naming}

private theorem hasNodeOfKind_unary {kind nodeKind : NodeKind} {type : ExprType} {op : Operator}
    {rawType repr : String} {arg : Expression}
    (h : hasNodeOfKind kind ⟨nodeKind, type, op, rawType, repr, [arg]⟩ = false) :
    hasNodeOfKind kind arg = false := by
  simp only [hasNodeOfKind, anyHasNodeOfKind, Bool.or_eq_false_iff] at h
  exact h.2.1

theorem hasNodeOfKind_binary {kind nodeKind : NodeKind} {type : ExprType} {op : Operator}
    {rawType repr : String} {left right : Expression}
    (h : hasNodeOfKind kind ⟨nodeKind, type, op, rawType, repr, [left, right]⟩ = false) :
    hasNodeOfKind kind left = false ∧ hasNodeOfKind kind right = false := by
  simp only [hasNodeOfKind, anyHasNodeOfKind, Bool.or_eq_false_iff] at h
  exact ⟨h.2.1, h.2.2.1⟩

theorem runtimeExpr_reads {expression : Expression} (h : InScope sa expression)
    (hnone : hasNodeOfKind .bool2 expression = false) {expr : RuntimeExpr}
    (hexpr : names.runtimeExpr expression = .ok expr) : ¬expr.term.Reads .bool2 := by
  induction h generalizing expr with
  | constant | named | parameter =>
      cases hexpr
      rintro ⟨⟩
  | dereference =>
      cases hexpr
      simp [RuntimeExpr.term, Term.Reads]
  | bool2 => cases hnone
  | unary type rawType hop harg ih =>
      obtain ⟨argExpr, hargExpr, rfl⟩ := runtimeExpr_unary hop hexpr
      obtain ⟨unary, htext⟩ := unaryOp_ofText hop
      simp only [RuntimeExpr.term, unaryTerm, htext, Term.Reads]
      exact ih (hasNodeOfKind_unary hnone) hargExpr
  | @binary type op rawType left right hop hpointer hleft hright ihLeft ihRight =>
      obtain ⟨leftExpr, rightExpr, hleftExpr, hrightExpr, rfl⟩ :=
        runtimeExpr_binary hop hpointer hexpr
      obtain ⟨binary, htext, -⟩ := binaryOp_ofText hop
      obtain ⟨hnoneLeft, hnoneRight⟩ := hasNodeOfKind_binary hnone
      have hleftReads := ihLeft hnoneLeft hleftExpr
      have hrightReads := ihRight hnoneRight hrightExpr
      split <;>
        simp [RuntimeExpr.term, binaryTerm, htext, Term.Reads, hleftReads, hrightReads]
  | @shift type op rawType left right hop htype hsize hleft hright ihLeft ihRight =>
      obtain ⟨leftExpr, rightExpr, hleftExpr, hrightExpr, rfl⟩ :=
        runtimeExpr_shift hop hexpr
      obtain ⟨binary, htext, -⟩ := binaryOp_ofText hop.binary
      obtain ⟨hnoneLeft, hnoneRight⟩ := hasNodeOfKind_binary hnone
      have hleftReads := ihLeft hnoneLeft hleftExpr
      have hrightReads := ihRight hnoneRight hrightExpr
      simp [RuntimeExpr.term, pointerTerm, htext, shiftTerm, Term.Reads, hleftReads,
        hrightReads]

end Reads

section Locals

variable {V : Type*} (machine : CMachine V) (valuation : Valuation V)
  {sa : SchemaApplication}

theorem runtimeResult_congr {locals other : Locals V} {expr : RuntimeExpr}
    (hparam : locals.paramValue = other.paramValue)
    (hbool2 : locals.bool2Value = other.bool2Value ∨ ¬expr.term.Reads .bool2) :
    runtimeResult machine valuation sa locals expr =
      runtimeResult machine valuation sa other expr := by
  refine Term.eval_congr machine.toMachine _ fun a hreads => ?_
  cases a with
  | constant | name | illegal => rfl
  | parameter => simp only [runtimeEnv, hparam]
  | bool2 =>
      rcases hbool2 with hbool2 | hbool2
      · simp only [runtimeEnv, hbool2]
      · exact absurd hreads hbool2

private theorem baseResult_congr {locals other : Locals V} {expr : RuntimeExpr}
    (hparam : locals.paramValue = other.paramValue)
    (hbool2 : locals.bool2Value = other.bool2Value ∨ ¬expr.term.Reads .bool2) :
    baseResult machine valuation sa locals expr =
      baseResult machine valuation sa other expr := by
  rw [baseResult, baseResult, runtimeResult_congr machine valuation hparam hbool2]

private theorem runResult_congr (hscoped : sa.Scoped) {names : Naming}
    {conditions : List Expression}
    {code : DispatchCode} {id : PatchID} {expression : Expression}
    (hruns : Runs sa names conditions code id expression) (locals other : Locals V) :
    runResult machine valuation sa code id locals.calm =
      runResult machine valuation sa code id other.calm := by
  obtain ⟨expr, hlookup, hexpr⟩ := hruns.base
  cases hbool2 : id.bool2 with
  | zero =>
      rw [run_fixed machine valuation sa hbool2 hlookup,
        run_fixed machine valuation sa hbool2 hlookup]
      exact baseResult_congr machine valuation rfl
        (.inr (runtimeExpr_reads hruns.scope (hruns.fixed hbool2) hexpr))
  | succ i =>
      obtain ⟨condition, conditionExpr, -, hcase, hcode, hatomic, hflat⟩ :=
        hruns.condition i hbool2
      have hcondition : runtimeResult machine valuation sa (withParam machine id locals)
          conditionExpr =
          runtimeResult machine valuation sa (withParam machine id other) conditionExpr :=
        runtimeResult_congr machine valuation rfl
          (.inr (runtimeExpr_reads (hatomic.inScope hscoped) hflat hcode))
      rw [run_condition machine valuation sa hbool2 hcase hlookup,
        run_condition machine valuation sa hbool2 hcase hlookup, hcondition]
      congr 1

end Locals

/-! ## The runtime as a service -/

section Service

variable {V : Type*} [DecidableEq V] [Zero V] (machine : CMachine V)
  {sa : SchemaApplication} {code : DispatchCode}

/-- What an id does at an evaluation with a given valuation. -/
def answer (sa : SchemaApplication) (code : DispatchCode) (id : PatchID)
    (valuation : Valuation V) : Outcome V :=
  match runResult machine valuation sa code id (⟨0, 0, 0, false⟩ : Locals V).calm with
  | some (value, false) => .value value
  | _ => .panic

/-- One complete call of the generated function, from any uninitialized locals. -/
def Evaluates (sa : SchemaApplication) (code : DispatchCode) (current : PatchID)
    (memory : PartitionMemory) (valuation : Valuation V) (outcome : Outcome V)
    (later : PartitionMemory) : Prop :=
  ∃ (uninitialized : Locals V) (steps : Nat),
    (Call.after true ⟨code.run machine valuation sa, uninitialized⟩ current memory
      steps).result = some outcome ∧
    (Call.after true ⟨code.run machine valuation sa, uninitialized⟩ current memory
      steps).memory = later

def TrapFree (sa : SchemaApplication) (code : DispatchCode) (valuation : Valuation V)
    (id : PatchID) : Prop :=
  ∀ locals : Locals V, code.run machine valuation sa id locals.calm ≠ none

def Located (sa : SchemaApplication) (code : DispatchCode) (id : PatchID) : Prop :=
  ∃ names conditions expression, Runs sa names conditions code id expression

omit [DecidableEq V] in
theorem answer_gives (hscoped : sa.Scoped) {valuation : Valuation V} {id : PatchID}
    (hlocated : Located sa code id) (htrap : TrapFree machine sa code valuation id)
    {locals : Locals V} (hcalm : locals.currentPanic = false) :
    ∃ after, code.run machine valuation sa id locals = some after ∧
      after.outcome = answer machine sa code id valuation := by
  obtain ⟨names, conditions, expression, hruns⟩ := hlocated
  have hlocals : locals.calm = locals := by
    rw [Locals.calm, ← hcalm]
  obtain ⟨after, hafter⟩ := Option.ne_none_iff_exists'.mp (htrap locals)
  have hresult := runResult_eq_some.mpr ⟨after, hafter, rfl, rfl⟩
  rw [runResult_congr machine valuation hscoped hruns locals ⟨0, 0, 0, false⟩] at hresult
  refine ⟨after, hlocals ▸ hafter, ?_⟩
  rw [answer, hresult, Locals.outcome]
  cases after.currentPanic <;> rfl

def evaluationOf (hscoped : sa.Scoped) (valuation : Valuation V) {ids : Set PatchID}
    (hlocated : ∀ id ∈ ids, Located sa code id)
    (htrap : ∀ id ∈ ids, TrapFree machine sa code valuation id)
    (uninitialized : Locals V) : Evaluation V ids where
  dispatch := code.run machine valuation sa
  uninitialized := uninitialized
  outcome id := answer machine sa code id valuation
  gives id hid _ hcalm :=
    answer_gives machine hscoped (hlocated id hid) (htrap id hid) hcalm

/-- The ids of a list that gave the answers of the current one so far. -/
def agreeing (sa : SchemaApplication) (code : DispatchCode) (current : PatchID)
    (past : List (Valuation V)) (listed : List PatchID) : List PatchID :=
  listed.filter fun id => past.all fun valuation =>
    answer machine sa code id valuation = answer machine sa code current valuation

/-- The invariant of the buffer between two evaluations. -/
def BufferHolds (sa : SchemaApplication) (code : DispatchCode) (current : PatchID)
    (listed : List PatchID) (past : List (Valuation V)) (memory : PartitionMemory) : Prop :=
  Holds (agreeing machine sa code current past listed)
    (if past = [] then inputTerminator else outputTerminator) memory

private theorem agreeing_append (current : PatchID) (past : List (Valuation V))
    (valuation : Valuation V) (listed : List PatchID) :
    agreeing machine sa code current (past ++ [valuation]) listed =
      (agreeing machine sa code current past listed).filter fun id =>
        answer machine sa code id valuation = answer machine sa code current valuation := by
  simp only [agreeing, List.filter_filter, List.all_append, List.all_cons, List.all_nil,
    Bool.and_true]
  congr 1
  funext id
  exact Bool.and_comm _ _

section Calls

variable (hscoped : sa.Scoped) {current : PatchID} {listed : List PatchID}
  (hevaluable : Evaluable {id | id = current ∨ id ∈ listed} current listed)
  (hlocated : ∀ id, id = current ∨ id ∈ listed → Located sa code id)
  {past : List (Valuation V)} {memory : PartitionMemory} {valuation : Valuation V}
  (htrap : ∀ id, id = current ∨ id ∈ listed → TrapFree machine sa code valuation id)
  (hholds : BufferHolds machine sa code current listed past memory)

include hscoped hevaluable hlocated htrap hholds in
theorem call_spec (uninitialized : Locals V) {fuel : Nat}
    (hfuel : 3 * listed.length + 5 ≤ fuel) :
    (Call.after true ⟨code.run machine valuation sa, uninitialized⟩ current memory
        fuel).result = some (answer machine sa code current valuation) ∧
      BufferHolds machine sa code current listed (past ++ [valuation])
        (Call.after true ⟨code.run machine valuation sa, uninitialized⟩ current memory
          fuel).memory := by
  have hkept : Evaluable {id | id = current ∨ id ∈ listed} current
      (agreeing machine sa code current past listed) := hevaluable.filter _
  have hlength : (agreeing machine sa code current past listed).length ≤ listed.length :=
    List.length_filter_le _ _
  obtain ⟨hresult, -, hmemory⟩ := evaluation_spec hkept
    (evaluationOf machine hscoped valuation hlocated htrap uninitialized)
    (by split <;> rfl) hholds (by omega : 3 * _ + 5 ≤ fuel)
  refine ⟨hresult, ?_⟩
  rw [BufferHolds, agreeing_append, if_neg (by simp)]
  exact hmemory

include hscoped hevaluable hlocated htrap hholds in
private theorem evaluates_spec {outcome : Outcome V} {later : PartitionMemory}
    (h : Evaluates machine sa code current memory valuation outcome later) :
    outcome = answer machine sa code current valuation ∧
      BufferHolds machine sa code current listed (past ++ [valuation]) later := by
  obtain ⟨uninitialized, steps, hresult, rfl⟩ := h
  obtain ⟨hanswer, hmemory⟩ := call_spec machine hscoped hevaluable hlocated htrap hholds
    uninitialized (Nat.le_max_left (3 * listed.length + 5) steps)
  rw [Call.after_finished hresult (Nat.le_max_right _ _)] at hanswer hmemory
  exact ⟨Option.some.inj (hresult.symm.trans hanswer), hmemory⟩

include hscoped hevaluable hlocated htrap hholds in
private theorem evaluates_total : ∃ outcome later,
    Evaluates machine sa code current memory valuation outcome later := by
  obtain ⟨hresult, -⟩ := call_spec machine hscoped hevaluable hlocated htrap hholds
    ⟨0, 0, 0, false⟩ (Nat.le_refl (3 * listed.length + 5))
  exact ⟨_, _, _, _, hresult, rfl⟩

end Calls

theorem setPartition_bufferHolds {current : PatchID} {listed : List PatchID}
    (hsize : listed.length < maxPartitionSize) {before start : PartitionMemory}
    (hstart : setPartition listed before = some start) :
    BufferHolds machine sa code current listed [] start := by
  rw [setPartition_eq listed before hsize] at hstart
  cases hstart
  exact ⟨before, by simp [agreeing]⟩

theorem BufferHolds.partition {current : PatchID} {listed : List PatchID}
    (hbase : ∀ id ∈ listed, id.base ≠ 0) (hsize : listed.length < maxPartitionSize)
    {past : List (Valuation V)} {memory : PartitionMemory}
    (h : BufferHolds machine sa code current listed past memory) :
    ∃ partition, getPartition memory = some partition ∧
      ∀ id ∈ partition, id ∈ listed ∧ ∀ valuation ∈ past,
        answer machine sa code id valuation = answer machine sa code current valuation := by
  obtain ⟨background, rfl⟩ := h
  have hkeptBase : ∀ id ∈ agreeing machine sa code current past listed, id.base ≠ 0 :=
    fun id hid => hbase id (List.mem_of_mem_filter hid)
  have hkeptSize : (agreeing machine sa code current past listed).length <
      maxPartitionSize := Nat.lt_of_le_of_lt (List.length_filter_le _ _) hsize
  split
  · exact ⟨∅, getPartition_input _ _ hkeptBase hkeptSize, by simp⟩
  · refine ⟨_, getPartition_output _ _ hkeptBase hkeptSize, fun id hid => ?_⟩
    simpa [agreeing] using hid

/-! ## Whole runs -/

section Programs

variable {σ R : Type*} {program : σ → Event σ (Valuation V) (Outcome V) R}
  (hscoped : sa.Scoped) {current : PatchID} {listed : List PatchID}
  (hevaluable : Evaluable {id | id = current ∨ id ∈ listed} current listed)
  (hlocated : ∀ id, id = current ∨ id ∈ listed → Located sa code id)
  (htrap : ∀ valuation, Asked program valuation → ∀ id, id = current ∨ id ∈ listed →
    TrapFree machine sa code valuation id)
  {before start : PartitionMemory} (hstart : setPartition listed before = some start)

include hscoped hevaluable hlocated htrap in
theorem runtime_step (past : List (Valuation V)) (memory : PartitionMemory)
    (valuation : Valuation V) (outcome : Outcome V) (later : PartitionMemory)
    (hasked : Asked program valuation)
    (hholds : BufferHolds machine sa code current listed past memory)
    (h : Evaluates machine sa code current memory valuation outcome later) :
    outcome = answer machine sa code current valuation ∧
      BufferHolds machine sa code current listed (past ++ [valuation]) later :=
  evaluates_spec machine hscoped hevaluable hlocated (htrap valuation hasked) hholds h

include hscoped hevaluable hlocated htrap hstart in
theorem served_answered {s : σ} {final : PartitionMemory}
    {trace : List (Valuation V × Outcome V)} {result : R}
    (hrun : Served program (Evaluates machine sa code current) s start trace result
      final) :
    Answered program (answer machine sa code current) s trace result ∧
      BufferHolds machine sa code current listed (trace.map Prod.fst) final :=
  hrun.answered (runtime_step machine hscoped hevaluable hlocated htrap)
    (setPartition_bufferHolds machine hevaluable.fits hstart)

include hscoped hevaluable hlocated htrap hstart in
theorem answered_served {s : σ} {trace : List (Valuation V × Outcome V)} {result : R}
    (hrun : Answered program (answer machine sa code current) s trace result) :
    ∃ final, Served program (Evaluates machine sa code current) s start trace result
      final :=
  hrun.served (runtime_step machine hscoped hevaluable hlocated htrap)
    (fun _ _ valuation hasked hholds =>
      evaluates_total machine hscoped hevaluable hlocated (htrap valuation hasked) hholds)
    (setPartition_bufferHolds machine hevaluable.fits hstart)

end Programs

theorem candidateDispatch_located {cfg : Config} (hfree : sa.AbstractFree) (hscoped : sa.Scoped)
    {fuel baseId next : Nat} {ss patches : List Patch}
    (h : candidateDispatch cfg fuel sa baseId ss = .ok (code, next, ss ++ patches)) :
    ∀ id ∈ patches.map (·.id), Located sa code id := by
  obtain ⟨conditions, modifications, hconditions, hmodifications, -⟩ :=
    candidateDispatch_inv hfree h
  intro id hid
  obtain ⟨patch, hpatch, rfl⟩ := List.mem_map.mp hid
  obtain ⟨names, m, -, -, -, hruns⟩ :=
    candidateDispatch_runs hfree hscoped hconditions hmodifications h hpatch
  exact ⟨names, conditions, m.1, hruns⟩

/--
Value-based test-equivalence is sound.  After a run of `p` with the ids `S` in
the buffer, every id `q` that `getPartition` returns behaves like `p` when it
is run itself: the program reaches the same evaluations, gets the same values
or aborts, and ends with the same result, whatever lies in the buffer then.
-/
theorem test_equivalence_sound {cfg : Config} (hfree : sa.AbstractFree)
    (hscoped : sa.Scoped) {fuel baseId next : Nat} {ss patches : List Patch}
    (h : candidateDispatch cfg fuel sa baseId ss = .ok (code, next, ss ++ patches))
    {σ R : Type*} (program : σ → Event σ (Valuation V) (Outcome V) R)
    {p : PatchID} (hp : p ∈ patches.map (·.id)) {S : List PatchID}
    (hS : ∀ id ∈ S, id ∈ patches.map (·.id)) (hbase : ∀ id ∈ S, id.base ≠ 0)
    (hsize : S.length < maxPartitionSize)
    (htrap : ∀ valuation, Asked program valuation → ∀ id, id = p ∨ id ∈ S →
      TrapFree machine sa code valuation id)
    {before start final : PartitionMemory} (hstart : setPartition S before = some start)
    {s : σ} {trace : List (Valuation V × Outcome V)} {result : R}
    (hrun : Served program (Evaluates machine sa code p) s start trace result final) :
    ∃ partition, getPartition final = some partition ∧
      ∀ q ∈ partition, ∀ alone : List PatchID, (∀ id ∈ alone, id ∈ S) →
        alone.length < maxPartitionSize →
        ∀ before' start', setPartition alone before' = some start' →
          (∃ final', Served program (Evaluates machine sa code q) s start' trace result
            final') ∧
          ∀ trace' result' final',
            Served program (Evaluates machine sa code q) s start' trace' result' final' →
              trace' = trace ∧ result' = result := by
  have hlocated := candidateDispatch_located hfree hscoped h
  have hlisted : ∀ id, id = p ∨ id ∈ S → Located sa code id := by
    rintro id (rfl | hid)
    · exact hlocated _ hp
    · exact hlocated _ (hS id hid)
  obtain ⟨hanswered, hholds⟩ := served_answered machine hscoped
    ⟨.inl rfl, fun id hid => .inr hid, hbase, hsize⟩ hlisted htrap hstart hrun
  obtain ⟨partition, hpartition, hmem⟩ := hholds.partition machine hbase hsize
  refine ⟨partition, hpartition, ?_⟩
  intro q hq alone halone haloneSize before' start' hstart'
  obtain ⟨hqS, hagree⟩ := hmem q hq
  have hevaluable : Evaluable {id | id = q ∨ id ∈ alone} q alone :=
    ⟨.inl rfl, fun id hid => .inr hid, fun id hid => hbase id (halone id hid), haloneSize⟩
  have hsub : ∀ id, id = q ∨ id ∈ alone → id = p ∨ id ∈ S := by
    rintro id (rfl | hid)
    · exact .inr hqS
    · exact .inr (halone id hid)
  have hlocated' := fun id hid => hlisted id (hsub id hid)
  have htrap' := fun valuation hasked id hid => htrap valuation hasked id (hsub id hid)
  have hanswered' : Answered program (answer machine sa code q) s trace result := by
    refine hanswered.congr fun entry hentry => ?_
    rw [hanswered.answers entry hentry]
    exact hagree entry.1 (List.mem_map.mpr ⟨entry, hentry, rfl⟩)
  refine ⟨answered_served machine hscoped hevaluable hlocated' htrap' hstart' hanswered', ?_⟩
  intro trace' result' final' hrun'
  obtain ⟨hother, -⟩ :=
    served_answered machine hscoped hevaluable hlocated' htrap' hstart' hrun'
  obtain ⟨rfl, rfl⟩ := hanswered'.unique hother
  exact ⟨rfl, rfl⟩

end Service

/-! ## One evaluation with a null pointer -/

theorem trapFree_integers {literal : String → String → Int}
    (hzero : literal "int" "0" = 0) {sa : SchemaApplication} (hscoped : sa.Scoped)
    {names : Naming} (hnaming : naming sa = .ok names) {conditions : List Expression}
    {code : DispatchCode} {id : PatchID} {expression : Expression}
    (hruns : Runs sa names conditions code id expression) (valuation : Valuation Int) :
    TrapFree (integers literal) sa code valuation id := by
  intro locals htrap
  obtain ⟨value, raised, hresult⟩ := (run_guarded (integers_lawful hzero)
    integers_boolean (fun _ : True => integers_total hzero) valuation hscoped hnaming hruns
    locals).defined trivial
  obtain ⟨final, hfinal, -⟩ := runResult_eq_some.mp hresult
  cases htrap.symm.trans hfinal

def oneEvaluation : Option (Outcome Int) →
    Event (Option (Outcome Int)) (Valuation Int) (Outcome Int) (Outcome Int)
  | none => .asks nullPointer some
  | some outcome => .finished outcome

/-- The ids of `p == NULL`, `p != NULL` and `NULL != NULL`. -/
def nullTestIds : List PatchID := [⟨2, 0, 0, 0, 0⟩, ⟨3, 0, 0, 0, 0⟩, ⟨4, 0, 0, 0, 0⟩]

private theorem nullTestIds_dispatch :
    ∃ code next patches, candidateDispatch .default 18 nullTest 1 [] =
        .ok (code, next, [] ++ patches) ∧
      ∀ id ∈ nullTestIds, id ∈ patches.map (·.id) := by
  have hcheck : (candidateDispatch .default 18 nullTest 1 []).toOption.any (fun result =>
      nullTestIds.all fun id => id ∈ result.2.2.map (·.id)) = true := by
    decide +kernel
  obtain ⟨⟨code, next, patches⟩, hresult, hfound⟩ := eq_ok_of_any hcheck
  exact ⟨code, next, patches, hresult, fun id hid =>
    of_decide_eq_true (List.all_eq_true.mp hfound id hid)⟩

theorem test_equivalence_sound_nullTest :
    ∃ code start trace result final partition,
      setPartition nullTestIds (fun _ => outputTerminator) = some start ∧
      Served oneEvaluation (Evaluates (integers decimal) nullTest code ⟨3, 0, 0, 0, 0⟩) none
        start trace result final ∧
      getPartition final = some partition ∧
      ∀ q ∈ partition, ∃ final',
        Served oneEvaluation (Evaluates (integers decimal) nullTest code q) none start trace
          result final' := by
  obtain ⟨code, next, patches, h, hids⟩ := nullTestIds_dispatch
  have hbase : ∀ id ∈ nullTestIds, id.base ≠ 0 := by decide
  have hsize : nullTestIds.length < maxPartitionSize := by decide
  have hfacts : ∀ id ∈ nullTestIds, Located nullTest code id ∧
      TrapFree (integers decimal) nullTest code nullPointer id := by
    intro id hid
    obtain ⟨patch, hpatch, rfl⟩ := List.mem_map.mp (hids id hid)
    obtain ⟨names, m, hnaming, -, -, hruns⟩ := candidateDispatch_runs nullTest_abstractFree
      nullTest_scoped rfl rfl h hpatch
    exact ⟨⟨names, _, m.1, hruns⟩,
      trapFree_integers (decimal_toString 0) nullTest_scoped hnaming hruns nullPointer⟩
  have hcurrent : ∀ id, id = (⟨3, 0, 0, 0, 0⟩ : PatchID) ∨ id ∈ nullTestIds →
      id ∈ nullTestIds := by
    rintro id (rfl | hid)
    · decide
    · exact hid
  have htrap : ∀ valuation, Asked oneEvaluation valuation → ∀ id,
      id = (⟨3, 0, 0, 0, 0⟩ : PatchID) ∨ id ∈ nullTestIds →
      TrapFree (integers decimal) nullTest code valuation id := by
    rintro valuation ⟨state, resume, hasks⟩ id hid
    cases state with
    | some outcome => cases hasks
    | none =>
        cases hasks
        exact (hfacts id (hcurrent id hid)).2
  obtain ⟨start, hstart, -⟩ := setPartition_holds (fun _ => outputTerminator) hsize
  have hevaluable : Evaluable {id | id = ⟨3, 0, 0, 0, 0⟩ ∨ id ∈ nullTestIds}
      ⟨3, 0, 0, 0, 0⟩ nullTestIds := ⟨.inl rfl, fun id hid => .inr hid, hbase, hsize⟩
  obtain ⟨final, hrun⟩ := answered_served (integers decimal) nullTest_scoped hevaluable
    (fun id hid => (hfacts id (hcurrent id hid)).1) htrap hstart
    (.asks (s := none) rfl (.finished rfl))
  obtain ⟨partition, hpartition, hequivalent⟩ := test_equivalence_sound (integers decimal)
    nullTest_abstractFree nullTest_scoped h oneEvaluation (hids _ (by decide)) hids hbase
    hsize htrap hstart hrun
  refine ⟨code, start, _, _, final, partition, hstart, hrun, hpartition, fun q hq => ?_⟩
  exact (hequivalent q hq nullTestIds (fun _ hid => hid) hsize _ start hstart).1

end F1X.generator
