import F1X.Semantics.Dispatch

/-!
# Faults of patches and of their runs

In mathematical integers only null dereferences and divisions by zero are
undefined.  The run of an id raises its flag where the patch faults, except
that the chosen condition is evaluated even where the patch skips it.
-/

namespace F1X.generator

open F1X.Library F1X.synthesis

section Runs

variable {V : Type*} (machine : CMachine V) (valuation : Valuation V)

/-- The run faults exactly where the patch faults, and otherwise has its value. -/
def RunsAsPatch (sa : SchemaApplication) (code : DispatchCode) (id : PatchID)
    (modified : Expression) (locals : Locals V) : Prop :=
  ∃ final, code.run machine valuation sa id locals.calm = some final ∧
    (final.currentPanic = true ↔ evaluate machine valuation modified = none) ∧
    ∀ value raised, evaluate machine valuation modified = some (value, raised) →
      final.baseValue = value

/--
The chosen condition faults, but the base modification never reads it: it is
defined with nothing at its abstract node.
-/
def HoistedFault (conditions : List Expression) (modifications : List Modification)
    (baseId : Nat) (id : PatchID) : Prop :=
  ∃ condition m, chosenCondition conditions id.bool2 = some condition ∧
    modifications[id.base - baseId]? = some m ∧
    evaluateWith machine valuation (some (machine.param id.param, false)) none condition =
      none ∧
    evaluateWith machine valuation (some (machine.param id.param, false)) none m.1 ≠ none

variable {machine valuation} {sa : SchemaApplication} {code : DispatchCode} {id : PatchID}
  {modified : Expression} {locals : Locals V}

private theorem runsAsPatch_of_guarded
    (hguarded : Guarded True (evaluate machine valuation modified)
      (runResult machine valuation sa code id locals.calm)) :
    RunsAsPatch machine valuation sa code id modified locals := by
  cases hsource : evaluate machine valuation modified with
  | none =>
      obtain ⟨value, htarget⟩ := hguarded.faults trivial hsource
      obtain ⟨final, hfinal, -, hpanic⟩ := runResult_eq_some.mp htarget
      exact ⟨final, hfinal, by simp [hpanic, hsource], by simp [hsource]⟩
  | some pair =>
      obtain ⟨value, raised⟩ := pair
      obtain ⟨-, htarget⟩ := hguarded.eq_some hsource
      obtain ⟨final, hfinal, hvalue, hpanic⟩ := runResult_eq_some.mp htarget
      refine ⟨final, hfinal, by simp [hpanic, hsource], ?_⟩
      intro other raised hother
      rw [hsource] at hother
      cases hother
      exact hvalue

private theorem runsAsPatch_of_fault {value : V}
    (hfault : runResult machine valuation sa code id locals.calm = some (value, true)) :
    RunsAsPatch machine valuation sa code id modified locals ↔
      evaluate machine valuation modified = none := by
  obtain ⟨final, hfinal, -, hpanic⟩ := runResult_eq_some.mp hfault
  constructor
  · rintro ⟨other, hother, hiff, -⟩
    rw [hfinal] at hother
    cases hother
    exact hiff.mp hpanic
  · intro hnone
    exact ⟨final, hfinal, by simp [hpanic, hnone], by simp [hnone]⟩

end Runs

/-! ## Mathematical integers -/

section Integers

variable {literal : String → String → Int}
  (hliteral : ∀ n : Nat, literal "int" (toString n) = n)
  {sa : SchemaApplication} (hfree : sa.AbstractFree) (hscoped : sa.Scoped)
  {conditions : List Expression} {modifications : List Modification}
  (hconditions : bool2Expressions sa.components = .ok conditions)
  (hmodifications : baseModifications sa.schema sa.original sa.components =
    .ok modifications)

theorem stored_integers (result : Result Int) :
    stored (integers literal) sa result = result := by
  cases result with
  | none => rfl
  | some pair => simp [stored, Result.andThen, integers]

include hliteral hfree hscoped hconditions hmodifications in
/--
The run of an id faults exactly where its patch faults, and has the value of
the patch elsewhere, if and only if the patch does not skip a faulting condition.
-/
theorem candidateDispatch_faults_iff {cfg : Config} {fuel baseId next : Nat}
    {ss patches : List Patch} {code : DispatchCode}
    (h : candidateDispatch cfg fuel sa baseId ss = .ok (code, next, ss ++ patches))
    {patch : Patch} (hpatch : patch ∈ patches) (valuation : Valuation Int)
    (locals : Locals Int) :
    RunsAsPatch (integers literal) valuation sa code patch.id patch.modified locals ↔
      ¬HoistedFault (integers literal) valuation conditions modifications baseId
        patch.id := by
  obtain ⟨names, m, hnaming, hm, hdecodes, hruns⟩ :=
    candidateDispatch_runs hfree hscoped hconditions hmodifications h hpatch
  have hzero : literal "int" "0" = 0 := hliteral 0
  have hlaw := integers_lawful hzero
  have htotal := fun _ : True => integers_total hzero
  have hvalue : evaluate (integers literal) valuation patch.modified =
      instanceResult (integers literal) valuation ((integers literal).param patch.id.param)
        conditions patch.id.bool2 m.1 := by
    rw [hdecodes.evaluate_patch hfree hscoped hconditions hmodifications _ _ hm]
    exact congrArg (instanceResult _ _ · _ _ _) (hliteral patch.id.param)
  have hguarded := run_guarded hlaw integers_boolean htotal valuation hscoped hnaming hruns
    locals
  rw [stored_integers] at hguarded
  by_cases hdefined : patch.id.bool2 = 0 ∨ conditionResult (integers literal) valuation
      ((integers literal).param patch.id.param) conditions patch.id.bool2 ≠ none
  · rw [eagerResult_of_defined hlaw htotal valuation hscoped hnaming hruns hdefined locals,
      ← hvalue] at hguarded
    apply iff_of_true (runsAsPatch_of_guarded hguarded)
    rintro ⟨condition, -, hchosen, -, hfault, -⟩
    rcases hdefined with hbool2 | hdefined
    · simp [chosenCondition, hbool2] at hchosen
    · rw [conditionResult, hchosen] at hdefined
      exact hdefined hfault
  · obtain ⟨hbool2, hcondition⟩ := not_or.mp hdefined
    rw [not_not] at hcondition
    obtain ⟨i, hi⟩ := Nat.exists_eq_succ_of_ne_zero hbool2
    obtain ⟨condition, -, hget, -⟩ := hruns.condition i hi
    have hchosen : chosenCondition conditions patch.id.bool2 = some condition := by
      rw [hi, chosenCondition, hget]
    rw [eagerResult_of_undefined valuation hbool2 hcondition] at hguarded
    obtain ⟨value, hfault⟩ := hguarded.faults trivial rfl
    rw [runsAsPatch_of_fault hfault, hvalue, instanceResult, hcondition]
    rw [conditionResult, hchosen] at hcondition
    constructor
    · rintro hnone ⟨-, m', -, hm', -, hread⟩
      rw [hm] at hm'
      cases hm'
      exact hread hnone
    · intro hnot
      by_contra hread
      exact hnot ⟨condition, _, hchosen, hm, hcondition, hread⟩

end Integers

/-! ## A condition behind a null check -/

def decimal (rawType text : String) : Int :=
  if rawType = "void" then 0 else Nat.ofDigitChars 10 text.toList 0

theorem decimal_toString (n : Nat) : decimal "int" (toString n) = n := by
  simp [decimal, toString, Nat.toList_repr]

/-- The condition `p != NULL`, with `p->field` in scope. -/
def nullTest : SchemaApplication where
  id := 1
  schema := .expression
  location := ⟨0, 13, 11, 13, 24⟩
  context := .unknown
  original := makeNonNULLCheck ⟨.variable, .pointer, .none, "struct foo", "p", []⟩
  components := [⟨.variable, .pointer, .none, "struct foo", "p", []⟩,
    ⟨.dereference, .integer, .none, "int", "p->field", []⟩]
  completePointeeTypes := ["struct foo"]

theorem nullTest_abstractFree : nullTest.AbstractFree :=
  ⟨rfl, by simp [nullTest, Expression.AbstractFree, isAbstractExpression,
    anyAbstractExpression, isAbstractNode]⟩

theorem nullTest_scoped : nullTest.Scoped where
  original := inScope_applyBoolOperator (.named _ _ (by simp [nullTest])) (.constant _ _ _)
    (by decide)
  components := by
    simp only [nullTest, List.forall_mem_cons, List.not_mem_nil, false_imp_iff,
      implies_true, and_true]
    exact ⟨.named _ _ (by simp), .dereference _ _ (mem_sortedDistinct.mpr (by simp))⟩
  builtin := by simp [nullTest, builtinTypes]
  pointees := by simp [nullTest]

def nullPointer : Valuation Int where
  value _ := 0
  isNull name := name = "p->field"
  sizeof _ := 4

def faultsOutside (machine : CMachine Int) (valuation : Valuation Int)
    (sa : SchemaApplication) (code : DispatchCode) (patch : Patch) : Bool :=
  (evaluate machine valuation patch.modified).isSome &&
    (code.run machine valuation sa patch.id ⟨0, 0, 0, false⟩).any (·.currentPanic)

private theorem not_runsAsPatch {machine : CMachine Int} {valuation : Valuation Int}
    {sa : SchemaApplication} {code : DispatchCode} {patch : Patch}
    (h : faultsOutside machine valuation sa code patch = true) :
    ¬RunsAsPatch machine valuation sa code patch.id patch.modified ⟨0, 0, 0, false⟩ := by
  rintro ⟨final, hrun, hiff, -⟩
  obtain ⟨hdefined, hpanic⟩ := Bool.and_eq_true_iff.mp h
  rw [show code.run machine valuation sa patch.id ⟨0, 0, 0, false⟩ = some final from hrun]
    at hpanic
  rw [hiff.mp (by simpa using hpanic)] at hdefined
  cases hdefined

theorem nullTest_dispatch :
    ∃ code next patches, candidateDispatch .default 18 nullTest 1 [] =
        .ok (code, next, [] ++ patches) ∧
      ∃ patch ∈ patches, patch.id = ⟨6, 0, 5, 0, 0⟩ ∧
        faultsOutside (integers decimal) nullPointer nullTest code patch = true := by
  have hcheck : (candidateDispatch .default 18 nullTest 1 []).toOption.any (fun result =>
      result.2.2.any fun patch => patch.id = ⟨6, 0, 5, 0, 0⟩ &&
        faultsOutside (integers decimal) nullPointer nullTest result.1 patch) = true := by
    decide +kernel
  obtain ⟨⟨code, next, patches⟩, hresult, hfound⟩ := eq_ok_of_any hcheck
  obtain ⟨patch, hpatch, hfault⟩ := List.any_eq_true.mp hfound
  obtain ⟨hid, hfault⟩ := Bool.and_eq_true_iff.mp hfault
  exact ⟨code, next, patches, hresult, patch, hpatch, of_decide_eq_true hid, hfault⟩

/-- The patch `p != NULL && p->field == 0` is defined for a null pointer, its run panics. -/
theorem nullTest_skipped_fault :
    ∃ code next patches, candidateDispatch .default 18 nullTest 1 [] =
        .ok (code, next, [] ++ patches) ∧
      ∃ patch ∈ patches, patch.id = ⟨6, 0, 5, 0, 0⟩ ∧
        ¬RunsAsPatch (integers decimal) nullPointer nullTest code patch.id patch.modified
          ⟨0, 0, 0, false⟩ := by
  obtain ⟨code, next, patches, h, patch, hpatch, hid, hfault⟩ := nullTest_dispatch
  exact ⟨code, next, patches, h, patch, hpatch, hid, not_runsAsPatch hfault⟩

theorem candidateDispatch_faults_iff_nullTest :
    ∃ conditions modifications code, ∃ patch : Patch,
      bool2Expressions nullTest.components = .ok conditions ∧
      baseModifications nullTest.schema nullTest.original nullTest.components =
        .ok modifications ∧
      patch.id = ⟨6, 0, 5, 0, 0⟩ ∧
      (RunsAsPatch (integers decimal) nullPointer nullTest code patch.id patch.modified
          ⟨0, 0, 0, false⟩ ↔
        ¬HoistedFault (integers decimal) nullPointer conditions modifications 1
          patch.id) := by
  obtain ⟨code, next, patches, h, patch, hpatch, hid, -⟩ := nullTest_dispatch
  exact ⟨_, _, code, patch, rfl, rfl, hid, candidateDispatch_faults_iff decimal_toString
    nullTest_abstractFree nullTest_scoped rfl rfl h hpatch nullPointer ⟨0, 0, 0, false⟩⟩

end F1X.generator
