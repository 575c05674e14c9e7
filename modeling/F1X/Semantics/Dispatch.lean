import F1X.Semantics.Instances

/-!
# What the emitted dispatch computes

The first switch statement evaluates the condition that an id chooses before
the second one evaluates the base modification.  Where the condition is
defined, the two together are a guarded translation of the base modification
with the condition read at its abstract node; where it is not, they end with
the flag raised.
-/

namespace F1X.generator

open F1X.Library F1X.synthesis

/-! ## The cases -/

/-- Case `i + 1` and case `baseId + j` of the two switch statements. -/
structure Emitted (names : Naming) (baseId : Nat) (conditions : List Expression)
    (modifications : List Modification) (code : DispatchCode) : Prop where
  bool2Cases : ∀ (i : Nat) (condition : Expression), conditions[i]? = some condition →
    ∃ expr, code.bool2Cases[i]? = some expr ∧ names.runtimeExpr condition = .ok expr
  baseCases : ∀ (j : Nat) (m : Modification), modifications[j]? = some m →
    ∃ expr, code.baseCases.lookup (baseId + j) = some expr ∧
      names.runtimeExpr m.1 = .ok expr

private theorem lookup_mapIdx_add {α : Type*} (values : List α) (start j : Nat) :
    (values.mapIdx fun i value => (start + i, value)).lookup (start + j) = values[j]? := by
  induction values generalizing start j with
  | nil => rfl
  | cons value values ih =>
      rw [List.mapIdx_cons, List.lookup_cons]
      cases j with
      | zero => simp
      | succ j =>
          have hne : (start + (j + 1) == start + 0) = false := by simp
          have hnext := ih (start + 1) j
          simp only [Nat.add_assoc, Nat.add_comm 1] at hnext
          rw [hne]
          simpa using hnext

theorem emittedCode_emitted {sa : SchemaApplication} {baseId : Nat}
    {conditions : List Expression} {modifications : List Modification}
    {code : DispatchCode}
    (h : emittedCode sa baseId conditions modifications = .ok code) :
    ∃ names, naming sa = .ok names ∧ Emitted names baseId conditions modifications code := by
  obtain ⟨names, hnames, h⟩ := bind_eq_ok_iff.mp h
  obtain ⟨bool2Cases, hbool2Cases, h⟩ := bind_eq_ok_iff.mp h
  obtain ⟨exprs, hexprs, h⟩ := bind_eq_ok_iff.mp h
  cases h
  refine ⟨names, hnames, fun i condition => mapM_getElem? hbool2Cases, ?_⟩
  intro j m hm
  obtain ⟨expr, hexpr, hcode⟩ := mapM_getElem? hexprs hm
  exact ⟨expr, by rw [lookup_mapIdx_add, hexpr], hcode⟩

/-! ## The run of an id -/

section Run

variable {V : Type*} (machine : CMachine V) (valuation : Valuation V)
  (sa : SchemaApplication)

def runResult (code : DispatchCode) (id : PatchID) (locals : Locals V) : Result V :=
  (code.run machine valuation sa id locals).map fun final =>
    (final.baseValue, final.currentPanic)

theorem runResult_eq_some {machine : CMachine V} {valuation : Valuation V}
    {sa : SchemaApplication} {code : DispatchCode} {id : PatchID} {locals : Locals V}
    {value : V} {raised : Bool} :
    runResult machine valuation sa code id locals = some (value, raised) ↔
      ∃ final, code.run machine valuation sa id locals = some final ∧
        final.baseValue = value ∧ final.currentPanic = raised := by
  simp [runResult]

def baseResult (locals : Locals V) (expr : RuntimeExpr) : Result V :=
  (runtimeResult machine valuation sa locals expr).andThen fun value =>
    some (machine.convert (outputType sa) value, false)

def withParam (id : PatchID) (locals : Locals V) : Locals V :=
  { locals.calm with paramValue := machine.param id.param }

theorem switchBase_result {code : DispatchCode} {id : PatchID} {expr : RuntimeExpr}
    (hexpr : code.baseCases.lookup id.base = some expr) (locals : Locals V) :
    (code.switchBase machine valuation sa id locals).map
        (fun final => (final.baseValue, final.currentPanic)) =
      Result.andThen (some (machine.dummy, locals.currentPanic)) fun _ =>
        baseResult machine valuation sa locals expr := by
  simp only [DispatchCode.switchBase, hexpr, DispatchCode.assign, baseResult, runtimeResult]
  cases expr.term.eval machine.toMachine (runtimeEnv machine valuation sa locals) with
  | none => rfl
  | some pair => simp [Result.andThen]

theorem run_fixed {code : DispatchCode} {id : PatchID} {expr : RuntimeExpr}
    (hbool2 : id.bool2 = 0) (hexpr : code.baseCases.lookup id.base = some expr)
    (locals : Locals V) :
    runResult machine valuation sa code id locals.calm =
      baseResult machine valuation sa (withParam machine id locals) expr := by
  have hbase := switchBase_result machine valuation sa hexpr (withParam machine id locals)
  have hcalm : (withParam machine id locals).currentPanic = false := rfl
  rw [hcalm, Result.andThen_quiet] at hbase
  rw [runResult, DispatchCode.run, DispatchCode.switchBool2, hbool2, ← hbase]
  rfl

/-- The condition is evaluated first, whether the base modification needs it or not. -/
theorem run_condition {code : DispatchCode} {id : PatchID} {i : Nat}
    {condition expr : RuntimeExpr} (hbool2 : id.bool2 = i + 1)
    (hcondition : code.bool2Cases[i]? = some condition)
    (hexpr : code.baseCases.lookup id.base = some expr) (locals : Locals V) :
    runResult machine valuation sa code id locals.calm =
      (runtimeResult machine valuation sa (withParam machine id locals) condition).andThen
        fun value => baseResult machine valuation sa
          { withParam machine id locals with
            bool2Value := machine.flag (machine.truth value) } expr := by
  have hbase := switchBase_result machine valuation sa hexpr
  have hcalm : ({ locals.calm with paramValue := machine.param id.param } : Locals V) =
      withParam machine id locals := rfl
  rw [runResult, DispatchCode.run, DispatchCode.switchBool2, hbool2]
  simp only [hcondition, DispatchCode.assign, runtimeResult, hcalm]
  cases condition.term.eval machine.toMachine
      (runtimeEnv machine valuation sa (withParam machine id locals)) with
  | none => rfl
  | some pair =>
      obtain ⟨value, raised⟩ := pair
      simp only [Option.bind_some, hbase]
      rfl

end Run

/-! ## The run against the patch -/

section Translation

variable {V : Type*} {machine : CMachine V} (hlaw : machine.Lawful)
  (hboolean : machine.Boolean) {total : Prop} (htotal : total → machine.Total)
  (valuation : Valuation V) {sa : SchemaApplication} (hscoped : sa.Scoped) {names : Naming}
  (hnaming : naming sa = .ok names)

def stored (machine : CMachine V) (sa : SchemaApplication) (result : Result V) : Result V :=
  result.andThen fun value => some (machine.convert (outputType sa) value, false)

theorem stored_eq_some {result : Result V} {value : V} {raised : Bool} :
    stored machine sa result = some (value, raised) ↔
      ∃ before, result = some (before, raised) ∧
        machine.convert (outputType sa) before = value := by
  cases result with
  | none => simp [stored]
  | some pair =>
      obtain ⟨before, raised⟩ := pair
      simp [stored, Result.andThen]
      tauto

include hlaw htotal hscoped hnaming in
theorem expr_guarded (locals : Locals V) {expression : Expression}
    (hscope : InScope sa expression) {expr : RuntimeExpr}
    (hexpr : names.runtimeExpr expression = .ok expr) :
    Guarded total (sourceResult machine valuation locals expression)
      (runtimeResult machine valuation sa locals expr) :=
  runtimeExpr_guarded hlaw htotal valuation (parameterNames_nodup hscoped.builtin) hnaming
    locals hscoped.pointees hscope hexpr

include hlaw htotal hscoped hnaming in
theorem baseResult_guarded (locals : Locals V) {expression : Expression}
    (hscope : InScope sa expression) {expr : RuntimeExpr}
    (hexpr : names.runtimeExpr expression = .ok expr) :
    Guarded total (stored machine sa (sourceResult machine valuation locals expression))
      (baseResult machine valuation sa locals expr) :=
  (expr_guarded hlaw htotal valuation hscoped hnaming locals hscope hexpr).andThen
    fun _ => .value _

include hboolean in
private theorem condition_flag {condition : Expression} (atomic : Atomic sa.components condition)
    {parameter bool2 : Result V} {value : V} {raised : Bool}
    (h : evaluateWith machine valuation parameter bool2 condition = some (value, raised)) :
    machine.flag (machine.truth value) = value := by
  obtain ⟨op, left, right, rfl, hop⟩ := atomic.comparison
  have hpointer : ¬(op = .ptrAdd ∨ op = .ptrSub) := by
    rintro (rfl | rfl) <;> simp at hop
  obtain ⟨binary, htext, hbool⟩ : ∃ binary,
      BinaryOp.ofText (operatorText op) = some binary ∧ binary.isBoolean = true := by
    simp only [List.mem_cons, List.not_mem_nil, or_false] at hop
    rcases hop with rfl | rfl | rfl | rfl | rfl | rfl <;> exact ⟨_, rfl, rfl⟩
  rw [evaluateWith, applyBoolOperator, sourceTerm, if_neg hpointer, binaryTerm, htext] at h
  exact hboolean.eval hbool h

/-- What the run of an id relies on: the code of its base modification and of its condition. -/
structure Runs (sa : SchemaApplication) (names : Naming) (conditions : List Expression)
    (code : DispatchCode) (id : PatchID) (expression : Expression) : Prop where
  scope : InScope sa expression
  base : ∃ expr, code.baseCases.lookup id.base = some expr ∧
    names.runtimeExpr expression = .ok expr
  fixed : id.bool2 = 0 → hasNodeOfKind .bool2 expression = false
  condition : ∀ i, id.bool2 = i + 1 → ∃ condition expr, conditions[i]? = some condition ∧
    code.bool2Cases[i]? = some expr ∧ names.runtimeExpr condition = .ok expr ∧
    Atomic sa.components condition ∧ hasNodeOfKind .bool2 condition = false

variable {conditions : List Expression} {code : DispatchCode} {id : PatchID}
  {expression : Expression} (hruns : Runs sa names conditions code id expression)

/-- The instance of an id with its condition evaluated first, needed or not. -/
def eagerResult (machine : CMachine V) (valuation : Valuation V) (parameter : V)
    (conditions : List Expression) (bool2 : Nat) (expression : Expression) : Result V :=
  match bool2 with
  | 0 => instanceResult machine valuation parameter conditions 0 expression
  | i + 1 => (conditionResult machine valuation parameter conditions (i + 1)).andThen
      fun _ => instanceResult machine valuation parameter conditions (i + 1) expression

include hlaw htotal hscoped hnaming hruns in
private theorem run_guarded_fixed (hbool2 : id.bool2 = 0) (locals : Locals V) :
    Guarded total
      (stored machine sa (instanceResult machine valuation (machine.param id.param)
        conditions 0 expression))
      (runResult machine valuation sa code id locals.calm) := by
  obtain ⟨expr, hlookup, hexpr⟩ := hruns.base
  have hguarded := baseResult_guarded hlaw htotal valuation hscoped hnaming
    (withParam machine id locals) hruns.scope hexpr
  have hread := evaluateWith_bool2_eq machine valuation hruns.scope (hruns.fixed hbool2)
    (some (machine.param id.param, false)) (some (locals.bool2Value, false)) none
  rw [run_fixed machine valuation sa hbool2 hlookup, instanceResult]
  rw [sourceResult] at hguarded
  exact hread ▸ hguarded

include hlaw htotal hscoped hnaming hruns in
theorem condition_guarded {i : Nat} (hbool2 : id.bool2 = i + 1) (locals : Locals V) :
    ∃ condition conditionExpr, code.bool2Cases[i]? = some conditionExpr ∧
      Atomic sa.components condition ∧
      conditionResult machine valuation (machine.param id.param) conditions (i + 1) =
        sourceResult machine valuation (withParam machine id locals) condition ∧
      Guarded total
        (sourceResult machine valuation (withParam machine id locals) condition)
        (runtimeResult machine valuation sa (withParam machine id locals)
          conditionExpr) := by
  obtain ⟨condition, conditionExpr, hget, hcase, hcode, hatomic, hflat⟩ :=
    hruns.condition i hbool2
  have hscope := hatomic.inScope hscoped
  refine ⟨condition, conditionExpr, hcase, hatomic, ?_,
    expr_guarded hlaw htotal valuation hscoped hnaming _ hscope hcode⟩
  rw [conditionResult, chosenCondition, hget]
  exact evaluateWith_bool2_eq machine valuation hscope hflat _ none _

include hlaw htotal hscoped hnaming hruns in
private theorem condition_quiet {i : Nat} (hbool2 : id.bool2 = i + 1) (locals : Locals V)
    {value : V}
    {raised : Bool} (h : conditionResult machine valuation (machine.param id.param) conditions
      (i + 1) = some (value, raised)) : raised = false := by
  obtain ⟨condition, conditionExpr, -, -, hread, hsource⟩ :=
    condition_guarded hlaw htotal valuation hscoped hnaming hruns hbool2 locals
  exact (hsource.eq_some (hread.symm.trans h)).1

include hlaw hboolean htotal hscoped hnaming hruns in
private theorem run_guarded_condition {i : Nat} (hbool2 : id.bool2 = i + 1) (locals : Locals V) :
    Guarded total
      ((conditionResult machine valuation (machine.param id.param) conditions
        (i + 1)).andThen fun _ =>
          stored machine sa (instanceResult machine valuation (machine.param id.param)
            conditions (i + 1) expression))
      (runResult machine valuation sa code id locals.calm) := by
  obtain ⟨expr, hlookup, hexpr⟩ := hruns.base
  obtain ⟨condition, conditionExpr, hcase, hatomic, hread, hsource⟩ :=
    condition_guarded hlaw htotal valuation hscoped hnaming hruns hbool2 locals
  have hbase := fun bool2Value => baseResult_guarded hlaw htotal valuation hscoped hnaming
    { withParam machine id locals with bool2Value := bool2Value } hruns.scope hexpr
  rw [run_condition machine valuation sa hbool2 hcase hlookup, hread]
  cases hcondition : sourceResult machine valuation (withParam machine id locals)
      condition with
  | some pair =>
      obtain ⟨value, raised⟩ := pair
      obtain ⟨rfl, htarget⟩ := hsource.eq_some hcondition
      have hflag := condition_flag hboolean valuation hatomic hcondition
      rw [htarget, Result.andThen_quiet, Result.andThen_quiet, hflag, instanceResult, hread,
        hcondition]
      exact hbase value
  | none =>
      rw [hcondition] at hsource
      generalize runtimeResult machine valuation sa (withParam machine id locals)
        conditionExpr = target at hsource ⊢
      cases hsource with
      | fault value => exact .afterFault value (hbase _).defined
      | trap htrap => exact .trap htrap

include hlaw htotal hscoped hnaming hruns in
theorem eagerResult_of_defined (hdefined : id.bool2 = 0 ∨
      conditionResult machine valuation (machine.param id.param) conditions id.bool2 ≠ none)
    (locals : Locals V) :
    eagerResult machine valuation (machine.param id.param) conditions id.bool2 expression =
      instanceResult machine valuation (machine.param id.param) conditions id.bool2
        expression := by
  cases hbool2 : id.bool2 with
  | zero => rfl
  | succ i =>
      obtain ⟨⟨value, raised⟩, hcondition⟩ :=
        Option.ne_none_iff_exists'.mp (hdefined.resolve_left (by simp [hbool2]))
      rw [hbool2] at hcondition
      cases condition_quiet hlaw htotal valuation hscoped hnaming hruns hbool2 locals
        hcondition
      rw [eagerResult, hcondition, Result.andThen_quiet]

theorem eagerResult_of_undefined {parameter : V} (hbool2 : id.bool2 ≠ 0)
    (hcondition : conditionResult machine valuation parameter conditions id.bool2 = none) :
    eagerResult machine valuation parameter conditions id.bool2 expression = none := by
  obtain ⟨i, hi⟩ := Nat.exists_eq_succ_of_ne_zero hbool2
  rw [hi] at hcondition ⊢
  rw [eagerResult, hcondition, Result.andThen_none]

include hlaw hboolean htotal hscoped hnaming hruns in
/-- The run of an id is a guarded translation of its instance, condition first. -/
theorem run_guarded (locals : Locals V) :
    Guarded total
      (stored machine sa (eagerResult machine valuation (machine.param id.param) conditions
        id.bool2 expression))
      (runResult machine valuation sa code id locals.calm) := by
  cases hbool2 : id.bool2 with
  | zero => exact run_guarded_fixed hlaw htotal valuation hscoped hnaming hruns hbool2 locals
  | succ i =>
      rw [eagerResult, stored, Result.andThen_assoc]
      exact run_guarded_condition hlaw hboolean htotal valuation hscoped hnaming hruns hbool2
        locals

end Translation

/-! ## The patches of a schema application -/

section Patches

variable {sa : SchemaApplication} (hfree : sa.AbstractFree) (hscoped : sa.Scoped)
  {conditions : List Expression} {modifications : List Modification}
  (hconditions : bool2Expressions sa.components = .ok conditions)
  (hmodifications : baseModifications sa.schema sa.original sa.components =
    .ok modifications)

include hfree hscoped hconditions hmodifications in
theorem Decodes.runs {names : Naming} {baseId paramBound j : Nat} {code : DispatchCode}
    (hcode : Emitted names baseId conditions modifications code)
    {m : Modification} (hm : modifications[j]? = some m) {id : PatchID}
    {modified : Expression}
    (decodes : Decodes conditions paramBound (baseId + j) m.1 id modified) :
    Runs sa names conditions code id m.1 := by
  obtain ⟨chosen, hchosen, -⟩ := decodes.choice
  refine ⟨baseModifications_inScope hscoped hmodifications m (List.mem_of_getElem? hm), ?_,
    ?_, ?_⟩
  · rw [decodes.base]
    exact hcode.baseCases j m hm
  · intro hbool2
    rw [hbool2] at hchosen
    cases hchosen with
    | fixed h => exact h
  · intro i hbool2
    rw [hbool2] at hchosen
    cases hchosen with
    | condition i hi =>
        have hget := List.getElem?_eq_getElem hi
        obtain ⟨expr, hcase, hexpr⟩ := hcode.bool2Cases i _ hget
        have hatomic := bool2Expressions_atomic hconditions _ (List.getElem_mem hi)
        exact ⟨conditions[i], expr, hget, hcase, hexpr, hatomic,
          (hatomic.parametric hfree.components).not_hasNode rfl⟩

include hfree hscoped hconditions hmodifications in
theorem Decodes.evaluate_patch {V : Type*} (machine : CMachine V) (valuation : Valuation V)
    {base paramBound j : Nat} {m : Modification} (hm : modifications[j]? = some m)
    {id : PatchID} {modified : Expression}
    (decodes : Decodes conditions paramBound base m.1 id modified) :
    F1X.evaluate machine valuation modified =
      instanceResult machine valuation (machine.literal "int" (toString id.param))
        conditions id.bool2 m.1 := by
  have hmem := List.mem_of_getElem? hm
  exact decodes.evaluate machine valuation
    (modifications_schematic hfree hmodifications m hmem)
    (conditions_parametric hfree hconditions)
    (baseModifications_inScope hscoped hmodifications m hmem)
    fun condition hcondition =>
      (bool2Expressions_atomic hconditions condition hcondition).inScope hscoped

include hfree hscoped hconditions hmodifications in
theorem candidateDispatch_runs {cfg : Config} {fuel baseId next : Nat}
    {ss patches : List Patch} {code : DispatchCode}
    (h : candidateDispatch cfg fuel sa baseId ss = .ok (code, next, ss ++ patches))
    {patch : Patch} (hpatch : patch ∈ patches) :
    ∃ names m, naming sa = .ok names ∧
      modifications[patch.id.base - baseId]? = some m ∧
      Decodes conditions (cfg.paramBound sa.context) patch.id.base m.1 patch.id
        patch.modified ∧
      Runs sa names conditions code patch.id m.1 := by
  obtain ⟨-, code', hcode, heq⟩ :=
    (candidateDispatch_eq_ok hfree hconditions hmodifications cfg fuel baseId ss _).mp h
  simp only [Prod.mk.injEq, List.append_cancel_left_eq] at heq
  obtain ⟨rfl, -, rfl⟩ := heq
  obtain ⟨-, j, hj, -, hdecodes⟩ := mem_basePatches.mp hpatch
  have hm := List.getElem?_eq_getElem hj
  obtain ⟨names, hnaming, hemitted⟩ := emittedCode_emitted hcode
  refine ⟨names, modifications[j], hnaming, ?_, ?_,
    hdecodes.runs hfree hscoped hconditions hmodifications hemitted hm⟩
  · rw [hdecodes.base, Nat.add_sub_cancel_left, hm]
  · rw [hdecodes.base]
    exact hdecodes

end Patches

end F1X.generator
