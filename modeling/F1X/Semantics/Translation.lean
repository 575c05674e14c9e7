import F1X.Semantics.Naming

/-!
# The emitted expressions guard the source expressions

An expression in scope names only components, knows the sizes that its pointer
arithmetic needs and is otherwise well-formed.  Edits stay in scope, and the
code emitted for an expression in scope is a guarded translation of it.
-/

namespace F1X

open F1X.Library

def isPointerArithmetic (op : Operator) : Prop := op = .ptrAdd ∨ op = .ptrSub

/-- What the generated function can evaluate. -/
inductive InScope (sa : SchemaApplication) : Expression → Prop
  | constant (type : ExprType) (rawType repr : String) :
      InScope sa ⟨.constant, type, .none, rawType, repr, []⟩
  | named (type : ExprType) (rawType : String) {repr : String}
      (hrepr : repr ∈ sa.components.map (·.repr)) :
      InScope sa ⟨.variable, type, .none, rawType, repr, []⟩
  | dereference (type : ExprType) (rawType : String) {repr : String}
      (hrepr : repr ∈ generator.dereferences sa.components) :
      InScope sa ⟨.dereference, type, .none, rawType, repr, []⟩
  | parameter : InScope sa parameterNode
  | bool2 : InScope sa bool2Node
  | unary (type : ExprType) {op : Operator} (rawType : String) {arg : Expression}
      (hop : isUnaryOperator op = true) (harg : InScope sa arg) :
      InScope sa ⟨.operator, type, op, rawType, operatorText op, [arg]⟩
  | binary (type : ExprType) {op : Operator} (rawType : String) {left right : Expression}
      (hop : isBinaryOperator op = true) (hpointer : ¬isPointerArithmetic op)
      (hleft : InScope sa left) (hright : InScope sa right) :
      InScope sa ⟨.operator, type, op, rawType, operatorText op, [left, right]⟩
  | shift (type : ExprType) {op : Operator} (rawType : String) {left right : Expression}
      (hop : isPointerArithmetic op) (htype : left.type = .pointer)
      (hsize : left.rawType ∈ sa.completePointeeTypes)
      (hleft : InScope sa left) (hright : InScope sa right) :
      InScope sa ⟨.operator, type, op, rawType, operatorText op, [left, right]⟩

theorem isPointerArithmetic.binary {op : Operator} (h : isPointerArithmetic op) :
    isBinaryOperator op = true := by
  rcases h with rfl | rfl <;> rfl

theorem not_isPointerArithmetic {op : Operator}
    (h : op ∈ [Operator.eq, .neq, .lt, .le, .gt, .ge, .or, .and]) :
    ¬isPointerArithmetic op := by
  rintro (rfl | rfl) <;> simp at h

theorem InScope.operator {sa : SchemaApplication} (type : ExprType) {op : Operator}
    (rawType : String) {left right : Expression} (hop : isBinaryOperator op = true)
    (hshift : isPointerArithmetic op →
      left.type = .pointer ∧ left.rawType ∈ sa.completePointeeTypes)
    (hleft : InScope sa left) (hright : InScope sa right) :
    InScope sa ⟨.operator, type, op, rawType, operatorText op, [left, right]⟩ := by
  by_cases hpointer : isPointerArithmetic op
  · exact .shift type rawType hpointer (hshift hpointer).1 (hshift hpointer).2 hleft hright
  · exact .binary type rawType hop hpointer hleft hright

theorem InScope.unary_args {sa : SchemaApplication} {expr arg : Expression}
    (h : InScope sa expr) (hargs : expr.args = [arg]) :
    ∃ type op rawType, isUnaryOperator op = true ∧ InScope sa arg ∧
      expr = ⟨.operator, type, op, rawType, operatorText op, [arg]⟩ := by
  cases h with
  | constant | named | dereference | parameter | bool2 => cases hargs
  | unary type rawType hop harg =>
      cases hargs
      exact ⟨type, _, rawType, hop, harg, rfl⟩
  | binary | shift => cases hargs

theorem InScope.binary_args {sa : SchemaApplication} {expr left right : Expression}
    (h : InScope sa expr) (hargs : expr.args = [left, right]) :
    ∃ type op rawType, isBinaryOperator op = true ∧
      (isPointerArithmetic op →
        left.type = .pointer ∧ left.rawType ∈ sa.completePointeeTypes) ∧
      InScope sa left ∧ InScope sa right ∧
      expr = ⟨.operator, type, op, rawType, operatorText op, [left, right]⟩ := by
  cases h with
  | constant | named | dereference | parameter | bool2 => cases hargs
  | unary => cases hargs
  | binary type rawType hop hpointer hleft hright =>
      cases hargs
      exact ⟨type, _, rawType, hop, fun hshift => absurd hshift hpointer, hleft, hright, rfl⟩
  | shift type rawType hop htype hsize hleft hright =>
      cases hargs
      exact ⟨type, _, rawType, hop.binary, fun _ => ⟨htype, hsize⟩, hleft, hright, rfl⟩

theorem InScope.wellFormed {sa : SchemaApplication} {expression : Expression}
    (h : InScope sa expression) : expression.WellFormed := by
  induction h with
  | constant | named | dereference | parameter | bool2 => exact .leaf _ _ _ _
  | unary type rawType hop _ ih => exact .unary type rawType hop ih
  | binary type rawType hop _ _ _ ihLeft ihRight =>
      exact .binary type rawType hop ihLeft ihRight
  | shift type rawType hop _ _ _ _ ihLeft ihRight =>
      exact .binary type rawType hop.binary ihLeft ihRight

/--
What the transformer records about a location: the names of the expression are
components, components are in scope themselves, integer types are spelled as
builtin types, and the sizes are those of pointer components.
-/
structure SchemaApplication.Scoped (sa : SchemaApplication) : Prop where
  original : InScope sa sa.original
  components : ∀ component ∈ sa.components, InScope sa component
  builtin : ∀ c ∈ sa.components, c.type = .integer → c.rawType ∈ generator.builtinTypes
  pointees : ∀ type ∈ sa.completePointeeTypes,
    ∃ c ∈ sa.components, c.type = .pointer ∧ c.rawType = type

theorem SchemaApplication.Scoped.wellFormed {sa : SchemaApplication} (h : sa.Scoped) :
    sa.WellFormed :=
  ⟨h.original.wellFormed, fun component hmem => (h.components component hmem).wellFormed⟩

theorem inScope_applyBoolOperator {sa : SchemaApplication} {left right : Expression}
    (hleft : InScope sa left) (hright : InScope sa right) {op : Operator}
    (hop : op ∈ [Operator.eq, .neq, .lt, .le, .gt, .ge, .or, .and]) :
    InScope sa (applyBoolOperator op left right) := by
  refine .binary .boolean defaultBooleanType ?_ (not_isPointerArithmetic hop) hleft hright
  revert op
  decide

theorem inScope_castUnsigned {sa : SchemaApplication} {expression : Expression}
    (h : InScope sa expression) :
    InScope sa (wrapWithExplicitUnsignedCast expression) :=
  .unary .integer explicitUnsignedCastType rfl h

namespace synthesis

theorem mutatedOperators_pointer {expr first : Expression} {operators : List Operator}
    (h : mutatedOperators expr first = .ok operators) {op : Operator}
    (hop : op ∈ operators) : isPointerArithmetic op ↔ isPointerArithmetic expr.op := by
  unfold mutatedOperators at h
  unfold isPointerArithmetic
  generalize expr.op = original at h ⊢
  split at h <;> cases original <;> cases h <;> revert op <;> decide

theorem Edit.inScope {sa : SchemaApplication} (hscoped : sa.Scoped)
    {expr modified : Expression} {metadata : PatchMetadata}
    (edit : Edit sa.components expr modified metadata) (h : InScope sa expr) :
    InScope sa modified := by
  induction edit with
  | condition => exact .bool2
  | parametrize | concretize => exact .parameter
  | generalize _ _ _ hmem | substitute _ _ _ hmem | redirect _ _ _ hmem =>
      exact hscoped.components _ hmem
  | nullify => exact .constant _ _ _
  | mutate hfirst hoperators hmem =>
      obtain ⟨-, hmutant⟩ := mutatedOperators_binary hoperators hmem
      have hpointer := mutatedOperators_pointer hoperators hmem
      cases h with
      | constant | named | dereference | parameter | bool2 => cases hfirst
      | unary _ _ hop =>
          have hbinary := (mutatedOperators_binary hoperators hmem).1
          simp [isBinaryOperator, hop] at hbinary
      | binary type rawType _ hnot hleft hright =>
          exact .binary type rawType hmutant (mt hpointer.mp hnot) hleft hright
      | shift type rawType hop htype hsize hleft hright =>
          exact .shift type rawType (hpointer.mpr hop) htype hsize hleft hright
  | arg hargs _ ih =>
      obtain ⟨type, op, rawType, hop, harg, rfl⟩ := h.unary_args hargs
      exact .unary type rawType hop (ih harg)
  | left hargs noPointer _ ih =>
      obtain ⟨type, op, rawType, hop, -, hleft, hright, rfl⟩ := h.binary_args hargs
      exact .binary type rawType hop (not_or.mpr noPointer) (ih hleft) hright
  | right hargs _ ih =>
      obtain ⟨type, op, rawType, hop, hshift, hleft, hright, rfl⟩ := h.binary_args hargs
      exact .operator type rawType hop hshift hleft (ih hright)
  | castLeft hargs integer =>
      obtain ⟨type, op, rawType, hop, hshift, hleft, hright, rfl⟩ := h.binary_args hargs
      have hpointer : ¬ isPointerArithmetic op := by
        intro hpointer
        rw [(hshift hpointer).1] at integer
        cases integer
      exact .binary type rawType hop hpointer (inScope_castUnsigned hleft) hright
  | castRight hargs =>
      obtain ⟨type, op, rawType, hop, hshift, hleft, hright, rfl⟩ := h.binary_args hargs
      exact .operator type rawType hop hshift hleft (inScope_castUnsigned hright)
  | simplifyArg hargs =>
      obtain ⟨-, -, -, -, harg, -⟩ := h.unary_args hargs
      exact harg
  | simplifyLeft hargs =>
      obtain ⟨-, -, -, -, -, hleft, -, -⟩ := h.binary_args hargs
      exact hleft
  | simplifyRight hargs =>
      obtain ⟨-, -, -, -, -, -, hright, -⟩ := h.binary_args hargs
      exact hright

theorem baseModifications_inScope {sa : SchemaApplication} (hscoped : sa.Scoped)
    {modifications : List Modification}
    (h : baseModifications sa.schema sa.original sa.components = .ok modifications) :
    ∀ m ∈ modifications, InScope sa m.1 :=
  baseModifications_forall (fun _ _ _ edit => edit.inScope hscoped hscoped.original)
    (fun _ => inScope_applyBoolOperator hscoped.original .bool2 (by decide))
    (fun _ => inScope_applyBoolOperator hscoped.original .bool2 (by decide))
    (.constant _ _ _) (.constant _ _ _) .bool2 h

theorem Atomic.inScope {sa : SchemaApplication} (hscoped : sa.Scoped)
    {condition : Expression} (atomic : Atomic sa.components condition) :
    InScope sa condition := by
  have hcomponent := hscoped.components
  cases atomic with
  | null op hleft hop =>
      apply inScope_applyBoolOperator (hcomponent _ hleft) (.constant _ _ _)
      rcases hop with rfl | rfl <;> decide
  | pointers op hleft hright hop =>
      apply inScope_applyBoolOperator (hcomponent _ hleft) (hcomponent _ hright)
      rcases hop with rfl | rfl <;> decide
  | parameter op hleft hop =>
      apply inScope_applyBoolOperator (hcomponent _ hleft) .parameter
      revert op
      decide
  | integers op hleft hright hop =>
      apply inScope_applyBoolOperator (hcomponent _ hleft) (hcomponent _ hright)
      revert op
      decide

end synthesis

/-! ## Operators by text -/

theorem unaryOp_ofText {op : Operator} (h : isUnaryOperator op = true) :
    ∃ unary, UnaryOp.ofText (operatorText op) = some unary := by
  cases op <;> first | exact ⟨_, rfl⟩ | cases h

theorem binaryOp_ofText {op : Operator} (h : isBinaryOperator op = true) :
    ∃ binary, BinaryOp.ofText (operatorText op) = some binary ∧
      (binary.IsDivision ↔ op = .div ∨ op = .mod) := by
  cases op <;> first
    | exact ⟨_, rfl, by simp [BinaryOp.IsDivision]⟩
    | cases h

/-! ## The code of every node -/

namespace generator

section Nodes

variable {names : Naming} {type : ExprType} {op : Operator} {rawType : String}
  {expr : RuntimeExpr}

theorem runtimeExpr_unary {arg : Expression} (hop : isUnaryOperator op = true)
    (h : names.runtimeExpr ⟨.operator, type, op, rawType, operatorText op, [arg]⟩ =
      .ok expr) :
    ∃ argExpr, names.runtimeExpr arg = .ok argExpr ∧
      expr = .unary (operatorText op) argExpr := by
  have hpointer : ¬(op = .ptrAdd ∨ op = .ptrSub) := by
    rintro (rfl | rfl) <;> cases hop
  have hdivision : ¬(op = .div ∨ op = .mod) := by
    rintro (rfl | rfl) <;> cases hop
  rw [Naming.runtimeExpr, substituteWithRuntimeRepr, if_neg (by simp), substituteArgs,
    substituteArgs, runtimeSemantics, if_neg hpointer, if_neg hdivision] at h
  obtain ⟨argExpr, harg, h⟩ := bind_eq_ok_iff.mp h
  cases h
  exact ⟨argExpr, harg, rfl⟩

theorem runtimeExpr_binary {left right : Expression} (hop : isBinaryOperator op = true)
    (hpointer : ¬isPointerArithmetic op)
    (h : names.runtimeExpr ⟨.operator, type, op, rawType, operatorText op, [left, right]⟩ =
      .ok expr) :
    ∃ leftExpr rightExpr, names.runtimeExpr left = .ok leftExpr ∧
      names.runtimeExpr right = .ok rightExpr ∧
      expr = if op = .div ∨ op = .mod then
          .guardedDivision leftExpr (operatorText op) rightExpr
        else .binary leftExpr (operatorText op) rightExpr := by
  have hnone : op ≠ .none := by
    rintro rfl
    cases hop
  rw [Naming.runtimeExpr, substituteWithRuntimeRepr, if_neg (by simp), substituteArgs,
    substituteArgs, substituteArgs, runtimeSemantics,
    if_neg (show ¬(op = .ptrAdd ∨ op = .ptrSub) from hpointer)] at h
  split at h
  · rename_i hdivision
    obtain ⟨rightExpr, hright, h⟩ := bind_eq_ok_iff.mp h
    obtain ⟨leftExpr, hleft, h⟩ := bind_eq_ok_iff.mp h
    rw [operatorToString, if_neg hnone] at h
    cases h
    exact ⟨leftExpr, rightExpr, hleft, hright, by rw [if_pos hdivision]⟩
  · rename_i hdivision
    obtain ⟨leftExpr, hleft, h⟩ := bind_eq_ok_iff.mp h
    obtain ⟨rightExpr, hright, h⟩ := bind_eq_ok_iff.mp h
    cases h
    exact ⟨leftExpr, rightExpr, hleft, hright, by rw [if_neg hdivision]⟩

theorem runtimeExpr_shift {left right : Expression} (hop : isPointerArithmetic op)
    (h : names.runtimeExpr ⟨.operator, type, op, rawType, operatorText op, [left, right]⟩ =
      .ok expr) :
    ∃ leftExpr rightExpr, names.runtimeExpr left = .ok leftExpr ∧
      names.runtimeExpr right = .ok rightExpr ∧
      expr = .pointerShift leftExpr (operatorText op) (names.sizeByType left.rawType)
        rightExpr := by
  have hnone : op ≠ .none := by
    rintro rfl
    rcases hop with h | h <;> cases h
  have hraw : (substituteWithRuntimeRepr names.runtimeReprBySource left).rawType =
      left.rawType := by
    obtain ⟨kind, type, op, rawType, repr, args⟩ := left
    rw [substituteWithRuntimeRepr]
    split <;> rfl
  rw [Naming.runtimeExpr, substituteWithRuntimeRepr, if_neg (by simp), substituteArgs,
    substituteArgs, substituteArgs, runtimeSemantics,
    if_pos (show op = .ptrAdd ∨ op = .ptrSub from hop)] at h
  obtain ⟨leftExpr, hleft, h⟩ := bind_eq_ok_iff.mp h
  obtain ⟨text, htext, h⟩ := bind_eq_ok_iff.mp h
  obtain ⟨rightExpr, hright, h⟩ := bind_eq_ok_iff.mp h
  rw [operatorToString, if_neg hnone] at htext
  cases htext
  cases h
  exact ⟨leftExpr, rightExpr, hleft, hright, by rw [hraw]⟩

end Nodes

/-! ## The translation -/

/--
An expression whose names the environment of the emitted code knows: a name
carries the value of the component, a null flag says whether its base is null,
and a size is that of the pointee.
-/
inductive Carries {V : Type*} (machine : CMachine V) (valuation : Valuation V)
    (parameter bool2 : Result V) (names : Naming) (env : RuntimeAtom → Result V) :
    Expression → Prop
  | constant (type : ExprType) {rawType repr : String}
      (hvalue : env (.constant rawType repr) = some (machine.literal rawType repr, false)) :
      Carries machine valuation parameter bool2 names env
        ⟨.constant, type, .none, rawType, repr, []⟩
  | named (type : ExprType) (rawType : String) {repr : String}
      (hvalue : env (.name (names.runtimeReprBySource repr)) =
        some (valuation.value repr, false)) :
      Carries machine valuation parameter bool2 names env
        ⟨.variable, type, .none, rawType, repr, []⟩
  | dereference (type : ExprType) (rawType : String) {repr : String}
      (hvalue : env (.name (names.runtimeReprBySource repr)) =
        some (valuation.value repr, false))
      (hflag : env (.name (names.nullDerefByName (names.runtimeReprBySource repr))) =
        some (machine.flag (valuation.isNull repr), false)) :
      Carries machine valuation parameter bool2 names env
        ⟨.dereference, type, .none, rawType, repr, []⟩
  | parameter {value : V} (hsource : parameter = some (value, false))
      (hvalue : env .parameter = some (value, false)) :
      Carries machine valuation parameter bool2 names env parameterNode
  | bool2 {value : V} (hsource : bool2 = some (value, false))
      (hvalue : env .bool2 = some (value, false)) :
      Carries machine valuation parameter bool2 names env bool2Node
  | unary (type : ExprType) {op : Operator} (rawType : String) {arg : Expression}
      (hop : isUnaryOperator op = true)
      (harg : Carries machine valuation parameter bool2 names env arg) :
      Carries machine valuation parameter bool2 names env
        ⟨.operator, type, op, rawType, operatorText op, [arg]⟩
  | binary (type : ExprType) {op : Operator} (rawType : String) {left right : Expression}
      (hop : isBinaryOperator op = true)
      (hsize : isPointerArithmetic op → env (.name (names.sizeByType left.rawType)) =
        some (valuation.sizeof left.rawType, false))
      (hleft : Carries machine valuation parameter bool2 names env left)
      (hright : Carries machine valuation parameter bool2 names env right) :
      Carries machine valuation parameter bool2 names env
        ⟨.operator, type, op, rawType, operatorText op, [left, right]⟩

section Guards

variable {V : Type*} {machine : CMachine V} {total : Prop} (hlaw : machine.Lawful)
  (htotal : total → machine.Total) {valuation : Valuation V} {parameter bool2 : Result V}
  {names : Naming} {env : RuntimeAtom → Result V}

include hlaw in
private theorem dereference_guarded {type : ExprType} {rawType repr : String} {expr : RuntimeExpr}
    (hvalue : env (.name (names.runtimeReprBySource repr)) =
      some (valuation.value repr, false))
    (hflag : env (.name (names.nullDerefByName (names.runtimeReprBySource repr))) =
      some (machine.flag (valuation.isNull repr), false))
    (hexpr : names.runtimeExpr ⟨.dereference, type, .none, rawType, repr, []⟩ = .ok expr) :
    Guarded total
      (evaluateWith machine valuation parameter bool2
        ⟨.dereference, type, .none, rawType, repr, []⟩)
      (expr.term.eval machine.toMachine env) := by
  cases hexpr
  simp only [evaluateWith, sourceTerm, SourceAtom.ofLeaf, RuntimeExpr.term, Term.eval,
    Valuation.env, hvalue, hflag, Result.andThen_quiet, hlaw.truth_flag]
  cases valuation.isNull repr with
  | true => exact .fault _
  | false => exact .value _

include hlaw htotal in
private theorem division_guarded {left right : CTerm SourceAtom} {leftExpr rightExpr : RuntimeExpr}
    {source : SourceAtom → Result V} {op : Operator} (hdivision : op = .div ∨ op = .mod)
    (hzero : env (.constant "int" "0") = some (machine.zero, false))
    (hleft : Guarded total (left.eval machine.toMachine source)
      (leftExpr.term.eval machine.toMachine env))
    (hright : Guarded total (right.eval machine.toMachine source)
      (rightExpr.term.eval machine.toMachine env)) :
    Guarded total
      ((binaryTerm .illegal left (operatorText op) right).eval machine.toMachine source)
      ((RuntimeExpr.guardedDivision leftExpr (operatorText op) rightExpr).term.eval
        machine.toMachine env) := by
  have hbinary : isBinaryOperator op = true := by
    rcases hdivision with rfl | rfl <;> rfl
  obtain ⟨binary, htext, hiff⟩ := binaryOp_ofText hbinary
  have hop := hiff.mpr hdivision
  have htest : (Term.binary .ne rightExpr.term (.atom (.constant "int" "0"))).eval
      machine.toMachine env =
      (rightExpr.term.eval machine.toMachine env).andThen fun other =>
        some (machine.nonZero other, false) := by
    rw [Term.eval]
    congr 1
    funext other
    obtain ⟨hdecided, hne⟩ := hlaw.test other
    simp only [hdecided, Term.eval, hzero, Result.andThen_quiet]
    exact congrArg Result.quiet hne
  rw [RuntimeExpr.term, Term.eval, htest]
  simp only [binaryTerm, htext, Term.eval]
  exact Guarded.division machine.toMachine hleft hright
    (fun value => hlaw.decided binary value hop)
    (fun value other => hlaw.divide binary value other hop)
    (fun h value other => (htotal h).divide binary value other hop)

include htotal in
private theorem binary_guarded {left right : CTerm SourceAtom} {leftExpr rightExpr : RuntimeExpr}
    {source : SourceAtom → Result V} {op : Operator} (hop : isBinaryOperator op = true)
    (hdivision : ¬(op = .div ∨ op = .mod))
    (hleft : Guarded total (left.eval machine.toMachine source)
      (leftExpr.term.eval machine.toMachine env))
    (hright : Guarded total (right.eval machine.toMachine source)
      (rightExpr.term.eval machine.toMachine env)) :
    Guarded total
      ((binaryTerm .illegal left (operatorText op) right).eval machine.toMachine source)
      ((RuntimeExpr.binary leftExpr (operatorText op) rightExpr).term.eval
        machine.toMachine env) := by
  obtain ⟨binary, htext, hiff⟩ := binaryOp_ofText hop
  simp only [binaryTerm, htext, RuntimeExpr.term, Term.eval]
  exact Guarded.binary machine.toMachine hleft hright fun h value other =>
    (htotal h).binary binary value other (mt hiff.mp hdivision)

include htotal in
private theorem shift_guarded {left right : CTerm SourceAtom} {leftExpr rightExpr : RuntimeExpr}
    {source : SourceAtom → Result V} {op : Operator} (hop : isPointerArithmetic op)
    {pointee size : String} {value : V}
    (hsource : source (.sizeof pointee) = some (value, false))
    (hsize : env (.name size) = some (value, false))
    (hleft : Guarded total (left.eval machine.toMachine source)
      (leftExpr.term.eval machine.toMachine env))
    (hright : Guarded total (right.eval machine.toMachine source)
      (rightExpr.term.eval machine.toMachine env)) :
    Guarded total
      ((pointerTerm .illegal left (operatorText op) (.sizeof pointee) right).eval
        machine.toMachine source)
      ((RuntimeExpr.pointerShift leftExpr (operatorText op) size rightExpr).term.eval
        machine.toMachine env) := by
  obtain ⟨binary, htext, hiff⟩ := binaryOp_ofText hop.binary
  have hdivision : ¬binary.IsDivision := by
    rw [hiff]
    rcases hop with rfl | rfl <;> simp
  have hunary : ∀ op, total → ∀ value, machine.unary op value ≠ none :=
    fun op h value => (htotal h).unary op value
  have hbinary : ∀ op : BinaryOp, ¬op.IsDivision → total → ∀ value other,
      machine.binary op value other ≠ none :=
    fun op hop h value other => (htotal h).binary op value other hop
  simp only [pointerTerm, htext, RuntimeExpr.term, shiftTerm, Term.eval, hsource, hsize]
  refine Guarded.unary machine.toMachine (Guarded.binary machine.toMachine
    (Guarded.unary machine.toMachine hleft (hunary _))
    (Guarded.binary machine.toMachine (.value _) hright
      (hbinary .mul (by simp [BinaryOp.IsDivision])))
    (hbinary binary hdivision)) (hunary _)

include hlaw htotal in
theorem Carries.guarded (hzero : env (.constant "int" "0") = some (machine.zero, false))
    {expression : Expression}
    (h : Carries machine valuation parameter bool2 names env expression)
    {expr : RuntimeExpr} (hexpr : names.runtimeExpr expression = .ok expr) :
    Guarded total (evaluateWith machine valuation parameter bool2 expression)
      (expr.term.eval machine.toMachine env) := by
  induction h generalizing expr with
  | constant _ hvalue | named _ _ hvalue =>
      cases hexpr
      simp only [evaluateWith, sourceTerm, SourceAtom.ofLeaf, RuntimeExpr.term,
        RuntimeAtom.ofLeaf, Term.eval, Valuation.env, hvalue]
      exact .value _
  | parameter hsource hvalue | bool2 hsource hvalue =>
      cases hexpr
      simp only [evaluateWith, sourceTerm, parameterNode, bool2Node, SourceAtom.ofLeaf,
        RuntimeExpr.term, RuntimeAtom.ofLeaf, Term.eval, Valuation.env, hsource, hvalue]
      exact .value _
  | dereference type rawType hvalue hflag => exact dereference_guarded hlaw hvalue hflag hexpr
  | unary type rawType hop harg ih =>
      obtain ⟨argExpr, hargExpr, rfl⟩ := runtimeExpr_unary hop hexpr
      obtain ⟨unary, htext⟩ := unaryOp_ofText hop
      have harg := ih hargExpr
      simp only [evaluateWith, sourceTerm, RuntimeExpr.term, unaryTerm, htext,
        Term.eval] at harg ⊢
      exact harg.unary machine.toMachine fun h value => (htotal h).unary unary value
  | @binary type op rawType left right hop hsize hleft hright ihLeft ihRight =>
      by_cases hpointer : isPointerArithmetic op
      · obtain ⟨leftExpr, rightExpr, hleftExpr, hrightExpr, rfl⟩ :=
          runtimeExpr_shift hpointer hexpr
        rw [evaluateWith, sourceTerm,
          if_pos (show op = .ptrAdd ∨ op = .ptrSub from hpointer)]
        exact shift_guarded htotal hpointer rfl (hsize hpointer) (ihLeft hleftExpr)
          (ihRight hrightExpr)
      · obtain ⟨leftExpr, rightExpr, hleftExpr, hrightExpr, rfl⟩ :=
          runtimeExpr_binary hop hpointer hexpr
        rw [evaluateWith, sourceTerm,
          if_neg (show ¬(op = .ptrAdd ∨ op = .ptrSub) from hpointer)]
        split
        · rename_i hdivision
          exact division_guarded hlaw htotal hdivision hzero (ihLeft hleftExpr)
            (ihRight hrightExpr)
        · rename_i hdivision
          exact binary_guarded htotal hop hdivision (ihLeft hleftExpr) (ihRight hrightExpr)

end Guards

/-! ## The expressions in scope -/

variable {V : Type*} {machine : CMachine V} {total : Prop} (hlaw : machine.Lawful)
  (htotal : total → machine.Total) (valuation : Valuation V) {sa : SchemaApplication}
  (hnames : (parameterNames sa).Nodup) {names : Naming} (hnaming : naming sa = .ok names)
  (locals : Locals V)

def sourceResult (machine : CMachine V) (valuation : Valuation V) (locals : Locals V)
    (expression : Expression) : Result V :=
  evaluateWith machine valuation (some (locals.paramValue, false))
    (some (locals.bool2Value, false)) expression

def runtimeResult (machine : CMachine V) (valuation : Valuation V)
    (sa : SchemaApplication) (locals : Locals V) (expr : RuntimeExpr) : Result V :=
  expr.term.eval machine.toMachine (runtimeEnv machine valuation sa locals)

include hnames hnaming in
private theorem carries_of_inScope
    (hpointees : ∀ type ∈ sa.completePointeeTypes,
      ∃ c ∈ sa.components, c.type = .pointer ∧ c.rawType = type)
    {expression : Expression} (h : InScope sa expression) :
    Carries machine valuation (some (locals.paramValue, false))
      (some (locals.bool2Value, false)) names
      (runtimeEnv machine valuation sa locals) expression := by
  have hvalue : ∀ repr ∈ sa.components.map (·.repr),
      runtimeEnv machine valuation sa locals (.name (names.runtimeReprBySource repr)) =
        some (valuation.value repr, false) := by
    intro repr hrepr
    rw [runtimeEnv, arguments_component machine valuation hnames hnaming hrepr]
    rfl
  induction h with
  | constant type rawType repr => exact .constant type rfl
  | parameter => exact .parameter rfl rfl
  | bool2 => exact .bool2 rfl rfl
  | named type rawType hrepr => exact .named type rawType (hvalue _ hrepr)
  | @dereference type rawType repr hrepr =>
      have hcomponent : repr ∈ sa.components.map (·.repr) := by
        obtain ⟨c, hc, rfl⟩ := List.mem_map.mp (mem_sortedDistinct.mp hrepr)
        exact List.mem_map.mpr ⟨c, (List.mem_filter.mp hc).1, rfl⟩
      apply Carries.dereference type rawType (hvalue repr hcomponent)
      rw [runtimeEnv, arguments_flag machine valuation hnames hnaming hrepr]
      rfl
  | unary type rawType hop _ ih => exact .unary type rawType hop ih
  | binary type rawType hop hpointer _ _ ihLeft ihRight =>
      exact .binary type rawType hop (fun h => absurd h hpointer) ihLeft ihRight
  | shift type rawType hop htype hsize _ _ ihLeft ihRight =>
      refine .binary type rawType hop.binary (fun _ => ?_) ihLeft ihRight
      obtain ⟨c, hc, hcpointer, -⟩ := hpointees _ hsize
      rw [runtimeEnv,
        arguments_size machine valuation hnames hnaming ⟨c, hc, hcpointer⟩ hsize]
      rfl

include hlaw htotal hnames hnaming in
/-- The code emitted for an expression in scope is a guarded translation of it. -/
theorem runtimeExpr_guarded
    (hpointees : ∀ type ∈ sa.completePointeeTypes,
      ∃ c ∈ sa.components, c.type = .pointer ∧ c.rawType = type)
    {expression : Expression} (h : InScope sa expression) {expr : RuntimeExpr}
    (hexpr : names.runtimeExpr expression = .ok expr) :
    Guarded total (sourceResult machine valuation locals expression)
      (runtimeResult machine valuation sa locals expr) :=
  (carries_of_inScope valuation hnames hnaming locals hpointees h).guarded hlaw htotal rfl
    hexpr

end generator

end F1X
