import F1X.Synthesis.Synthesizable

/-!
# Well-typed expressions

The type system of `repair/Typing.h`: an operator node has the result type of
its operator and arguments of its argument types, and the arguments of an
overloaded operator have one type.  `correctTypes` is there to establish this;
`Typable` says for which expressions and contexts it does.
-/

namespace F1X

open F1X.Library

/-- A cast has the type that its name says. -/
def ResultType (op : Operator) (type : ExprType) : Prop :=
  match op with
  | .implicitBvCast | .explicitBvCast => type = .bitvector
  | .implicitIntCast | .explicitIntCast | .explicitUnsignedCast => type = .integer
  | .explicitPtrCast => type = .pointer
  | op => operatorOutputType op = .ok type

def Accepts (op : Operator) (type : ExprType) : Prop :=
  operatorFirstArgType op = .ok .any ∨ operatorFirstArgType op = .ok type

/-- `operatorFirstArgType` for every argument; the two arguments of `==` agree. -/
def ArgumentTypes (op : Operator) : List ExprType → Prop
  | [arg] => isUnaryOperator op = true ∧ Accepts op arg
  | [left, right] =>
      isBinaryOperator op = true ∧ Accepts op left ∧
        right = if op = .ptrAdd ∨ op = .ptrSub then .integer else left
  | _ => False

inductive Expression.WellTyped : Expression → Prop
  | leaf {kind : NodeKind} (hkind : kind ≠ .operator) (type : ExprType)
      (rawType repr : String) : WellTyped ⟨kind, type, .none, rawType, repr, []⟩
  | node {type : ExprType} {op : Operator} (rawType repr : String)
      {args : List Expression} (hresult : ResultType op type)
      (hargs : ArgumentTypes op (args.map (·.type)))
      (hwell : ∀ arg ∈ args, arg.WellTyped) :
      WellTyped ⟨.operator, type, op, rawType, repr, args⟩

theorem Expression.WellTyped.synthesizable {expr : Expression} (h : expr.WellTyped) :
    expr.Synthesizable := by
  induction h with
  | leaf hkind type rawType repr => exact .leaf hkind type _ rawType repr
  | @node type op rawType repr args hresult hargs hwell ih =>
      rcases args with _ | ⟨left, _ | ⟨right, _ | _⟩⟩
      · exact hargs.elim
      · exact .unary type rawType repr hargs.1 (ih left (by simp))
      · refine .binary type rawType repr hargs.1 ?_ (ih left (by simp)) (ih right (by simp))
        rintro (rfl | rfl) <;> simpa [Accepts, operatorFirstArgType, eq_comm] using hargs.2.1
      · exact hargs.elim

section Nodes

variable {type : ExprType} {op : Operator} {rawType repr : String}
  {expression arg left right : Expression}

theorem wellTyped_leaf_iff {kind : NodeKind} :
    (⟨kind, type, .none, rawType, repr, []⟩ : Expression).WellTyped ↔
      kind ≠ .operator := by
  constructor
  · intro h
    cases h with
    | leaf hkind => exact hkind
    | node _ _ _ hargs => exact hargs.elim
  · intro hkind
    exact .leaf hkind type rawType repr

theorem wellTyped_node_iff {args : List Expression} :
    (⟨.operator, type, op, rawType, repr, args⟩ : Expression).WellTyped ↔
      ResultType op type ∧ ArgumentTypes op (args.map (·.type)) ∧
        ∀ arg ∈ args, arg.WellTyped := by
  constructor
  · intro h
    cases h with
    | leaf hkind => exact absurd rfl hkind
    | node _ _ hresult hargs hwell => exact ⟨hresult, hargs, hwell⟩
  · rintro ⟨hresult, hargs, hwell⟩
    exact .node rawType repr hresult hargs hwell

theorem wellTyped_wrapWithCast_iff (hresult : ResultType op type)
    (hop : isUnaryOperator op = true) (hany : operatorFirstArgType op = .ok .any) :
    (wrapWithCast type op rawType expression).WellTyped ↔ expression.WellTyped := by
  rw [wrapWithCast, wellTyped_node_iff]
  simp [hresult, ArgumentTypes, Accepts, hop, hany]

theorem wellTyped_equality_iff (hop : op = .eq ∨ op = .neq) :
    (applyBoolOperator op left right).WellTyped ↔
      right.type = left.type ∧ left.WellTyped ∧ right.WellTyped := by
  rw [applyBoolOperator, wellTyped_node_iff]
  rcases hop with rfl | rfl <;>
    simp [ResultType, operatorOutputType, ArgumentTypes, isBinaryOperator,
      isUnaryOperator, Accepts, operatorFirstArgType]

end Nodes

/-! ## The corrected node -/

theorem correctTopNode_type (expression : Expression) {context : ExprType}
    (hcontext : context ≠ .any) :
    (correctTopNode expression context).type = context := by
  cases context with
  | any => exact absurd rfl hcontext
  | boolean =>
      rw [correctTopNode]
      split_ifs with hboolean
      exacts [hboolean, rfl, rfl, rfl, rfl, rfl]
  | integer =>
      rw [correctTopNode]
      split_ifs with hinteger
      exacts [hinteger, rfl, rfl]
  | pointer =>
      rw [correctTopNode]
      split_ifs with hpointer
      exacts [hpointer, rfl]
  | bitvector =>
      rw [correctTopNode]
      split_ifs with hbitvector
      exacts [hbitvector, rfl, rfl]

/-- `hconstant` is for the constants that a condition replaces by truth values. -/
theorem correctTopNode_wellTyped_iff {expression : Expression}
    (hany : expression.type ≠ .any)
    (hconstant : expression.kind = .constant → expression.WellTyped)
    (context : ExprType) :
    (correctTopNode expression context).WellTyped ↔
      expression.WellTyped ∧ (context = .boolean → expression.type ≠ .bitvector) := by
  cases context with
  | any => simp [correctTopNode]
  | boolean =>
      have hzero : (makeIntegerConst 0).WellTyped := .leaf (by simp) _ _ _
      have hnull : nullNode.WellTyped := .leaf (by simp) _ _ _
      rw [correctTopNode]
      split_ifs with hboolean hpointer hinteger hrepr hrepr
      · simp [hboolean]
      · rw [makeNonNULLCheck, wellTyped_equality_iff (.inr rfl)]
        simp [hpointer, hnull, show nullNode.type = .pointer from rfl]
      · simp only [Bool.and_eq_true, decide_eq_true_eq] at hinteger
        simp [hinteger, hconstant hinteger.2, falseNode, wellTyped_leaf_iff]
      · simp only [Bool.and_eq_true, decide_eq_true_eq] at hinteger
        simp [hinteger, hconstant hinteger.2, trueNode, wellTyped_leaf_iff]
      all_goals
        rw [makeNonZeroCheck, wellTyped_equality_iff (.inl rfl)]
        simp only [hzero, and_true, show (makeIntegerConst 0).type = .integer from rfl]
        cases htype : expression.type <;> simp_all
  | integer =>
      rw [correctTopNode]
      split_ifs
      · simp
      · exact (wellTyped_wrapWithCast_iff (by simp [ResultType]) rfl rfl).trans (by simp)
      · exact (wellTyped_wrapWithCast_iff (by simp [ResultType]) rfl rfl).trans (by simp)
  | bitvector =>
      rw [correctTopNode]
      split_ifs
      · simp
      · exact (wellTyped_wrapWithCast_iff (by simp [ResultType]) rfl rfl).trans (by simp)
      · exact (wellTyped_wrapWithCast_iff (by simp [ResultType]) rfl rfl).trans (by simp)
  | pointer =>
      rw [correctTopNode]
      split_ifs
      · simp
      · exact (wellTyped_wrapWithCast_iff (by simp [ResultType]) rfl rfl).trans (by simp)

theorem correctTopNode_node_iff {type : ExprType} {op : Operator} {rawType repr : String}
    {args : List Expression} (hany : type ≠ .any) (hresult : ResultType op type)
    (context : ExprType) :
    (correctTopNode ⟨.operator, type, op, rawType, repr, args⟩ context).WellTyped ↔
      (context = .boolean → type ≠ .bitvector) ∧
        ArgumentTypes op (args.map (·.type)) ∧ ∀ arg ∈ args, arg.WellTyped := by
  rw [correctTopNode_wellTyped_iff hany (by simp), wellTyped_node_iff]
  simp [hresult, and_comm]

/-! ## Type correction -/

theorem correctTypes_topNode {expression corrected : Expression} {context : ExprType}
    (h : correctTypes expression context = .ok corrected) :
    ∃ inner, corrected = correctTopNode inner context := by
  cases expression with
  | mk kind type op rawType repr args =>
      unfold correctTypes at h
      split at h
      · exact ⟨_, (Except.ok.inj h).symm⟩
      split at h
      · split at h
        · obtain ⟨_, -, h⟩ := bind_eq_ok_iff.mp h
          obtain ⟨_, -, h⟩ := bind_eq_ok_iff.mp h
          exact ⟨_, (Except.ok.inj h).symm⟩
        · split at h
          · split at h
            · obtain ⟨_, -, h⟩ := bind_eq_ok_iff.mp h
              exact ⟨_, (Except.ok.inj h).symm⟩
            · cases h
          · obtain ⟨_, -, h⟩ := bind_eq_ok_iff.mp h
            obtain ⟨_, -, h⟩ := bind_eq_ok_iff.mp h
            obtain ⟨_, -, h⟩ := bind_eq_ok_iff.mp h
            exact ⟨_, (Except.ok.inj h).symm⟩
        · cases h
      · cases h

theorem correctTypes_type {expression corrected : Expression} {context : ExprType}
    (h : correctTypes expression context = .ok corrected) (hcontext : context ≠ .any) :
    corrected.type = context := by
  obtain ⟨inner, rfl⟩ := correctTypes_topNode h
  exact correctTopNode_type inner hcontext

/--
No bitwise operation stands where a truth value is expected, and the left
argument of pointer arithmetic, which is not corrected, is well-typed already.
-/
def Typable : Expression → ExprType → Prop
  | ⟨_, type, op, _, _, args⟩, context =>
      (context = .boolean → type ≠ .bitvector) ∧
      match args with
      | [arg] => ∀ argContext, operatorFirstArgType op = .ok argContext →
          Typable arg argContext
      | [left, right] =>
          if op = .ptrAdd ∨ op = .ptrSub then
            left.WellTyped ∧ Typable right .integer
          else ∀ argContext, binaryArgContext op left right = .ok argContext →
            Typable left argContext ∧ Typable right argContext
      | _ => True
termination_by structural expression => expression

theorem Expression.Loaded.type_ne_any {expression : Expression} (h : expression.Loaded) :
    expression.type ≠ .any := by
  cases h with
  | leaf hkind htype => rcases htype with rfl | rfl <;> simp
  | unary rawType hop htype => rcases hop with rfl | rfl | rfl <;> cases htype <;> simp
  | @binary type op rawType left right hop htype =>
      cases op <;> cases htype <;> simp_all [isBinaryOperator, isUnaryOperator]

theorem resultType_of_operatorOutputType {op : Operator} {type : ExprType}
    (hcast : operatorFirstArgType op ≠ .ok .any ∨ isBinaryOperator op = true)
    (h : operatorOutputType op = .ok type) : ResultType op type := by
  cases op <;> simp_all [ResultType, operatorFirstArgType, isBinaryOperator, isUnaryOperator]

private theorem binaryArgContext_ne_any {op : Operator} {left right : Expression}
    {argContext : ExprType} (hleft : left.type ≠ .any)
    (hright : right.type ≠ .any) (h : binaryArgContext op left right = .ok argContext) :
    argContext ≠ .any := by
  obtain ⟨first, hfirst, h⟩ := bind_eq_ok_iff.mp h
  split at h
  · unfold commonSubtype at h
    split_ifs at h <;> cases h <;> simp_all
  · rename_i hany
    cases h
    exact hany

private theorem argumentTypes_pair {op : Operator} {left right : Expression}
    {argContext : ExprType} (hop : isBinaryOperator op = true)
    (hpointer : ¬(op = .ptrAdd ∨ op = .ptrSub))
    (h : binaryArgContext op left right = .ok argContext) :
    ArgumentTypes op [argContext, argContext] := by
  obtain ⟨first, hfirst, h⟩ := bind_eq_ok_iff.mp h
  refine ⟨hop, ?_, by rw [if_neg hpointer]⟩
  split at h
  · rename_i hany
    exact .inl (hany ▸ hfirst)
  · cases h
    exact .inr hfirst

theorem correctTypes_wellTyped_iff {expression corrected : Expression}
    {context : ExprType} (hloaded : expression.Loaded)
    (h : correctTypes expression context = .ok corrected) :
    corrected.WellTyped ↔ Typable expression context := by
  induction hloaded generalizing context corrected with
  | leaf hkind htype rawType repr =>
      have hany := (Expression.Loaded.leaf hkind htype rawType repr).type_ne_any
      obtain ⟨hleaf, rfl⟩ := correctTypes_leaf_iff.mp h
      rw [correctTopNode_wellTyped_iff hany, wellTyped_leaf_iff]
      · rcases hleaf with rfl | rfl | rfl | rfl <;> simp [Typable]
      · rintro rfl
        exact .leaf (by simp) _ _ _
  | @unary type op rawType arg hop htype harg ih =>
      have hany : type ≠ .any := (Expression.Loaded.unary rawType hop htype harg).type_ne_any
      have hunary : isUnaryOperator op = true := by rcases hop with rfl | rfl | rfl <;> rfl
      obtain ⟨argContext, hcontext, correctedArg, hcorrected, rfl⟩ :=
        correctTypes_unary_iff.mp h
      have hne : argContext ≠ .any := by
        rcases hop with rfl | rfl | rfl <;> cases hcontext <;> simp
      have hresult : ResultType op type :=
        resultType_of_operatorOutputType
          (.inl (by rcases hop with rfl | rfl | rfl <;> simp [operatorFirstArgType])) htype
      rw [correctTopNode_node_iff hany hresult, Typable]
      simp [ArgumentTypes, hunary, Accepts, hcontext, correctTypes_type hcorrected hne,
        ih hcorrected]
  | @binary type op rawType left right hop htype hleft hright ihLeft ihRight =>
      have hany : type ≠ .any :=
        (Expression.Loaded.binary rawType hop htype hleft hright).type_ne_any
      have hresult := resultType_of_operatorOutputType (.inr hop) htype
      by_cases hpointer : op = .ptrAdd ∨ op = .ptrSub
      · obtain ⟨hleftType, correctedRight, hcorrected, rfl⟩ :=
          (correctTypes_pointer_iff hpointer).mp h
        have hargs : ArgumentTypes op [.pointer, .integer] := by
          rcases hpointer with rfl | rfl <;>
            exact ⟨rfl, .inr rfl, rfl⟩
        rw [correctTopNode_node_iff hany hresult, Typable, if_pos hpointer]
        simp [hleftType, correctTypes_type hcorrected, hargs, ihRight hcorrected]
      · obtain ⟨argContext, hcontext, correctedLeft, hcorrectedLeft, correctedRight,
          hcorrectedRight, rfl⟩ := (correctTypes_binary_iff hpointer).mp h
        have hne := binaryArgContext_ne_any hleft.type_ne_any hright.type_ne_any hcontext
        rw [correctTopNode_node_iff hany hresult, Typable, if_neg hpointer]
        simp [correctTypes_type hcorrectedLeft hne,
          correctTypes_type hcorrectedRight hne, argumentTypes_pair hop hpointer hcontext,
          ihLeft hcorrectedLeft, ihRight hcorrectedRight, hcontext]

/--
The corrected expression has the type of its context and is well-typed, the
latter exactly for the typable expressions.
-/
theorem correctTypes_wellTyped_exact {json : ExpressionJson} {expression corrected : Expression}
    {context : ExprType} (hload : convertExpression json = .ok expression)
    (h : correctTypes expression context = .ok corrected) :
    (corrected.WellTyped ∧ (context ≠ .any → corrected.type = context)) ↔
      Typable expression context := by
  rw [← correctTypes_wellTyped_iff (convertExpression_loaded hload) h]
  exact and_iff_left (correctTypes_type h)

def integerVariable (name : String) : ExpressionJson :=
  .leaf "variable" "integer" "int" name

/-- The condition of `if (x & y)`. -/
def bitTest : ExpressionJson :=
  .node "operator" "integer" "int" "&" [integerVariable "x", integerVariable "y"]

theorem bitTest_illTyped :
    ∃ expression corrected, convertExpression bitTest = .ok expression ∧
      correctTypes expression .boolean = .ok corrected ∧ ¬ corrected.WellTyped := by
  refine ⟨_, _, rfl, rfl, ?_⟩
  rw [correctTypes_wellTyped_iff (@convertExpression_loaded bitTest _ rfl) rfl]
  simp [Typable]

/-- The same expression as an operand of `+` is typed by a cast. -/
theorem correctTypes_wellTyped_exact_bitTest :
    ∃ expression corrected, convertExpression bitTest = .ok expression ∧
      correctTypes expression .integer = .ok corrected ∧
      ((corrected.WellTyped ∧ (ExprType.integer ≠ .any → corrected.type = .integer)) ↔
        Typable expression .integer) :=
  ⟨_, _, rfl, rfl, @correctTypes_wellTyped_exact bitTest _ _ _ rfl rfl⟩

end F1X
