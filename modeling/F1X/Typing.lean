import F1X.Library.Checked
import F1X.Util

/-!
# Type inference

`repair/Typing.cpp`: the operator signatures and `correctTypes`, which inserts
casts and zero or null checks so that the arguments of every operator have the
type the operator expects.
-/

namespace F1X

open F1X.Library

def operatorOutputType : Operator → Except Failure ExprType
  | .eq | .neq | .lt | .le | .gt | .ge | .or | .and | .not => .ok .boolean
  | .add | .sub | .mul | .div | .mod | .neg => .ok .integer
  | .bvAnd | .bvOr | .bvXor | .bvShl | .bvShr | .bvNot => .ok .bitvector
  | .ptrAdd | .ptrSub => .ok .pointer
  | .implicitBvCast => .ok .integer
  | .implicitIntCast => .ok .bitvector
  | .explicitBvCast => .ok .bitvector
  | .explicitIntCast | .explicitUnsignedCast => .ok .integer
  | .explicitPtrCast => .ok .pointer
  | .none => .error (.invalidArgument "unsupported operator: 0")

/-- The first and the second argument type agree except in pointer arithmetic. -/
def operatorFirstArgType : Operator → Except Failure ExprType
  | .eq | .neq => .ok .any
  | .lt | .le | .gt | .ge => .ok .integer
  | .or | .and | .not => .ok .boolean
  | .add | .sub | .mul | .div | .mod | .neg => .ok .integer
  | .bvAnd | .bvOr | .bvXor | .bvShl | .bvShr | .bvNot => .ok .bitvector
  | .ptrAdd | .ptrSub => .ok .pointer
  | .implicitBvCast | .implicitIntCast | .explicitBvCast | .explicitIntCast
  | .explicitUnsignedCast | .explicitPtrCast => .ok .any
  | .none => .error (.invalidArgument "unsupported operator: 0")

def commonSubtype (a b : ExprType) : Except Failure ExprType :=
  if a = .any then .ok b
  else if b = .any then .ok a
  else if a = .pointer || b = .pointer then .ok .pointer
  else if a = .boolean || b = .boolean then .ok .boolean
  else if a = .integer || b = .integer then .ok .integer
  else .error (.invalidArgument "unsupported type")

def correctTopNode (expression : Expression) (context : ExprType) : Expression :=
  match context with
  | .any => expression
  | .integer =>
      if expression.type = .integer then expression
      else if expression.type = .pointer then wrapWithExplicitIntCast expression
      else wrapWithImplicitIntCast expression
  | .bitvector =>
      if expression.type = .bitvector then expression
      else if expression.type = .pointer then wrapWithExplicitBVCast expression
      else wrapWithImplicitBVCast expression
  | .boolean =>
      if expression.type = .boolean then expression
      else if expression.type = .pointer then makeNonNULLCheck expression
      else if expression.type = .integer && expression.kind = .constant then
        if expression.repr = "0" then falseNode
        else if expression.repr = "1" then trueNode
        else makeNonZeroCheck expression
      else makeNonZeroCheck expression
  | .pointer =>
      if expression.type = .pointer then expression
      else wrapWithExplicitPtrCast expression

/-- The context of both arguments of a binary operator other than pointer arithmetic. -/
def binaryArgContext (op : Operator) (left right : Expression) :
    Except Failure ExprType := do
  let argContext ← operatorFirstArgType op
  if argContext = .any then commonSubtype left.type right.type
  else .ok argContext

def correctTypes : Expression → ExprType → Except Failure Expression
  | ⟨kind, type, op, rawType, repr, args⟩, context =>
      if kind = .variable || kind = .constant || kind = .parameter ||
          kind = .dereference then
        .ok (correctTopNode ⟨kind, type, op, rawType, repr, args⟩ context)
      else if kind = .operator then
        match args with
        | [arg] => do
            let argContext ← operatorFirstArgType op
            let correctedArg ← correctTypes arg argContext
            .ok (correctTopNode ⟨kind, type, op, rawType, repr, [correctedArg]⟩ context)
        | [left, right] =>
            if op = .ptrAdd || op = .ptrSub then
              if left.type = .pointer then do
                let correctedRight ← correctTypes right .integer
                .ok (correctTopNode
                  ⟨kind, type, op, rawType, repr, [left, correctedRight]⟩ context)
              else .error .assertionFailed
            else do
              let argContext ← binaryArgContext op left right
              let correctedLeft ← correctTypes left argContext
              let correctedRight ← correctTypes right argContext
              .ok (correctTopNode
                ⟨kind, type, op, rawType, repr, [correctedLeft, correctedRight]⟩ context)
        | _ => .error (.invalidArgument "unsupported operator")
      else .error (.invalidArgument "unsupported node kind")
termination_by structural expression => expression

/-- What holds of a node, of its casts and of its checks holds of the corrected node. -/
theorem correctTopNode_cases {P : Expression → Prop} {expression : Expression}
    (context : ExprType) (hsame : P expression)
    (hcast : ∀ type rawType, ∀ op ∈ [Operator.implicitIntCast, .implicitBvCast,
      .explicitIntCast, .explicitBvCast, .explicitPtrCast],
        P (wrapWithCast type op rawType expression))
    (hnull : P (makeNonNULLCheck expression)) (hzero : P (makeNonZeroCheck expression))
    (htruth : expression.kind = .constant → P falseNode ∧ P trueNode) :
    P (correctTopNode expression context) := by
  cases context with
  | any => exact hsame
  | integer | bitvector | pointer =>
      rw [correctTopNode]
      split_ifs <;> first | exact hsame | exact hcast _ _ _ (by simp)
  | boolean =>
      rw [correctTopNode]
      split_ifs with hboolean hpointer hinteger hfalse htrue
      · exact hsame
      · exact hnull
      · exact (htruth (by simp at hinteger; exact hinteger.2)).1
      · exact (htruth (by simp at hinteger; exact hinteger.2)).2
      · exact hzero
      · exact hzero

/-! ## The cases of the recursion -/

section Cases

variable {kind : NodeKind} {type context : ExprType} {op : Operator}
  {rawType repr : String} {left right arg corrected : Expression}

theorem correctTypes_leaf_iff :
    correctTypes ⟨kind, type, op, rawType, repr, []⟩ context = .ok corrected ↔
      (kind = .variable ∨ kind = .constant ∨ kind = .parameter ∨ kind = .dereference) ∧
        correctTopNode ⟨kind, type, op, rawType, repr, []⟩ context = corrected := by
  cases kind <;> simp [correctTypes]

theorem correctTypes_unary_iff :
    correctTypes ⟨.operator, type, op, rawType, repr, [arg]⟩ context = .ok corrected ↔
      ∃ argContext, operatorFirstArgType op = .ok argContext ∧
      ∃ correctedArg, correctTypes arg argContext = .ok correctedArg ∧
        correctTopNode ⟨.operator, type, op, rawType, repr, [correctedArg]⟩ context =
          corrected := by
  rw [correctTypes]
  simp only [reduceCtorEq, decide_false, Bool.or_self, Bool.false_eq_true, if_false,
    if_true, bind_eq_ok_iff, Except.ok.injEq]

theorem correctTypes_pointer_iff (hop : op = .ptrAdd ∨ op = .ptrSub) :
    correctTypes ⟨.operator, type, op, rawType, repr, [left, right]⟩ context =
        .ok corrected ↔
      left.type = .pointer ∧
      ∃ correctedRight, correctTypes right .integer = .ok correctedRight ∧
        correctTopNode ⟨.operator, type, op, rawType, repr, [left, correctedRight]⟩
          context = corrected := by
  have hif : (op = .ptrAdd || op = .ptrSub) = true := by simpa using hop
  rw [correctTypes]
  simp only [reduceCtorEq, decide_false, Bool.or_self, Bool.false_eq_true, if_false,
    if_true, hif]
  split
  · rename_i hleft
    simp only [hleft, true_and, bind_eq_ok_iff, Except.ok.injEq]
  · rename_i hleft
    simp [hleft]

theorem correctTypes_binary_iff (hop : ¬(op = .ptrAdd ∨ op = .ptrSub)) :
    correctTypes ⟨.operator, type, op, rawType, repr, [left, right]⟩ context =
        .ok corrected ↔
      ∃ argContext, binaryArgContext op left right = .ok argContext ∧
      ∃ correctedLeft, correctTypes left argContext = .ok correctedLeft ∧
      ∃ correctedRight, correctTypes right argContext = .ok correctedRight ∧
        correctTopNode
          ⟨.operator, type, op, rawType, repr, [correctedLeft, correctedRight]⟩
          context = corrected := by
  have hif : (op = .ptrAdd || op = .ptrSub) = false := by simpa using hop
  rw [correctTypes]
  simp only [reduceCtorEq, decide_false, Bool.or_self, Bool.false_eq_true, if_false,
    if_true, hif, bind_eq_ok_iff, Except.ok.injEq]

/-- At any node the arguments are corrected or kept, and then the node itself. -/
theorem correctTypes_args {args : List Expression}
    (h : correctTypes ⟨kind, type, op, rawType, repr, args⟩ context = .ok corrected) :
    ∃ correctedArgs,
      List.Forall₂ (fun arg correctedArg => correctedArg = arg ∨
        ∃ argContext, correctTypes arg argContext = .ok correctedArg) args correctedArgs ∧
      corrected = correctTopNode ⟨kind, type, op, rawType, repr, correctedArgs⟩ context := by
  by_cases hleaf : kind = .variable ∨ kind = .constant ∨ kind = .parameter ∨
      kind = .dereference
  · have hcorrected : correctTopNode ⟨kind, type, op, rawType, repr, args⟩ context =
        corrected := by
      unfold correctTypes at h
      rcases hleaf with rfl | rfl | rfl | rfl <;> simpa using h
    exact ⟨args, List.forall₂_same.mpr fun arg _ => .inl rfl, hcorrected.symm⟩
  · obtain rfl : kind = .operator := by
      unfold correctTypes at h
      cases kind <;> simp at hleaf h
      rfl
    rcases args with _ | ⟨left, _ | ⟨right, _ | _⟩⟩
    · cases h
    · obtain ⟨argContext, -, correctedArg, harg, rfl⟩ := correctTypes_unary_iff.mp h
      exact ⟨[correctedArg], .cons (.inr ⟨argContext, harg⟩) .nil, rfl⟩
    · by_cases hop : op = .ptrAdd ∨ op = .ptrSub
      · obtain ⟨-, correctedRight, hright, rfl⟩ := (correctTypes_pointer_iff hop).mp h
        exact ⟨[left, correctedRight], .cons (.inl rfl) (.cons (.inr ⟨_, hright⟩) .nil), rfl⟩
      · obtain ⟨argContext, -, correctedLeft, hleft, correctedRight, hright, rfl⟩ :=
          (correctTypes_binary_iff hop).mp h
        exact ⟨[correctedLeft, correctedRight],
          .cons (.inr ⟨_, hleft⟩) (.cons (.inr ⟨_, hright⟩) .nil), rfl⟩
    · cases h

end Cases

end F1X
