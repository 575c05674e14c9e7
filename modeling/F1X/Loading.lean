import F1X.Typing
import F1X.Library.Checked

/-!
# Loading of expressions

`convertExpression` of `repair/Util.cpp` over the JSON that the transformer
writes, and what the loader guarantees to the synthesizer: neither loading nor
type correction ever produces an abstract node.
-/

namespace F1X

open F1X.Library

/-- An expression object of the JSON file; only a node has the member `args`. -/
inductive ExpressionJson where
  | leaf (kind type rawType repr : String)
  | node (kind type rawType repr : String) (args : List ExpressionJson)

def approxType (typeStr : String) : ExprType :=
  if typeStr = "pointer" then .pointer else .integer

/--
The message of the arity error adds the size to a C string, which drops that
many characters from it.
-/
def arityMessage (size : Nat) : String :=
  String.ofList ("unsupported arguments size: ".toList.drop size)

def operatorByArity (size : Nat) (repr : String) (outputType : ExprType) :
    Except Failure Operator :=
  if size = 1 then unaryOperatorByString repr
  else if size = 2 then binaryOperatorByString repr outputType
  else .error (.parseError (arityMessage size))

mutual

def convertExpression : ExpressionJson → Except Failure Expression
  | .leaf kindStr typeStr rawType repr => do
      let kind ← kindByString kindStr
      .ok ⟨kind, approxType typeStr, .none, rawType, repr, []⟩
  | .node kindStr typeStr rawType repr args => do
      let kind ← kindByString kindStr
      if kind ≠ .operator then .error .assertionFailed
      else do
        let op ← operatorByArity args.length repr (approxType typeStr)
        let type ← operatorOutputType op
        let converted ← convertArguments args
        .ok ⟨kind, type, op, rawType, repr, converted⟩

def convertArguments : List ExpressionJson → Except Failure (List Expression)
  | [] => .ok []
  | arg :: args => do
      let converted ← convertExpression arg
      let rest ← convertArguments args
      .ok (converted :: rest)

end

theorem convertExpression_leaf_inv {kindStr typeStr rawType repr : String}
    {expression : Expression}
    (h : convertExpression (.leaf kindStr typeStr rawType repr) = .ok expression) :
    ∃ kind, kindByString kindStr = .ok kind ∧
      expression = ⟨kind, approxType typeStr, .none, rawType, repr, []⟩ := by
  rw [convertExpression] at h
  obtain ⟨kind, hkind, h⟩ := bind_eq_ok_iff.mp h
  cases h
  exact ⟨kind, hkind, rfl⟩

theorem convertExpression_node_inv {kindStr typeStr rawType repr : String}
    {args : List ExpressionJson} {expression : Expression}
    (h : convertExpression (.node kindStr typeStr rawType repr args) = .ok expression) :
    ∃ op type converted, kindByString kindStr = .ok .operator ∧
      operatorByArity args.length repr (approxType typeStr) = .ok op ∧
      operatorOutputType op = .ok type ∧ convertArguments args = .ok converted ∧
      expression = ⟨.operator, type, op, rawType, repr, converted⟩ := by
  rw [convertExpression] at h
  obtain ⟨kind, hkind, h⟩ := bind_eq_ok_iff.mp h
  by_cases hoperator : kind ≠ .operator
  · rw [if_pos hoperator] at h
    cases h
  · rw [if_neg hoperator] at h
    cases not_not.mp hoperator
    obtain ⟨op, hop, h⟩ := bind_eq_ok_iff.mp h
    obtain ⟨type, htype, h⟩ := bind_eq_ok_iff.mp h
    obtain ⟨converted, hargs, h⟩ := bind_eq_ok_iff.mp h
    cases h
    exact ⟨op, type, converted, hkind, hop, htype, hargs, rfl⟩

theorem convertArguments_cons_inv {first : ExpressionJson} {rest : List ExpressionJson}
    {args : List Expression} (h : convertArguments (first :: rest) = .ok args) :
    ∃ converted others, convertExpression first = .ok converted ∧
      convertArguments rest = .ok others ∧ args = converted :: others := by
  rw [convertArguments] at h
  obtain ⟨converted, hconverted, h⟩ := bind_eq_ok_iff.mp h
  obtain ⟨others, hothers, h⟩ := bind_eq_ok_iff.mp h
  cases h
  exact ⟨converted, others, hconverted, hothers, rfl⟩

theorem kindByString_concrete {kindStr : String} {kind : NodeKind}
    (h : kindByString kindStr = .ok kind) : isAbstractNode kind = false := by
  unfold kindByString at h
  split_ifs at h <;> cases h <;> rfl

mutual

theorem convertExpression_abstractFree {json : ExpressionJson}
    {expression : Expression} (h : convertExpression json = .ok expression) :
    expression.AbstractFree := by
  cases json with
  | leaf kindStr typeStr rawType repr =>
      obtain ⟨kind, hkind, rfl⟩ := convertExpression_leaf_inv h
      exact Expression.abstractFree_iff.mpr
        ⟨kindByString_concrete hkind, by simp⟩
  | node kindStr typeStr rawType repr args =>
      obtain ⟨op, type, converted, hkind, -, -, hargs, rfl⟩ := convertExpression_node_inv h
      exact Expression.abstractFree_iff.mpr
        ⟨kindByString_concrete hkind, convertArguments_abstractFree hargs⟩

theorem convertArguments_abstractFree {json : List ExpressionJson}
    {args : List Expression} (h : convertArguments json = .ok args) :
    ∀ arg ∈ args, arg.AbstractFree := by
  cases json with
  | nil =>
      cases h
      simp
  | cons first rest =>
      obtain ⟨converted, others, hconverted, hothers, rfl⟩ := convertArguments_cons_inv h
      intro arg harg
      rcases List.mem_cons.mp harg with rfl | harg
      · exact convertExpression_abstractFree hconverted
      · exact convertArguments_abstractFree hothers arg harg

end

private theorem correctTopNode_abstractFree {expression : Expression}
    (h : expression.AbstractFree) (context : ExprType) :
    (correctTopNode expression context).AbstractFree := by
  refine correctTopNode_cases context h (fun type rawType op _ => ?_) ?_ ?_
    fun _ => ⟨rfl, rfl⟩
  · exact abstractFree_wrapWithCast h type op rawType
  · exact abstractFree_applyBoolOperator h abstractFree_nullNode _
  · exact abstractFree_applyBoolOperator h (abstractFree_makeIntegerConst 0) _

theorem correctTypes_abstractFree {expression corrected : Expression}
    {context : ExprType} (hfree : expression.AbstractFree)
    (h : correctTypes expression context = .ok corrected) :
    corrected.AbstractFree := by
  induction expression generalizing context corrected with
  | node kind type op rawType repr args ih =>
      obtain ⟨hkind, hargs⟩ := Expression.abstractFree_iff.mp hfree
      obtain ⟨correctedArgs, hcorrected, rfl⟩ := correctTypes_args h
      apply correctTopNode_abstractFree
      rw [Expression.abstractFree_iff]
      refine ⟨hkind, fun correctedArg hmem => ?_⟩
      obtain ⟨arg, harg, hone⟩ := (exists_of_forall₂ hcorrected).1 correctedArg hmem
      rcases hone with rfl | ⟨argContext, hone⟩
      · exact hargs correctedArg harg
      · exact ih arg harg (hargs arg harg) hone

end F1X
