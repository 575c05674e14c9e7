import F1X.Core

/-!
# Expression utilities

Names, constructors and loading of expressions, from `repair/Util.cpp`.
Exceptions and failed assertions of the source are values of `Failure`.
-/

namespace F1X

inductive Failure where
  | invalidArgument (message : String)
  | parseError (message : String)
  | assertionFailed
  | outOfRange
  | outOfFuel
  deriving DecidableEq, Repr

def isAbstractNode (kind : NodeKind) : Bool :=
  kind = .parameter || kind = .int2 || kind = .bool2 || kind = .cond3

def kindByString (kindStr : String) : Except Failure NodeKind :=
  if kindStr = "operator" then .ok .operator
  else if kindStr = "variable" then .ok .variable
  else if kindStr = "dereference" then .ok .dereference
  else if kindStr = "constant" then .ok .constant
  else .error (.parseError ("unsupported kind: " ++ kindStr))

def binaryOperatorByString (repr : String) (outputType : ExprType) :
    Except Failure Operator :=
  if repr = "==" then .ok .eq
  else if repr = "!=" then .ok .neq
  else if repr = "<" then .ok .lt
  else if repr = "<=" then .ok .le
  else if repr = ">" then .ok .gt
  else if repr = ">=" then .ok .ge
  else if repr = "||" then .ok .or
  else if repr = "&&" then .ok .and
  else if repr = "+" then
    if outputType = .pointer then .ok .ptrAdd else .ok .add
  else if repr = "-" then
    if outputType = .pointer then .ok .ptrSub else .ok .sub
  else if repr = "*" then .ok .mul
  else if repr = "/" then .ok .div
  else if repr = "%" then .ok .mod
  else if repr = "&" then .ok .bvAnd
  else if repr = "|" then .ok .bvOr
  else if repr = "^" then .ok .bvXor
  else if repr = "<<" then .ok .bvShl
  else if repr = ">>" then .ok .bvShr
  else .error (.parseError ("unsupported binary operator: " ++ repr))

def unaryOperatorByString (repr : String) : Except Failure Operator :=
  if repr = "-" then .ok .neg
  else if repr = "!" then .ok .not
  else if repr = "~" then .ok .bvNot
  else .error (.parseError ("unsupported unary operator: " ++ repr))

/-- The table of `operatorToString`; `none` has no text. -/
def operatorText : Operator → String
  | .none => ""
  | .eq => "=="
  | .neq => "!="
  | .lt => "<"
  | .le => "<="
  | .gt => ">"
  | .ge => ">="
  | .or => "||"
  | .and => "&&"
  | .add => "+"
  | .sub => "-"
  | .mul => "*"
  | .div => "/"
  | .mod => "%"
  | .neg => "-"
  | .not => "!"
  | .bvAnd => "&"
  | .bvOr => "|"
  | .bvXor => "^"
  | .bvShl => "<<"
  | .bvShr => ">>"
  | .bvNot => "~"
  | .ptrAdd => "+"
  | .ptrSub => "-"
  | .implicitBvCast => ""
  | .implicitIntCast => ""
  | .explicitBvCast => "(" ++ explicitBvCastType ++ ")"
  | .explicitIntCast => "(" ++ explicitIntCastType ++ ")"
  | .explicitPtrCast => "(" ++ explicitPtrCastType ++ "*)"
  | .explicitUnsignedCast => "(" ++ explicitUnsignedCastType ++ ")"

def operatorToString (op : Operator) : Except Failure String :=
  if op = .none then .error (.invalidArgument "unsupported operator")
  else .ok (operatorText op)

def makeIntegerConst (n : Nat) : Expression :=
  { kind := .constant, type := .integer, op := .none, rawType := "int",
    repr := toString n, args := [] }

/-- A cast node as the `wrapWith` functions build it. -/
def wrapWithCast (type : ExprType) (op : Operator) (rawType : String)
    (expression : Expression) : Expression :=
  { kind := .operator, type := type, op := op, rawType := rawType,
    repr := operatorText op, args := [expression] }

def wrapWithImplicitIntCast (expression : Expression) : Expression :=
  wrapWithCast .integer .implicitIntCast expression.rawType expression

def wrapWithImplicitBVCast (expression : Expression) : Expression :=
  wrapWithCast .bitvector .implicitBvCast expression.rawType expression

def wrapWithExplicitIntCast (expression : Expression) : Expression :=
  wrapWithCast .integer .explicitIntCast explicitIntCastType expression

def wrapWithExplicitBVCast (expression : Expression) : Expression :=
  wrapWithCast .bitvector .explicitBvCast explicitBvCastType expression

def wrapWithExplicitPtrCast (expression : Expression) : Expression :=
  wrapWithCast .pointer .explicitPtrCast explicitPtrCastType expression

def wrapWithExplicitUnsignedCast (expression : Expression) : Expression :=
  wrapWithCast .integer .explicitUnsignedCast explicitUnsignedCastType expression

def applyBoolOperator (op : Operator) (left right : Expression) : Expression :=
  { kind := .operator, type := .boolean, op := op, rawType := defaultBooleanType,
    repr := operatorText op, args := [left, right] }

def makeNonNULLCheck (pointer : Expression) : Expression :=
  applyBoolOperator .neq pointer nullNode

def makeNULLCheck (pointer : Expression) : Expression :=
  applyBoolOperator .eq pointer nullNode

def makeNonZeroCheck (expression : Expression) : Expression :=
  applyBoolOperator .eq expression (makeIntegerConst 0)

def expressionToString : Expression → Except Failure String
  | ⟨_, _, _, _, repr, []⟩ => .ok repr
  | ⟨_, _, _, _, repr, [arg]⟩ => do
      let argStr ← expressionToString arg
      .ok (repr ++ " " ++ argStr)
  | ⟨_, _, _, _, repr, [left, right]⟩ => do
      let leftStr ← expressionToString left
      let rightStr ← expressionToString right
      .ok ("(" ++ leftStr ++ " " ++ repr ++ " " ++ rightStr ++ ")")
  | _ => .error (.invalidArgument "unsupported expression")

/-! ## Abstract nodes -/

mutual

def isAbstractExpression : Expression → Bool
  | ⟨kind, _, _, _, _, args⟩ => isAbstractNode kind || anyAbstractExpression args

def anyAbstractExpression : List Expression → Bool
  | [] => false
  | arg :: args => isAbstractExpression arg || anyAbstractExpression args

end

def Expression.AbstractFree (expression : Expression) : Prop :=
  isAbstractExpression expression = false

private theorem anyAbstractExpression_eq_false {args : List Expression} :
    anyAbstractExpression args = false ↔ ∀ arg ∈ args, arg.AbstractFree := by
  induction args with
  | nil => simp [anyAbstractExpression]
  | cons arg args ih =>
      simp [anyAbstractExpression, Expression.AbstractFree, ih]

theorem Expression.abstractFree_iff {expression : Expression} :
    expression.AbstractFree ↔
      isAbstractNode expression.kind = false ∧
        ∀ arg ∈ expression.args, arg.AbstractFree := by
  cases expression with
  | mk kind type op rawType repr args =>
      rw [AbstractFree, isAbstractExpression, Bool.or_eq_false_iff,
        anyAbstractExpression_eq_false]

theorem abstractFree_wrapWithCast {expression : Expression}
    (h : expression.AbstractFree) (type : ExprType) (op : Operator)
    (rawType : String) :
    (wrapWithCast type op rawType expression).AbstractFree := by
  rw [Expression.abstractFree_iff]
  simpa [wrapWithCast, isAbstractNode] using h

theorem abstractFree_applyBoolOperator {left right : Expression}
    (hleft : left.AbstractFree) (hright : right.AbstractFree) (op : Operator) :
    (applyBoolOperator op left right).AbstractFree := by
  rw [Expression.abstractFree_iff]
  simpa [applyBoolOperator, isAbstractNode] using ⟨hleft, hright⟩

theorem abstractFree_makeIntegerConst (n : Nat) : (makeIntegerConst n).AbstractFree := rfl

theorem abstractFree_nullNode : nullNode.AbstractFree := rfl

end F1X
