import F1X.Util
import F1X.Library.Checked

/-!
# Expression synthesis

The namespace `synthesis` of `repair/Synthesis.cpp`: the single edits of an
expression at every position (`baseSubstitutions`, `baseModifications`) and the
atomic conditions over the components (`bool2Expressions`).
-/

namespace F1X

open F1X.Library

def idType : String := "unsigned long"
def parameterType : String := idType

def parameterNode : Expression :=
  { kind := .parameter, type := .integer, op := .none, rawType := parameterType,
    repr := "param_value", args := [] }

def int2Node : Expression :=
  { kind := .int2, type := .integer, op := .none, rawType := explicitIntCastType,
    repr := "int2_value", args := [] }

def bool2Node : Expression :=
  { kind := .bool2, type := .boolean, op := .none, rawType := defaultBooleanType,
    repr := "bool2_value", args := [] }

def cond3Node : Expression :=
  { kind := .cond3, type := .boolean, op := .none, rawType := defaultBooleanType,
    repr := "cond3_value", args := [] }

namespace synthesis

abbrev Modification := Expression × PatchMetadata

def atomicEdit : Nat := 1

def mutateNumericOperator : Operator → Except Failure (List Operator)
  | .none => .error .assertionFailed
  | .eq => .ok [.neq, .lt, .le, .gt, .ge]
  | .neq => .ok [.eq, .lt, .le, .gt, .ge]
  | .lt => .ok [.eq, .neq, .le, .gt, .ge]
  | .le => .ok [.eq, .neq, .lt, .gt, .ge]
  | .gt => .ok [.eq, .neq, .lt, .le, .ge]
  | .ge => .ok [.eq, .neq, .lt, .le, .gt]
  | .or => .ok [.and]
  | .and => .ok [.or]
  | .add => .ok [.sub, .mul]
  | .sub => .ok [.add, .mul]
  | .mul => .ok [.add, .sub]
  | .div => .ok [.add, .sub, .mul]
  | .mod => .ok [.add, .sub, .mul]
  | .neg | .not => .ok []
  | .bvAnd => .ok [.bvOr, .bvXor]
  | .bvOr => .ok [.bvAnd, .bvXor]
  | .bvXor => .ok [.bvAnd, .bvOr]
  | .bvShl => .ok [.bvShr]
  | .bvShr => .ok [.bvShl]
  | .bvNot => .ok []
  | .implicitBvCast | .implicitIntCast | .explicitBvCast | .explicitIntCast
  | .explicitUnsignedCast | .explicitPtrCast => .ok []
  | .ptrAdd => .error (.invalidArgument ("unsupported operator: " ++ operatorText .ptrAdd))
  | .ptrSub => .error (.invalidArgument ("unsupported operator: " ++ operatorText .ptrSub))

def mutatePointerOperator : Operator → Except Failure (List Operator)
  | .none => .error .assertionFailed
  | .eq => .ok [.neq]
  | .neq => .ok [.eq]
  | .ptrAdd => .ok [.ptrSub]
  | .ptrSub => .ok [.ptrAdd]
  | _ => .ok []

def operatorWeight : Operator → Except Failure Nat
  | .none => .error .assertionFailed
  | .implicitBvCast | .implicitIntCast | .explicitBvCast | .explicitIntCast
  | .explicitUnsignedCast | .explicitPtrCast => .ok 0
  | _ => .ok 1

mutual

def expressionDepth : Expression → Except Failure Nat
  | ⟨kind, _, op, _, _, args⟩ =>
      match kind with
      | .variable | .constant | .parameter | .dereference => .ok 1
      | .bool2 | .int2 | .cond3 => .ok 2
      | .operator => do
          let depth ← maxDepth args
          let weight ← operatorWeight op
          .ok (depth + weight)

def maxDepth : List Expression → Except Failure Nat
  | [] => .ok 0
  | arg :: args => do
      let depth ← expressionDepth arg
      let rest ← maxDepth args
      .ok (max depth rest)

end

/-- Simplifiable are the operators whose arguments have the type of the result. -/
def isSimplifiable (expr : Expression) : Bool :=
  match expr.op with
  | .or | .and | .add | .sub | .mul | .div | .mod | .neg
  | .bvAnd | .bvOr | .bvXor | .bvShl | .bvShr => true
  | _ => false

def substituteArg (expr subs : Expression) : Expression :=
  { expr with args := [subs] }

/-- Called on expressions with two arguments only. -/
def substituteLeftArg (expr subs : Expression) : Expression :=
  { expr with args := expr.args.set 0 subs }

def substituteRightArg (expr subs : Expression) : Expression :=
  { expr with args := expr.args.set 1 subs }

def bool2ExpressionsOf (components : List Expression) (left : Expression) :
    Except Failure (List Expression) :=
  match left.type with
  | .pointer =>
      .ok ([makeNULLCheck left, makeNonNULLCheck left] ++
        components.flatMap fun right =>
          if right.type = .pointer ∧ left.rawType = right.rawType then
            [applyBoolOperator .eq left right, applyBoolOperator .neq left right]
          else [])
  | .integer =>
      let comparisons (right : Expression) :=
        [Operator.eq, .neq, .lt, .le, .gt, .ge].map (applyBoolOperator · left right)
      .ok (comparisons parameterNode ++
        components.flatMap fun right =>
          if right.type = .integer then comparisons right else [])
  | _ => .error (.invalidArgument "unsupported component type")

def bool2Expressions (components : List Expression) :
    Except Failure (List Expression) := do
  let result ← components.mapM (bool2ExpressionsOf components)
  .ok result.flatten

def substitutionDistance (source target : Expression) : Except Failure Nat := do
  let first ← expressionDepth source
  let second ← expressionDepth target
  .ok (first + second - 1)

/-! ## Base substitutions, in the order of the source -/

def booleanSubstitutions (expr : Expression) : Except Failure (List Modification) :=
  if expr.type = .boolean then do
    let distance ← substitutionDistance expr bool2Node
    .ok [(bool2Node, ⟨.substitution, distance⟩)]
  else .ok []

def constantSubstitutions (components : List Expression) (expr : Expression) :
    List Modification :=
  if expr.type = .integer then
    ((components.filter fun c => c.type = .integer).map
      fun c => (c, ⟨.generalization, atomicEdit⟩)) ++
    [(parameterNode, ⟨.substitution, atomicEdit⟩)]
  else []

def accessSubstitutions (components : List Expression) (expr : Expression) :
    List Modification :=
  if expr.type = .integer then
    ((components.filter fun c => c.type = .integer).map
      fun c => (c, ⟨.substitution, atomicEdit⟩)) ++
    [(parameterNode, ⟨.concretization, atomicEdit⟩)]
  else if expr.type = .pointer then
    ((components.filter fun c => c.type = .pointer ∧ expr.rawType = c.rawType).map
      fun c => (c, ⟨.substitution, atomicEdit⟩)) ++
    [(nullNode, ⟨.concretization, atomicEdit⟩)]
  else []

def leafSubstitutions (components : List Expression) (expr : Expression) :
    List Modification :=
  if expr.kind = .constant then constantSubstitutions components expr
  else if expr.kind = .variable ∨ expr.kind = .dereference then
    accessSubstitutions components expr
  else []

/-- `first` is the first argument of `expr`. -/
def mutatedOperators (expr first : Expression) : Except Failure (List Operator) :=
  if first.type = .pointer then mutatePointerOperator expr.op
  else mutateNumericOperator expr.op

def operatorSubstitutions (expr first : Expression) :
    Except Failure (List Modification) := do
  let operators ← mutatedOperators expr first
  operators.mapM fun m => do
    let text ← operatorToString m
    .ok ({ expr with op := m, repr := text }, ⟨.operator, atomicEdit⟩)

def unsignedCastSubstitutions (expr left right : Expression) : List Modification :=
  (if left.type = .integer then
    [(substituteLeftArg expr (wrapWithExplicitUnsignedCast left),
      ⟨.unsignedCast, atomicEdit⟩)]
  else []) ++
  (if right.type = .integer then
    [(substituteRightArg expr (wrapWithExplicitUnsignedCast right),
      ⟨.unsignedCast, atomicEdit⟩)]
  else [])

def unarySimplifications (expr arg : Expression) : List Modification :=
  if isSimplifiable expr then [(arg, ⟨.simplification, atomicEdit⟩)] else []

def binarySimplifications (expr left right : Expression) :
    Except Failure (List Modification) :=
  if isSimplifiable expr then do
    let rightDepth ← expressionDepth right
    let leftDepth ← expressionDepth left
    .ok [(left, ⟨.simplification, rightDepth⟩), (right, ⟨.simplification, leftDepth⟩)]
  else .ok []

def baseSubstitutions (components : List Expression) :
    Expression → Except Failure (List Modification)
  | ⟨kind, type, op, rawType, repr, args⟩ => do
      let expr : Expression := ⟨kind, type, op, rawType, repr, args⟩
      let conditions ← booleanSubstitutions expr
      match args with
      | [] => .ok (conditions ++ leafSubstitutions components expr)
      | [arg] => do
          let operators ← operatorSubstitutions expr arg
          let argMods ← baseSubstitutions components arg
          .ok (conditions ++ operators ++
            argMods.map (fun m => (substituteArg expr m.1, m.2)) ++
            unarySimplifications expr arg)
      | [left, right] => do
          let operators ← operatorSubstitutions expr left
          let leftMods ←
            (if op ≠ .ptrAdd ∧ op ≠ .ptrSub then baseSubstitutions components left
            else .ok [])
          let rightMods ← baseSubstitutions components right
          let simplifications ← binarySimplifications expr left right
          .ok (conditions ++ operators ++
            leftMods.map (fun m => (substituteLeftArg expr m.1, m.2)) ++
            rightMods.map (fun m => (substituteRightArg expr m.1, m.2)) ++
            unsignedCastSubstitutions expr left right ++ simplifications)
      | first :: _ => do
          let operators ← operatorSubstitutions expr first
          .ok (conditions ++ operators)
termination_by structural expr => expr

def baseModifications (schema : TransformationSchema) (expr : Expression)
    (components : List Expression) : Except Failure (List Modification) := do
  let bool2Depth ← expressionDepth bool2Node
  match schema with
  | .expression => do
      let substitutions ← baseSubstitutions components expr
      if expr.type = .boolean then
        .ok (substitutions ++
          [(applyBoolOperator .or expr bool2Node, ⟨.loosening, bool2Depth⟩),
           (applyBoolOperator .and expr bool2Node, ⟨.tightening, bool2Depth⟩)])
      else .ok substitutions
  | .ifGuard =>
      .ok ((if expr.repr = trueNode.repr then
          [(falseNode, ⟨.substitution, atomicEdit⟩)] else []) ++
        (if expr.repr = falseNode.repr then
          [(trueNode, ⟨.substitution, atomicEdit⟩)] else []) ++
        [(bool2Node, ⟨.substitution, bool2Depth⟩)])
  | .loosening | .tightening => .ok [(bool2Node, ⟨.substitution, bool2Depth⟩)]
  | .initialization => .ok []

end synthesis

end F1X
