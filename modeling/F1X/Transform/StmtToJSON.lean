import F1X.Loading

/-!
# The expressions of the transformer

The nodes of the C syntax tree that `StmtToJSON` of `transform/TransformUtil.cpp`
visits, with the types that the compiler gives them, and the JSON tree that it
writes for them.
-/

namespace F1X

open F1X.Library

/-- `clang::BuiltinType::Kind`; `other` is every kind without a name of its own. -/
inductive BuiltinKind where
  | charU | uChar | wCharU | uShort | uInt | uLong | uLongLong
  | charS | sChar | wCharS | short | int | long | longLong
  | other
  deriving DecidableEq, Repr

def clangKindToString : BuiltinKind → String
  | .charU => "char"
  | .uChar => "unsigned char"
  | .wCharU => "wchar_t"
  | .uShort => "unsigned short"
  | .uInt => "unsigned int"
  | .uLong => "unsigned long"
  | .uLongLong => "unsigned long long"
  | .charS => "char"
  | .sChar => "char"
  | .wCharS => "wchar_t"
  | .short => "short"
  | .int => "int"
  | .long => "long"
  | .longLong => "long long"
  -- the default is `DEFAULT_NUMERIC_TYPE`
  | .other => "long"

/-- The type of a C expression; arrays count as pointers to their elements. -/
inductive CType where
  | builtin (kind : BuiltinKind)
  | pointer (pointee : String) (incomplete : Bool)
  deriving DecidableEq, Repr

namespace CType

def isPointerType : CType → Bool
  | .builtin _ => false
  | .pointer _ _ => true

def typeStr (type : CType) : String :=
  if type.isPointerType then "pointer" else "integer"

def rawType : CType → String
  | .builtin kind => clangKindToString kind
  | .pointer pointee _ => pointee

/-- A type that is not built in counts as the default numeric type. -/
def builtinKind : CType → BuiltinKind
  | .builtin kind => kind
  | .pointer _ _ => .other

end CType

inductive UnaryOpcode where
  | minus | lnot | not
  deriving DecidableEq, Repr

inductive BinaryOpcode where
  | eq | ne | lt | le | gt | ge | lor | land
  | add | sub | mul | div | rem
  | and | or | xor | shl | shr
  deriving DecidableEq, Repr

def UnaryOpcode.text : UnaryOpcode → String
  | .minus => "-"
  | .lnot => "!"
  | .not => "~"

def BinaryOpcode.text : BinaryOpcode → String
  | .eq => "=="
  | .ne => "!="
  | .lt => "<"
  | .le => "<="
  | .gt => ">"
  | .ge => ">="
  | .lor => "||"
  | .land => "&&"
  | .add => "+"
  | .sub => "-"
  | .mul => "*"
  | .div => "/"
  | .rem => "%"
  | .and => "&"
  | .or => "|"
  | .xor => "^"
  | .shl => "<<"
  | .shr => ">>"

/-- A C expression with the type of every node; `text` is its source text. -/
inductive Stmt where
  | declRef (type : CType) (text : String)
  | member (type : CType) (isArrow : Bool) (text : String)
  | arraySubscript (type : CType) (text : String)
  | cast (type : CType) (text : String)
  | integerLiteral (kind : BuiltinKind) (text : String)
  | characterLiteral (text : String)
  | implicitCast (type : CType) (subExpr : Stmt)
  | paren (subExpr : Stmt)
  | unaryOperator (type : CType) (opcode : UnaryOpcode) (subExpr : Stmt)
  | binaryOperator (type : CType) (opcode : BinaryOpcode) (lhs rhs : Stmt)
  deriving DecidableEq, Repr

/-- `StmtToJSON`; the members `base` and `incomplete` are for the components only. -/
def stmtToJSON : Stmt → ExpressionJson
  | .declRef type text => .leaf "variable" type.typeStr type.rawType text
  | .member type isArrow text =>
      .leaf (if isArrow then "dereference" else "variable") type.typeStr type.rawType text
  | .arraySubscript type text => .leaf "variable" type.typeStr type.rawType text
  | .cast type text => .leaf "variable" type.typeStr type.rawType text
  | .integerLiteral kind text => .leaf "constant" "integer" (clangKindToString kind) text
  | .characterLiteral text => .leaf "constant" "integer" "char" text
  | .implicitCast _ subExpr => stmtToJSON subExpr
  | .paren subExpr => stmtToJSON subExpr
  | .unaryOperator type opcode subExpr =>
      .node "operator" "integer" (clangKindToString type.builtinKind) opcode.text
        [stmtToJSON subExpr]
  | .binaryOperator type opcode lhs rhs =>
      .node "operator" type.typeStr type.rawType opcode.text
        [stmtToJSON lhs, stmtToJSON rhs]

/-! ## Loading what was written -/

def UnaryOpcode.operator : UnaryOpcode → Operator
  | .minus => .neg
  | .lnot => .not
  | .not => .bvNot

def BinaryOpcode.operator (pointer : Bool) : BinaryOpcode → Operator
  | .eq => .eq
  | .ne => .neq
  | .lt => .lt
  | .le => .le
  | .gt => .gt
  | .ge => .ge
  | .lor => .or
  | .land => .and
  | .add => if pointer then .ptrAdd else .add
  | .sub => if pointer then .ptrSub else .sub
  | .mul => .mul
  | .div => .div
  | .rem => .mod
  | .and => .bvAnd
  | .or => .bvOr
  | .xor => .bvXor
  | .shl => .bvShl
  | .shr => .bvShr

theorem unaryOperatorByString_opcode (opcode : UnaryOpcode) :
    unaryOperatorByString opcode.text = .ok opcode.operator := by
  cases opcode <;> rfl

theorem approxType_typeStr (type : CType) :
    approxType type.typeStr = if type.isPointerType then .pointer else .integer := by
  cases type <;> rfl

theorem binaryOperatorByString_opcode (type : CType) (opcode : BinaryOpcode) :
    binaryOperatorByString opcode.text (approxType type.typeStr) =
      .ok (opcode.operator type.isPointerType) := by
  cases type <;> cases opcode <;> rfl

/-- The type that the loader gives to a node. -/
def Stmt.liftedType : Stmt → ExprType
  | .declRef type _ | .member type _ _ | .arraySubscript type _ | .cast type _ =>
      if type.isPointerType then .pointer else .integer
  | .integerLiteral _ _ | .characterLiteral _ => .integer
  | .implicitCast _ subExpr | .paren subExpr => subExpr.liftedType
  | .unaryOperator _ opcode _ =>
      match opcode with
      | .minus => .integer
      | .lnot => .boolean
      | .not => .bitvector
  | .binaryOperator type opcode _ _ =>
      match opcode with
      | .eq | .ne | .lt | .le | .gt | .ge | .lor | .land => .boolean
      | .add | .sub => if type.isPointerType then .pointer else .integer
      | .mul | .div | .rem => .integer
      | .and | .or | .xor | .shl | .shr => .bitvector

/-! ## What an operator is loaded as -/

theorem convertExpression_unaryOperator {type : CType} {opcode : UnaryOpcode} {subExpr : Stmt}
    {expression : Expression}
    (h : convertExpression (stmtToJSON (.unaryOperator type opcode subExpr)) = .ok expression) :
    ∃ resultType arg, convertExpression (stmtToJSON subExpr) = .ok arg ∧
      expression = ⟨.operator, resultType, opcode.operator,
        clangKindToString type.builtinKind, opcode.text, [arg]⟩ := by
  rw [stmtToJSON] at h
  obtain ⟨op, resultType, args, -, hop, -, hargs, rfl⟩ := convertExpression_node_inv h
  obtain ⟨arg, rest, harg, hrest, rfl⟩ := convertArguments_cons_inv hargs
  have hop : unaryOperatorByString opcode.text = .ok op := hop
  rw [unaryOperatorByString_opcode] at hop
  cases hop
  cases hrest
  exact ⟨resultType, arg, harg, rfl⟩

theorem convertExpression_binaryOperator {type : CType} {opcode : BinaryOpcode}
    {lhs rhs : Stmt} {expression : Expression}
    (h : convertExpression (stmtToJSON (.binaryOperator type opcode lhs rhs)) =
      .ok expression) :
    ∃ resultType left right, convertExpression (stmtToJSON lhs) = .ok left ∧
      convertExpression (stmtToJSON rhs) = .ok right ∧
        expression = ⟨.operator, resultType, opcode.operator type.isPointerType,
          type.rawType, opcode.text, [left, right]⟩ := by
  rw [stmtToJSON] at h
  obtain ⟨op, resultType, args, -, hop, -, hargs, rfl⟩ := convertExpression_node_inv h
  obtain ⟨left, rest, hleft, hrest, rfl⟩ := convertArguments_cons_inv hargs
  obtain ⟨right, none, hright, hnone, rfl⟩ := convertArguments_cons_inv hrest
  have hop : binaryOperatorByString opcode.text (approxType type.typeStr) = .ok op := hop
  rw [binaryOperatorByString_opcode] at hop
  cases hop
  cases hnone
  exact ⟨resultType, left, right, hleft, hright, rfl⟩

end F1X
