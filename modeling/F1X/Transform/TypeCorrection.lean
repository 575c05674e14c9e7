import F1X.Synthesis.WellFormed
import F1X.Transform.StmtToJSON

/-!
# Type correction of what the transformer writes

`correctTypes` stops with an exception where `commonSubtype` has no row for its
arguments, and with a failed assertion where the left argument of pointer
arithmetic is no pointer.  `Correctable` says on which C expressions neither
happens.
-/

namespace F1X

open F1X.Library

/--
No comparison of two bitwise operations and no pointer addition with the
pointer on the right; below the left argument of pointer arithmetic both are
harmless, as the recursion does not go there.
-/
def Correctable : Stmt → Prop
  | .implicitCast _ subExpr | .paren subExpr => Correctable subExpr
  | .unaryOperator _ _ subExpr => Correctable subExpr
  | .binaryOperator type opcode lhs rhs =>
      if type.isPointerType ∧ (opcode = .add ∨ opcode = .sub) then
        lhs.liftedType = .pointer ∧ Correctable rhs
      else
        (opcode = .eq ∨ opcode = .ne →
          ¬(lhs.liftedType = .bitvector ∧ rhs.liftedType = .bitvector)) ∧
        Correctable lhs ∧ Correctable rhs
  | _ => True

private theorem commonSubtype_total_iff {a b : ExprType} :
    (∃ type, commonSubtype a b = .ok type) ↔ ¬(a = .bitvector ∧ b = .bitvector) := by
  cases a <;> cases b <;> simp [commonSubtype]

private theorem binaryArgContext_total_iff {op : Operator} {left right : Expression}
    (hop : op ≠ .none) :
    (∃ argContext, binaryArgContext op left right = .ok argContext) ↔
      (operatorFirstArgType op = .ok .any →
        ¬(left.type = .bitvector ∧ right.type = .bitvector)) := by
  have hfirst : ∃ first, operatorFirstArgType op = .ok first := by
    cases op <;> first | exact ⟨_, rfl⟩ | exact absurd rfl hop
  obtain ⟨first, hfirst⟩ := hfirst
  simp only [binaryArgContext, hfirst, bind_eq_ok_iff, Except.ok.injEq, exists_eq_left']
  split
  · rename_i hany
    simp [hany, commonSubtype_total_iff]
  · rename_i hany
    simp [hany]

private theorem operatorFirstArgType_opcode (pointer : Bool) (opcode : BinaryOpcode) :
    operatorFirstArgType (opcode.operator pointer) = .ok .any ↔
      opcode = .eq ∨ opcode = .ne := by
  cases pointer <;> cases opcode <;> decide

private theorem operator_ne_none (pointer : Bool) (opcode : BinaryOpcode) :
    opcode.operator pointer ≠ .none := by
  cases pointer <;> cases opcode <;> decide

theorem operator_isPointer_iff (pointer : Bool) (opcode : BinaryOpcode) :
    (opcode.operator pointer = .ptrAdd ∨ opcode.operator pointer = .ptrSub) ↔
      pointer = true ∧ (opcode = .add ∨ opcode = .sub) := by
  cases pointer <;> cases opcode <;> decide

section Total

variable {type context : ExprType} {op : Operator} {rawType repr : String}
  {left right arg : Expression}

private theorem correctTypes_pointer_total_iff (hop : op = .ptrAdd ∨ op = .ptrSub) :
    (∃ corrected, correctTypes ⟨.operator, type, op, rawType, repr, [left, right]⟩ context =
        .ok corrected) ↔
      left.type = .pointer ∧ ∃ corrected, correctTypes right .integer = .ok corrected := by
  simp only [correctTypes_pointer_iff hop]
  constructor
  · rintro ⟨_, hleft, correctedRight, hright, -⟩
    exact ⟨hleft, correctedRight, hright⟩
  · rintro ⟨hleft, correctedRight, hright⟩
    exact ⟨_, hleft, correctedRight, hright, rfl⟩

private theorem correctTypes_binary_total_iff (hop : ¬(op = .ptrAdd ∨ op = .ptrSub)) :
    (∃ corrected, correctTypes ⟨.operator, type, op, rawType, repr, [left, right]⟩ context =
        .ok corrected) ↔
      ∃ argContext, binaryArgContext op left right = .ok argContext ∧
        (∃ corrected, correctTypes left argContext = .ok corrected) ∧
        ∃ corrected, correctTypes right argContext = .ok corrected := by
  simp only [correctTypes_binary_iff hop]
  constructor
  · rintro ⟨_, argContext, hcontext, correctedLeft, hleft, correctedRight, hright, -⟩
    exact ⟨argContext, hcontext, ⟨correctedLeft, hleft⟩, correctedRight, hright⟩
  · rintro ⟨argContext, hcontext, ⟨correctedLeft, hleft⟩, correctedRight, hright⟩
    exact ⟨_, argContext, hcontext, correctedLeft, hleft, correctedRight, hright, rfl⟩

end Total

/-- What loading makes of the JSON tree of a C expression. -/
structure LoadedAs (stmt : Stmt) (expression : Expression) : Prop where
  load : convertExpression (stmtToJSON stmt) = .ok expression
  type : expression.type = stmt.liftedType
  correctTypes : ∀ context,
    (∃ corrected, correctTypes expression context = .ok corrected) ↔ Correctable stmt

theorem loadedAs_leaf {stmt : Stmt} {kindStr typeStr rawType text : String}
    {kind : NodeKind} (hjson : stmtToJSON stmt = .leaf kindStr typeStr rawType text)
    (hkindStr : kindByString kindStr = .ok kind)
    (hkind : kind = .variable ∨ kind = .constant ∨ kind = .parameter ∨ kind = .dereference)
    (htype : approxType typeStr = stmt.liftedType) (hcorrectable : Correctable stmt) :
    LoadedAs stmt ⟨kind, approxType typeStr, .none, rawType, text, []⟩ where
  load := by rw [hjson, convertExpression, hkindStr]; rfl
  type := htype
  correctTypes := by
    intro context
    simp [correctTypes_leaf_iff, hkind, hcorrectable]

theorem LoadedAs.unary {type : CType} {opcode : UnaryOpcode} {subExpr : Stmt}
    {arg : Expression} (harg : LoadedAs subExpr arg) :
    ∃ expression, LoadedAs (.unaryOperator type opcode subExpr) expression := by
  have hop : ∃ result argContext,
      operatorOutputType opcode.operator = .ok result ∧
        operatorFirstArgType opcode.operator = .ok argContext ∧
          result = (Stmt.unaryOperator type opcode subExpr).liftedType := by
    cases opcode <;> exact ⟨_, _, rfl, rfl, rfl⟩
  obtain ⟨result, argContext, hresult, hcontext, htype⟩ := hop
  refine ⟨⟨.operator, result, opcode.operator, clangKindToString type.builtinKind,
    opcode.text, [arg]⟩, ?_, htype, ?_⟩
  · simp [stmtToJSON, convertExpression, convertArguments, harg.load, operatorByArity,
      unaryOperatorByString_opcode, hresult, bind_eq_ok_iff,
      show kindByString "operator" = .ok .operator from rfl]
  · intro context
    simp [correctTypes_unary_iff, hcontext, harg.correctTypes, Correctable]

theorem LoadedAs.binary {type : CType} {opcode : BinaryOpcode} {lhs rhs : Stmt}
    {left right : Expression} (hleft : LoadedAs lhs left) (hright : LoadedAs rhs right) :
    ∃ expression, LoadedAs (.binaryOperator type opcode lhs rhs) expression := by
  obtain ⟨result, hresult, htype⟩ : ∃ result,
      operatorOutputType (opcode.operator type.isPointerType) = .ok result ∧
        result = (Stmt.binaryOperator type opcode lhs rhs).liftedType := by
    cases type <;> cases opcode <;> exact ⟨_, rfl, rfl⟩
  refine ⟨⟨.operator, result, opcode.operator type.isPointerType, type.rawType,
    opcode.text, [left, right]⟩, ?_, htype, ?_⟩
  · simp [stmtToJSON, convertExpression, convertArguments, hleft.load, hright.load,
      operatorByArity, binaryOperatorByString_opcode, hresult, bind_eq_ok_iff,
      show kindByString "operator" = .ok .operator from rfl]
  · intro context
    have hpointer := operator_isPointer_iff type.isPointerType opcode
    rw [Correctable]
    split
    · rename_i hif
      rw [correctTypes_pointer_total_iff (hpointer.mpr hif), hright.correctTypes, hleft.type]
    · rename_i hif
      have hne := operator_ne_none type.isPointerType opcode
      rw [correctTypes_binary_total_iff (mt hpointer.mp hif)]
      simp only [hleft.correctTypes, hright.correctTypes, exists_and_right]
      rw [binaryArgContext_total_iff hne, operatorFirstArgType_opcode, hleft.type, hright.type]

theorem exists_loadedAs (stmt : Stmt) : ∃ expression, LoadedAs stmt expression := by
  induction stmt with
  | declRef type text | arraySubscript type text | cast type text =>
      exact ⟨_, loadedAs_leaf rfl rfl (.inl rfl) (approxType_typeStr type) trivial⟩
  | member type isArrow text =>
      cases isArrow with
      | false => exact ⟨_, loadedAs_leaf rfl rfl (.inl rfl) (approxType_typeStr type) trivial⟩
      | true =>
          exact ⟨_, loadedAs_leaf rfl rfl (.inr (.inr (.inr rfl))) (approxType_typeStr type)
            trivial⟩
  | integerLiteral kind text | characterLiteral text =>
      exact ⟨_, loadedAs_leaf rfl rfl (.inr (.inl rfl)) rfl trivial⟩
  | implicitCast type subExpr ih | paren subExpr ih =>
      obtain ⟨expression, h⟩ := ih
      exact ⟨expression, h.load, h.type, h.correctTypes⟩
  | unaryOperator type opcode subExpr ih =>
      obtain ⟨arg, harg⟩ := ih
      exact harg.unary
  | binaryOperator type opcode lhs rhs ihLeft ihRight =>
      obtain ⟨left, hleft⟩ := ihLeft
      obtain ⟨right, hright⟩ := ihRight
      exact hleft.binary hright

theorem type_eq_liftedType {stmt : Stmt} {expression : Expression}
    (h : convertExpression (stmtToJSON stmt) = .ok expression) :
    expression.type = stmt.liftedType := by
  obtain ⟨loaded, hloaded⟩ := exists_loadedAs stmt
  rw [← Except.ok.inj (hloaded.load.symm.trans h), hloaded.type]

/--
Every tree of the transformer is loaded, and type correction returns for it, in
every context, exactly when the expression is correctable.
-/
theorem correctTypes_total_iff (stmt : Stmt) :
    ∃ expression, convertExpression (stmtToJSON stmt) = .ok expression ∧
      ∀ context, (∃ corrected, correctTypes expression context = .ok corrected) ↔
        Correctable stmt := by
  obtain ⟨expression, h⟩ := exists_loadedAs stmt
  exact ⟨expression, h.load, h.correctTypes⟩

def intVariable (name : String) : Stmt := .declRef (.builtin .int) name

/-- `n + p` for an integer `n` and a pointer `p`. -/
def offsetFirst : Stmt :=
  .binaryOperator (.pointer "int" false) .add (intVariable "n")
    (.declRef (.pointer "int" false) "p")

/-- `(a & b) == (c & d)`. -/
def sameBits : Stmt :=
  .binaryOperator (.builtin .int) .eq
    (.binaryOperator (.builtin .int) .and (intVariable "a") (intVariable "b"))
    (.binaryOperator (.builtin .int) .and (intVariable "c") (intVariable "d"))

theorem sameBits_offsetFirst_throw :
    (∃ expression, convertExpression (stmtToJSON sameBits) = .ok expression ∧
      correctTypes expression .boolean = .error (.invalidArgument "unsupported type")) ∧
    ∃ expression, convertExpression (stmtToJSON offsetFirst) = .ok expression ∧
      correctTypes expression .boolean = .error .assertionFailed :=
  ⟨⟨_, rfl, rfl⟩, ⟨_, rfl, rfl⟩⟩

end F1X
