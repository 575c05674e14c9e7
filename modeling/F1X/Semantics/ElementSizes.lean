import F1X.Semantics.Translation
import F1X.Transform.Expr
import F1X.Transform.TypeCorrection

/-!
# Element sizes

The runtime scales the offset of a pointer addition by the size of the pointee.
Sizes are passed for the complete pointees of the components, and the one that
is looked up is named by the left argument of the addition.  Type correction and
edits keep these names, so the C expression and its components decide.
-/

namespace F1X

open F1X.Library F1X.synthesis F1X.generator

/-! ## The sizes that an expression needs -/

/-- A pointer addition, at any depth, looks up the size of this type. -/
inductive NeedsSize (size : String) : Expression → Prop
  | here {type : ExprType} {op : Operator} {rawType repr : String} {left right : Expression}
      (hop : isPointerArithmetic op) (hleft : left.rawType = size) :
      NeedsSize size ⟨.operator, type, op, rawType, repr, [left, right]⟩
  | inArg {expr arg : Expression} (hmem : arg ∈ expr.args) (h : NeedsSize size arg) :
      NeedsSize size expr

section NeedsSize

variable {size : String} {kind : NodeKind} {type : ExprType} {op : Operator}
  {rawType repr : String} {expression arg left right : Expression}

theorem not_needsSize_of_leaf (h : expression.args = []) : ¬NeedsSize size expression := by
  intro hneeds
  cases hneeds with
  | here => cases h
  | inArg hmem => simp [h] at hmem

theorem needsSize_unary_iff :
    NeedsSize size ⟨kind, type, op, rawType, repr, [arg]⟩ ↔ NeedsSize size arg := by
  constructor
  · intro h
    cases h with
    | inArg hmem h =>
        obtain rfl := List.mem_singleton.mp hmem
        exact h
  · exact .inArg (List.mem_singleton_self _)

theorem needsSize_binary_iff :
    NeedsSize size ⟨.operator, type, op, rawType, repr, [left, right]⟩ ↔
      isPointerArithmetic op ∧ left.rawType = size ∨ NeedsSize size left ∨
        NeedsSize size right := by
  constructor
  · intro h
    cases h with
    | here hop hleft => exact .inl ⟨hop, hleft⟩
    | inArg hmem h =>
        rcases List.mem_pair.mp hmem with rfl | rfl
        · exact .inr (.inl h)
        · exact .inr (.inr h)
  · rintro (⟨hop, hleft⟩ | h | h)
    · exact .here hop hleft
    · exact .inArg (by simp) h
    · exact .inArg (by simp) h

theorem needsSize_comparison_iff (hop : ¬isPointerArithmetic op) (hright : right.args = []) :
    NeedsSize size (applyBoolOperator op left right) ↔ NeedsSize size left := by
  rw [applyBoolOperator, needsSize_binary_iff]
  simp [hop, not_needsSize_of_leaf hright]

end NeedsSize

/-! ## Type correction -/

/-- Additions that correction and edits reach have a pointer on their left. -/
inductive PointerFirst : Expression → Prop
  | leaf (kind : NodeKind) (type : ExprType) (op : Operator) (rawType repr : String) :
      PointerFirst ⟨kind, type, op, rawType, repr, []⟩
  | unary (type : ExprType) (op : Operator) (rawType repr : String) {arg : Expression}
      (harg : PointerFirst arg) : PointerFirst ⟨.operator, type, op, rawType, repr, [arg]⟩
  | binary (type : ExprType) {op : Operator} (rawType repr : String) {left right : Expression}
      (hop : ¬isPointerArithmetic op) (hleft : PointerFirst left)
      (hright : PointerFirst right) :
      PointerFirst ⟨.operator, type, op, rawType, repr, [left, right]⟩
  | addition (type : ExprType) {op : Operator} (rawType repr : String)
      {left right : Expression} (hop : isPointerArithmetic op)
      (hpointer : left.type = .pointer) (hright : PointerFirst right) :
      PointerFirst ⟨.operator, type, op, rawType, repr, [left, right]⟩

section Correction

variable {size : String} {expression corrected : Expression} {context : ExprType}

private theorem correctTopNode_needsSize_iff
    (hconstant : expression.kind = .constant → expression.args = []) (context : ExprType) :
    NeedsSize size (correctTopNode expression context) ↔ NeedsSize size expression := by
  refine correctTopNode_cases
    (P := fun corrected => NeedsSize size corrected ↔ NeedsSize size expression) context
    Iff.rfl (fun _ _ _ _ => needsSize_unary_iff)
    (needsSize_comparison_iff (not_isPointerArithmetic (by simp)) rfl)
    (needsSize_comparison_iff (not_isPointerArithmetic (by simp)) rfl) fun hkind => ?_
  have hnot : ¬NeedsSize size expression := not_needsSize_of_leaf (hconstant hkind)
  exact ⟨iff_of_false (not_needsSize_of_leaf rfl) hnot,
    iff_of_false (not_needsSize_of_leaf rfl) hnot⟩

private theorem correctTypes_needsSize_iff (hwell : expression.WellFormed)
    (h : correctTypes expression context = .ok corrected) :
    NeedsSize size corrected ↔ NeedsSize size expression := by
  refine correctTypes_induction
    (P := fun expression corrected => NeedsSize size corrected ↔ NeedsSize size expression)
    (fun _ _ _ _ => Iff.rfl) ?_ ?_ ?_
    (fun context hconstant ih => (correctTopNode_needsSize_iff hconstant context).trans ih)
    hwell h
  · intro type op rawType arg correctedArg _ ih
    rw [needsSize_unary_iff, needsSize_unary_iff, ih]
  · intro type op rawType left right correctedRight _ _ _ ihRight
    rw [needsSize_binary_iff, needsSize_binary_iff, ihRight]
  · intro type op rawType left right correctedLeft correctedRight _ hpointer ihLeft ihRight
    have hnot : ¬isPointerArithmetic op := hpointer
    rw [needsSize_binary_iff, needsSize_binary_iff, ihLeft, ihRight]
    simp [hnot]

private theorem correctTopNode_pointerFirst (h : PointerFirst expression) (context : ExprType) :
    PointerFirst (correctTopNode expression context) := by
  have hcheck : ∀ {op : Operator} {other : Expression}, op = .eq ∨ op = .neq →
      PointerFirst other → PointerFirst (applyBoolOperator op expression other) := by
    intro op other hop hother
    refine .binary _ _ _ (not_isPointerArithmetic ?_) h hother
    rcases hop with rfl | rfl <;> simp
  exact correctTopNode_cases context h (fun _ _ _ _ => .unary _ _ _ _ h)
    (hcheck (.inr rfl) (.leaf _ _ _ _ _)) (hcheck (.inl rfl) (.leaf _ _ _ _ _))
    fun _ => ⟨.leaf _ _ _ _ _, .leaf _ _ _ _ _⟩

private theorem correctTypes_pointerFirst (hwell : expression.WellFormed)
    (h : correctTypes expression context = .ok corrected) : PointerFirst corrected :=
  correctTypes_induction (P := fun _ corrected => PointerFirst corrected)
    (fun _ _ _ _ => .leaf _ _ _ _ _) (fun _ harg => .unary _ _ _ _ harg)
    (fun hop htype _ hright => .addition _ _ _ hop htype hright)
    (fun _ hop hleft hright => .binary _ _ _ hop hleft hright)
    (fun context _ h => correctTopNode_pointerFirst h context) hwell h

end Correction

/-! ## Edits -/

namespace PointerFirst

variable {expr arg left right : Expression}

theorem unary_args (h : PointerFirst expr) (hargs : expr.args = [arg]) :
    PointerFirst arg ∧
      ∃ type op rawType repr, expr = ⟨.operator, type, op, rawType, repr, [arg]⟩ := by
  cases h with
  | leaf | binary | addition => cases hargs
  | unary type op rawType repr harg =>
      cases hargs
      exact ⟨harg, type, op, rawType, repr, rfl⟩

theorem binary_args (h : PointerFirst expr) (hargs : expr.args = [left, right]) :
    PointerFirst right ∧
      (isPointerArithmetic expr.op → left.type = .pointer) ∧
      (¬isPointerArithmetic expr.op → PointerFirst left) ∧
      ∃ type op rawType repr, expr = ⟨.operator, type, op, rawType, repr, [left, right]⟩ := by
  cases h with
  | leaf | unary => cases hargs
  | binary type rawType repr hop hleft hright =>
      cases hargs
      exact ⟨hright, fun h => absurd h hop, fun _ => hleft, type, _, rawType, repr, rfl⟩
  | addition type rawType repr hop hpointer hright =>
      cases hargs
      exact ⟨hright, fun _ => hpointer, fun h => absurd hop h, type, _, rawType, repr, rfl⟩

end PointerFirst

namespace synthesis

variable {components : List Expression} {expr modified : Expression} {metadata : PatchMetadata}
  {size : String}

private theorem Edit.needsSize (edit : Edit components expr modified metadata)
    (hleaf : ∀ component ∈ components, component.args = []) (hfirst : PointerFirst expr)
    (h : NeedsSize size modified) : NeedsSize size expr := by
  induction edit with
  | condition | parametrize | concretize | nullify =>
      exact absurd h (not_needsSize_of_leaf rfl)
  | generalize _ _ _ hmem | substitute _ _ _ hmem | redirect _ _ _ hmem =>
      exact absurd h (not_needsSize_of_leaf (hleaf _ hmem))
  | mutate hhead hoperators hmem =>
      have hpointer := mutatedOperators_pointer hoperators hmem
      cases hfirst with
      | leaf => cases hhead
      | unary => exact needsSize_unary_iff.mpr (needsSize_unary_iff.mp h)
      | binary | addition =>
          rw [withOperator, needsSize_binary_iff, hpointer] at h
          exact needsSize_binary_iff.mpr h
  | arg hargs _ ih =>
      obtain ⟨harg, type, op, rawType, repr, rfl⟩ := hfirst.unary_args hargs
      exact needsSize_unary_iff.mpr (ih harg (needsSize_unary_iff.mp h))
  | left hargs noPointer _ ih =>
      obtain ⟨-, -, hleft, type, op, rawType, repr, rfl⟩ := hfirst.binary_args hargs
      have hop : ¬isPointerArithmetic op := not_or.mpr noPointer
      rcases needsSize_binary_iff.mp h with ⟨hop', -⟩ | h | h
      · exact absurd hop' hop
      · exact .inArg (by simp) (ih (hleft hop) h)
      · exact .inArg (by simp) h
  | right hargs _ ih =>
      obtain ⟨hright, -, -, type, op, rawType, repr, rfl⟩ := hfirst.binary_args hargs
      rcases needsSize_binary_iff.mp h with ⟨hop, hname⟩ | h | h
      · exact .here hop hname
      · exact .inArg (by simp) h
      · exact .inArg (by simp) (ih hright h)
  | castLeft hargs integer =>
      obtain ⟨-, hpointer, -, type, op, rawType, repr, rfl⟩ := hfirst.binary_args hargs
      rcases needsSize_binary_iff.mp h with ⟨hop, -⟩ | h | h
      · rw [hpointer hop] at integer
        cases integer
      · exact .inArg (by simp) (needsSize_unary_iff.mp h)
      · exact .inArg (by simp) h
  | castRight hargs =>
      obtain ⟨-, -, -, type, op, rawType, repr, rfl⟩ := hfirst.binary_args hargs
      rcases needsSize_binary_iff.mp h with ⟨hop, hname⟩ | h | h
      · exact .here hop hname
      · exact .inArg (by simp) h
      · exact .inArg (by simp) (needsSize_unary_iff.mp h)
  | simplifyArg hargs | simplifyLeft hargs | simplifyRight hargs =>
      exact .inArg (by simp [hargs]) h

private theorem exists_edit_needsSize (components : List Expression) (hfirst : PointerFirst expr)
    (h : NeedsSize size expr) :
    ∃ modified metadata, Edit components expr modified metadata ∧ NeedsSize size modified := by
  induction hfirst with
  | leaf => exact absurd h (not_needsSize_of_leaf rfl)
  | unary type op rawType repr harg ih =>
      obtain ⟨modified, metadata, edit, hmodified⟩ := ih (needsSize_unary_iff.mp h)
      exact ⟨_, _, .arg rfl edit, needsSize_unary_iff.mpr hmodified⟩
  | binary type rawType repr hop hleft hright ihLeft ihRight =>
      rcases needsSize_binary_iff.mp h with ⟨hop', -⟩ | h | h
      · exact absurd hop' hop
      · obtain ⟨modified, metadata, edit, hmodified⟩ := ihLeft h
        exact ⟨_, _, .left rfl (not_or.mp hop) edit,
          needsSize_binary_iff.mpr (.inr (.inl hmodified))⟩
      · obtain ⟨modified, metadata, edit, hmodified⟩ := ihRight h
        exact ⟨_, _, .right rfl edit, needsSize_binary_iff.mpr (.inr (.inr hmodified))⟩
  | @addition type op rawType repr left right hop hpointer hright =>
      obtain ⟨mutant, hmutated, hmutant⟩ : ∃ mutant,
          mutatedOperators ⟨.operator, type, op, rawType, repr, [left, right]⟩ left =
            .ok [mutant] ∧ isPointerArithmetic mutant := by
        rw [mutatedOperators, if_pos hpointer]
        rcases hop with rfl | rfl
        · exact ⟨_, rfl, .inr rfl⟩
        · exact ⟨_, rfl, .inl rfl⟩
      refine ⟨_, _, .mutate rfl hmutated (List.mem_singleton_self _), ?_⟩
      rw [withOperator, needsSize_binary_iff]
      exact (needsSize_binary_iff.mp h).imp_left fun h => ⟨hmutant, h.2⟩

private theorem baseModifications_needsSize {schema : TransformationSchema}
    (hleaf : ∀ component ∈ components, component.args = []) (hfirst : PointerFirst expr)
    {modifications : List Modification}
    (h : baseModifications schema expr components = .ok modifications) :
    ∀ m ∈ modifications, NeedsSize size m.1 → NeedsSize size expr := by
  have hconnective : ∀ {op : Operator}, op = .or ∨ op = .and →
      NeedsSize size (applyBoolOperator op expr bool2Node) → NeedsSize size expr := by
    intro op hop
    refine (needsSize_comparison_iff (not_isPointerArithmetic ?_) rfl).mp
    rcases hop with rfl | rfl <;> simp
  refine baseModifications_forall (fun _ _ _ edit => edit.needsSize hleaf hfirst)
    (fun _ => hconnective (.inl rfl)) (fun _ => hconnective (.inr rfl)) ?_ ?_ ?_ h
  all_goals
    intro hneeds
    exact absurd hneeds (not_needsSize_of_leaf rfl)

private theorem Atomic.not_needsSize {condition : Expression} (atomic : Atomic components condition)
    (hleaf : ∀ component ∈ components, component.args = []) : ¬NeedsSize size condition := by
  have hcomparison : ∀ {op : Operator} {left right : Expression},
      op ∈ [Operator.eq, .neq, .lt, .le, .gt, .ge] → left.args = [] → right.args = [] →
        ¬NeedsSize size (applyBoolOperator op left right) := by
    intro op left right hop hleft hright h
    refine not_needsSize_of_leaf hleft ((needsSize_comparison_iff ?_ hright).mp h)
    exact not_isPointerArithmetic (List.mem_append_left [Operator.or, .and] hop)
  have hequality : ∀ {op : Operator}, op = .eq ∨ op = .neq →
      op ∈ [Operator.eq, .neq, .lt, .le, .gt, .ge] := by
    rintro op (rfl | rfl) <;> simp
  cases atomic with
  | null op hleft hop => exact hcomparison (hequality hop) (hleaf _ hleft) rfl
  | parameter op hleft hop => exact hcomparison hop (hleaf _ hleft) rfl
  | pointers op hleft hright hop =>
      exact hcomparison (hequality hop) (hleaf _ hleft) (hleaf _ hright)
  | integers op hleft hright hop => exact hcomparison hop (hleaf _ hleft) (hleaf _ hright)

end synthesis

/-! ## The additions of a C expression -/

namespace Expr

def writtenType : Expr → String
  | .declRef type _ | .member type _ _ _ | .arraySubscript type _ _ | .cast type _
  | .binaryOperator type _ _ _ => type.ctype.rawType
  | .integerLiteral kind _ => clangKindToString kind
  | .characterLiteral _ => "char"
  | .implicitCast _ _ subExpr | .paren subExpr => subExpr.writtenType
  | .unaryOperator type _ _ => clangKindToString type.ctype.builtinKind

/-- The left operands of the additions and subtractions that give a pointer. -/
def shifted : Expr → List Expr
  | .declRef _ _ | .member _ _ _ _ | .arraySubscript _ _ _ | .cast _ _
  | .integerLiteral _ _ | .characterLiteral _ => []
  | .implicitCast _ _ subExpr | .paren subExpr | .unaryOperator _ _ subExpr => subExpr.shifted
  | .binaryOperator type opcode lhs rhs =>
      (if type.isPointerType ∧ (opcode = .add ∨ opcode = .sub) then [lhs] else []) ++
        lhs.shifted ++ rhs.shifted

end Expr

theorem QualType.ctype_isPointerType (type : QualType) :
    type.ctype.isPointerType = type.isPointerType := by
  cases type <;> rfl

theorem isPointerArithmetic_opcode (type : QualType) (opcode : BinaryOpcode) :
    isPointerArithmetic (opcode.operator type.ctype.isPointerType) ↔
      type.isPointerType ∧ (opcode = .add ∨ opcode = .sub) := by
  rw [← QualType.ctype_isPointerType]
  exact operator_isPointer_iff _ opcode

theorem convertExpression_rawType {print : Expr → String} {expr : Expr}
    {expression : Expression}
    (h : convertExpression (stmtToJSON (expr.stmt print)) = .ok expression) :
    expression.rawType = expr.writtenType := by
  induction expr generalizing expression with
  | declRef | arraySubscript | cast | integerLiteral | characterLiteral =>
      cases h
      rfl
  | member type base isArrow name =>
      cases isArrow <;> cases h <;> rfl
  | implicitCast _ _ _ ih | paren _ ih => exact ih h
  | unaryOperator =>
      obtain ⟨resultType, arg, -, rfl⟩ := convertExpression_unaryOperator h
      rfl
  | binaryOperator =>
      obtain ⟨resultType, left, right, -, -, rfl⟩ := convertExpression_binaryOperator h
      rfl

private theorem convertExpression_needsSize_iff {print : Expr → String} {expr : Expr}
    {expression : Expression} {size : String}
    (h : convertExpression (stmtToJSON (expr.stmt print)) = .ok expression) :
    NeedsSize size expression ↔ ∃ lhs ∈ expr.shifted, lhs.writtenType = size := by
  induction expr generalizing expression with
  | declRef | arraySubscript | cast | integerLiteral | characterLiteral =>
      cases h
      simp [Expr.shifted, not_needsSize_of_leaf]
  | member type base isArrow name =>
      cases isArrow <;> cases h <;> simp [Expr.shifted, not_needsSize_of_leaf]
  | implicitCast _ _ _ ih | paren _ ih => exact ih h
  | unaryOperator type opcode subExpr ih =>
      obtain ⟨resultType, arg, harg, rfl⟩ := convertExpression_unaryOperator h
      exact needsSize_unary_iff.trans (ih harg)
  | binaryOperator type opcode lhs rhs ihLeft ihRight =>
      obtain ⟨resultType, left, right, hleft, hright, rfl⟩ := convertExpression_binaryOperator h
      rw [needsSize_binary_iff, ihLeft hleft, ihRight hright, isPointerArithmetic_opcode,
        convertExpression_rawType hleft, Expr.shifted]
      by_cases hadds : type.isPointerType ∧ (opcode = .add ∨ opcode = .sub)
      · simp [hadds, or_and_right, exists_or]
      · simp [hadds, or_and_right, exists_or]

/-! ## The sizes that are passed -/

/-- The type is a key of `typeSizes`. -/
def SizeKnown (sa : SchemaApplication) (size : String) : Prop :=
  size ∈ sa.completePointeeTypes ∧ typeSizes sa size ≠ ""

private theorem typeSizes_eq_empty {sa : SchemaApplication} {size : String}
    (h : size ∉ sa.completePointeeTypes) : typeSizes sa size = "" := by
  apply assignAll_of_notMem
  intro hmem
  obtain ⟨entry, hentry, rfl⟩ := List.mem_map.mp hmem
  obtain ⟨index, hindex, rfl⟩ := List.mem_mapIdx.mp hentry
  exact h (List.getElem_mem hindex)

private theorem sizeKnown_iff {sa : SchemaApplication} {size : String} :
    SizeKnown sa size ↔ size ∈ sa.completePointeeTypes := by
  refine ⟨And.left, fun h => ⟨h, ?_⟩⟩
  obtain ⟨index, other, -, -, hsize⟩ := indexed_mem sizesArgName id h
  have hsize : typeSizes sa size = element sizesArgName index := hsize
  rw [hsize]
  exact element_ne_empty _ _

/-- The size of the type that is written for this operand is passed for a component. -/
def PassesSize (components : List Expr) (lhs : Expr) : Prop :=
  ∃ c ∈ components, c.type.isPointerType = true ∧
    c.type.getPointeeType = (lhs.writtenType, false)

theorem mem_completePointees_component {print : Expr → String} {components : List Expr}
    {size : String} :
    size ∈ completePointees (components.map (Expr.component print)) ↔
      ∃ c ∈ components, c.type.isPointerType = true ∧ c.type.getPointeeType = (size, false) := by
  have hcomponent : ∀ c : Expr, ((c.component print).hasCompletePointee = true ∧
      (c.component print).rawType = size) ↔
        c.type.isPointerType = true ∧ c.type.getPointeeType = (size, false) := by
    intro c
    unfold Expr.component ComponentJson.hasCompletePointee ComponentJson.rawType QualType.ctype
    by_cases hpointer : c.type.isPointerType = true
    · simp [hpointer, CType.rawType, Prod.ext_iff, and_comm]
    · simp [hpointer]
  simp only [completePointees, List.mem_map, List.mem_filter, exists_exists_and_eq_and,
    ← hcomponent, and_assoc]

/-- The objects that the transformer writes; the guard of a statement is the constant 1. -/
inductive IsWrittenFor (print : Expr → String) : Expr → List Expr → ApplicationJson → Prop
  | expression (useGlobalVariables : Bool) (appId : Int) (location : LocationJson)
      (context : String) (expr : Expr) (parents : List EnclosingNode) :
      IsWrittenFor print expr
        (collectComponents print useGlobalVariables expr location.beginLine.toNat parents)
        (expressionApplication print useGlobalVariables appId location context expr parents)
  | ifGuard (useGlobalVariables : Bool) (appId : Int) (location : LocationJson)
      (parents : List EnclosingNode) :
      IsWrittenFor print (.integerLiteral .int "1")
        ((collectVisible useGlobalVariables location.beginLine.toNat parents).foldl
          (addNew print) [])
        (ifGuardApplication print useGlobalVariables appId location parents)

theorem IsWrittenFor.members {print : Expr → String} {expr : Expr} {components : List Expr}
    {app : ApplicationJson} (happ : IsWrittenFor print expr components app) :
    app.expression = stmtToJSON (expr.stmt print) ∧
      app.components = components.map (Expr.component print) := by
  cases happ <;> exact ⟨rfl, rfl⟩

/--
Every rendered candidate and condition has the sizes of all its pointer
additions if and only if the left operand of every pointer addition of the C
expression, as it is written, names the complete pointee of a component.
-/
theorem candidateDispatch_sizes_known_iff {print : Expr → String} {expr : Expr}
    {components : List Expr} {app : ApplicationJson}
    (happ : IsWrittenFor print expr components app) {loaded : SchemaApplication}
    (hload : loadSchemaApplication app = .ok loaded) {typeContext : ExprType}
    {original : Expression}
    (hcorrect : correctTypes loaded.original typeContext = .ok original)
    {sa : SchemaApplication} (hsa : sa = { loaded with original := original })
    {conditions : List Expression}
    (hconditions : bool2Expressions sa.components = .ok conditions)
    {modifications : List Modification}
    (hmodifications : baseModifications sa.schema sa.original sa.components =
      .ok modifications) :
    (∀ rendered ∈ conditions ++ modifications.map Prod.fst, ∀ size,
        NeedsSize size rendered → SizeKnown sa size) ↔
      ∀ lhs ∈ expr.shifted, PassesSize components lhs := by
  obtain ⟨hexpression, hwritten⟩ := happ.members
  obtain ⟨hschema, horiginal, hcomponents, hcomplete⟩ := loadSchemaApplication_loaded hload
  have hwell := convertExpression_wellFormed horiginal
  rw [hexpression] at horiginal
  have hleaf : ∀ component ∈ sa.components, component.args = [] := by
    rw [hsa, hcomponents]
    intro component hmem
    obtain ⟨c, -, rfl⟩ := List.mem_map.mp hmem
    rfl
  have hknown : ∀ size, SizeKnown sa size ↔
      ∃ c ∈ components, c.type.isPointerType = true ∧ c.type.getPointeeType = (size, false) := by
    intro size
    rw [sizeKnown_iff, hsa, hcomplete, mem_sortedDistinct, hwritten,
      mem_completePointees_component]
  have hneeds : ∀ size, NeedsSize size sa.original ↔
      ∃ lhs ∈ expr.shifted, lhs.writtenType = size := by
    intro size
    rw [hsa]
    exact (correctTypes_needsSize_iff hwell hcorrect).trans
      (convertExpression_needsSize_iff horiginal)
  have hfirst : PointerFirst sa.original := by
    rw [hsa]
    exact correctTypes_pointerFirst hwell hcorrect
  constructor
  · intro hsizes lhs hlhs
    have hschema : sa.schema = .expression := by
      rw [hsa]
      cases happ with
      | expression => exact (Except.ok.inj hschema).symm
      | ifGuard => simp [Expr.shifted] at hlhs
    rw [hschema] at hmodifications
    obtain ⟨modified, metadata, edit, hmodified⟩ :=
      exists_edit_needsSize sa.components hfirst ((hneeds _).mpr ⟨lhs, hlhs, rfl⟩)
    have hmem := List.mem_map_of_mem (f := Prod.fst) (edit.mem_baseModifications hmodifications)
    exact (hknown _).mp (hsizes modified (List.mem_append_right _ hmem) _ hmodified)
  · intro hpasses rendered hrendered size hneed
    rcases List.mem_append.mp hrendered with hcondition | hmodification
    · exact absurd hneed
        ((bool2Expressions_atomic hconditions rendered hcondition).not_needsSize hleaf)
    · obtain ⟨m, hm, rfl⟩ := List.mem_map.mp hmodification
      obtain ⟨lhs, hlhs, rfl⟩ :=
        (hneeds size).mp (baseModifications_needsSize hleaf hfirst hmodifications m hm hneed)
      exact (hknown _).mpr (hpasses lhs hlhs)

/-! ## Which operands pass their size -/

theorem Expr.collect_of_shifted {expr lhs c : Expr} (hlhs : lhs ∈ expr.shifted)
    (hc : c ∈ lhs.collect false false) : c ∈ expr.collect false false := by
  induction expr with
  | declRef | member | arraySubscript | cast | integerLiteral | characterLiteral =>
      simp [shifted] at hlhs
  | implicitCast _ _ _ ih | paren _ ih | unaryOperator _ _ _ ih => exact ih hlhs
  | binaryOperator type opcode lhs' rhs ihLeft ihRight =>
      rw [shifted, List.append_assoc] at hlhs
      rcases List.mem_append.mp hlhs with hlhs | hlhs
      · split at hlhs
        · obtain rfl := List.mem_singleton.mp hlhs
          exact List.mem_append_left _ hc
        · simp at hlhs
      · rcases List.mem_append.mp hlhs with hlhs | hlhs
        · exact List.mem_append_left _ (ihLeft hlhs)
        · exact List.mem_append_right _ (ihRight hlhs)

/--
An operand that is collected passes its size if its pointee is complete and the
compiler prints no two collected expressions of different types alike.
-/
theorem passesSize_of_collected {print : Expr → String} {expr lhs c : Expr}
    (htypes : ∀ first ∈ expr.collect false false, ∀ second ∈ expr.collect false false,
      first.toString print = second.toString print → first.type = second.type)
    (hlhs : lhs ∈ expr.shifted) (hc : c ∈ lhs.collect false false)
    (hpointer : c.type.isPointerType = true)
    (hcomplete : c.type.getPointeeType = (lhs.writtenType, false)) (visible : List Expr) :
    PassesSize (mergeComponents print expr visible) lhs := by
  have hcollected := Expr.collect_of_shifted hlhs hc
  obtain ⟨old, hold, hother, htext⟩ := exists_component print visible hcollected
  have htype := htypes old hother c hcollected htext
  exact ⟨old, hold, htype ▸ hpointer, htype ▸ hcomplete⟩

def intPointer : VarDecl := ⟨"p", .pointer "int" .object, false, 3⟩

/-- `p + 1`. -/
def VarDecl.plusOne (vd : VarDecl) : Expr :=
  .binaryOperator vd.type .add (.implicitCast vd.type .lvalueToRValue vd.reference)
    (.integerLiteral .int "1")

def plusOneApplication (vd : VarDecl) : ApplicationJson :=
  expressionApplication Expr.printed false 1 ⟨0, 5, 7, 5, 12⟩ "unknown" vd.plusOne
    [.other, .compound [], .function [vd] []]

theorem candidateDispatch_sizes_known_iff_intPointer :
    ∃ loaded original conditions modifications,
      loadSchemaApplication (plusOneApplication intPointer) = .ok loaded ∧
      correctTypes loaded.original .any = .ok original ∧
      bool2Expressions loaded.components = .ok conditions ∧
      baseModifications loaded.schema original loaded.components = .ok modifications ∧
      ∀ rendered ∈ conditions ++ modifications.map Prod.fst, ∀ size,
        NeedsSize size rendered → SizeKnown { loaded with original := original } size := by
  have hload : loadSchemaApplication (plusOneApplication intPointer) = .ok _ := rfl
  refine ⟨_, _, _, _, hload, rfl, rfl, rfl, ?_⟩
  refine (candidateDispatch_sizes_known_iff (.expression _ _ _ _ _ _) hload rfl rfl rfl rfl).mpr
    fun lhs hlhs => ?_
  obtain rfl := List.mem_singleton.mp hlhs
  refine passesSize_of_collected ?_ hlhs (List.mem_singleton_self _) rfl rfl _
  simp [VarDecl.plusOne, VarDecl.reference, Expr.collect]

def voidPointer : VarDecl := ⟨"p", .pointer "void" .incomplete, false, 3⟩

/-- The size is missing in the address formula of `p - 1`. -/
theorem voidPointer_missesSize :
    ∃ loaded original names modifications,
      loadSchemaApplication (plusOneApplication voidPointer) = .ok loaded ∧
      correctTypes loaded.original .any = .ok original ∧
      naming { loaded with original := original } = .ok names ∧
      baseModifications loaded.schema original loaded.components = .ok modifications ∧
      ∃ m ∈ modifications, NeedsSize "void" m.1 ∧
        ¬SizeKnown { loaded with original := original } "void" ∧
        ∃ left right, names.runtimeExpr m.1 = .ok (.pointerShift left "-" "" right) := by
  have hload : loadSchemaApplication (plusOneApplication voidPointer) = .ok _ := rfl
  have hmissing : "void" ∉ sortedDistinct
      (completePointees (plusOneApplication voidPointer).components) := by
    rw [mem_sortedDistinct]
    decide
  rw [← (loadSchemaApplication_loaded hload).completePointeeTypes] at hmissing
  refine ⟨_, _, _, _, hload, rfl, rfl, rfl, _, List.mem_cons_self, .here (.inr rfl) rfl,
    fun hknown => hmissing hknown.1, ?_⟩
  rw [← typeSizes_eq_empty hmissing]
  exact ⟨_, _, rfl⟩

end F1X
