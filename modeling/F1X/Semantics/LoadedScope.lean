import F1X.Semantics.DefinedNames
import F1X.Semantics.ElementSizes
import F1X.Transform.ArgumentList

/-!
# Applications are loaded in scope

What the transformer writes for a location names only its components, and every
component passes its own size.  So a loaded and corrected application is in scope
unless a pointer addition needs the size of something else.
-/

namespace F1X

open F1X.Library F1X.synthesis F1X.generator

section InScope

variable {sa : SchemaApplication} {type : ExprType} {op : Operator} {rawType : String}
  {expression corrected arg left right : Expression}

theorem inScope_unary_iff (hop : isUnaryOperator op = true) :
    InScope sa ⟨.operator, type, op, rawType, operatorText op, [arg]⟩ ↔ InScope sa arg := by
  refine ⟨fun h => ?_, .unary type rawType hop⟩
  obtain ⟨-, -, -, -, harg, -⟩ := h.unary_args rfl
  exact harg

theorem inScope_binary_iff (hop : isBinaryOperator op = true) :
    InScope sa ⟨.operator, type, op, rawType, operatorText op, [left, right]⟩ ↔
      (isPointerArithmetic op →
        left.type = .pointer ∧ left.rawType ∈ sa.completePointeeTypes) ∧
      InScope sa left ∧ InScope sa right := by
  constructor
  · intro h
    obtain ⟨type', op', rawType', -, hshift, hleft, hright, heq⟩ := h.binary_args rfl
    cases heq
    exact ⟨hshift, hleft, hright⟩
  · rintro ⟨hshift, hleft, hright⟩
    exact .operator type rawType hop hshift hleft hright

theorem inScope_comparison_iff (hop : op ∈ [Operator.eq, .neq, .lt, .le, .gt, .ge, .or, .and])
    (hright : InScope sa right) :
    InScope sa (applyBoolOperator op left right) ↔ InScope sa left := by
  refine ⟨fun h => ?_, fun h => inScope_applyBoolOperator h hright hop⟩
  obtain ⟨-, -, -, -, -, hleft, -⟩ := h.binary_args rfl
  exact hleft

/-! ## Type correction -/

theorem correctTopNode_inScope_iff
    (hconstant : expression.kind = .constant → InScope sa expression) (context : ExprType) :
    InScope sa (correctTopNode expression context) ↔ InScope sa expression := by
  refine correctTopNode_cases
    (P := fun corrected => InScope sa corrected ↔ InScope sa expression) context
    Iff.rfl (fun _ _ op hop => inScope_unary_iff ?_)
    (inScope_comparison_iff (by simp) (.constant _ _ _))
    (inScope_comparison_iff (by simp) (.constant _ _ _)) fun hkind => ?_
  · revert op
    decide
  · have hscope : InScope sa expression := hconstant hkind
    exact ⟨iff_of_true (.constant _ _ _) hscope, iff_of_true (.constant _ _ _) hscope⟩

private theorem correctTopNode_constant_inScope
    (hconstant : expression.kind = .constant → InScope sa expression) (context : ExprType) :
    (correctTopNode expression context).kind = .constant →
      InScope sa (correctTopNode expression context) :=
  correctTopNode_cases (P := fun corrected => corrected.kind = .constant → InScope sa corrected)
    context hconstant (fun _ _ _ _ h => by cases h) (fun h => by cases h) (fun h => by cases h)
    fun _ => ⟨fun _ => .constant _ _ _, fun _ => .constant _ _ _⟩

private theorem correctTypes_inScope_iff {context : ExprType} (hwell : expression.WellFormed)
    (h : correctTypes expression context = .ok corrected) :
    InScope sa corrected ↔ InScope sa expression := by
  suffices hboth : (InScope sa corrected ↔ InScope sa expression) ∧
      (corrected.kind = .constant → InScope sa corrected) from hboth.1
  refine correctTypes_induction
    (P := fun expression corrected => (InScope sa corrected ↔ InScope sa expression) ∧
      (corrected.kind = .constant → InScope sa corrected))
    ?_ ?_ ?_ ?_ ?_ hwell h
  · rintro kind type rawType repr
    refine ⟨Iff.rfl, ?_⟩
    rintro rfl
    exact .constant _ _ _
  · rintro type op rawType arg correctedArg hop ⟨ih, -⟩
    exact ⟨by rw [inScope_unary_iff hop, inScope_unary_iff hop, ih], fun h => by cases h⟩
  · rintro type op rawType left right correctedRight hop - - ⟨ih, -⟩
    have hbinary : isBinaryOperator op = true := isPointerArithmetic.binary hop
    exact ⟨by rw [inScope_binary_iff hbinary, inScope_binary_iff hbinary, ih],
      fun h => by cases h⟩
  · rintro type op rawType left right correctedLeft correctedRight hop hpointer
      ⟨ihLeft, -⟩ ⟨ihRight, -⟩
    have hnot : ¬isPointerArithmetic op := hpointer
    refine ⟨?_, fun h => by cases h⟩
    rw [inScope_binary_iff hop, inScope_binary_iff hop, ihLeft, ihRight]
    simp [hnot]
  · rintro expression corrected context - ⟨ih, hconstant⟩
    exact ⟨(correctTopNode_inScope_iff hconstant context).trans ih,
      correctTopNode_constant_inScope hconstant context⟩

end InScope

/-! ## The C expression -/

private theorem convertExpression_inScope_iff {print : Expr → String} {expr : Expr}
    {sa : SchemaApplication} {expression : Expression}
    (hnames : ∀ c ∈ expr.collect false false, ∀ access, IsWritten print access c →
      IsComponent sa.components access)
    (h : convertExpression (stmtToJSON (expr.stmt print)) = .ok expression) :
    InScope sa expression ↔ ∀ lhs ∈ expr.shifted, (lhs.stmt print).liftedType = .pointer ∧
      lhs.writtenType ∈ sa.completePointeeTypes := by
  have hnamed : ∀ c ∈ expr.collect false false, ∀ type rawType,
      InScope sa ⟨.variable, type, .none, rawType, c.toString print, []⟩ := by
    intro c hc type rawType
    exact .named type rawType (hnames c hc ⟨.variable, type, .none, rawType, _, []⟩
      ⟨rfl, fun hkind => by cases hkind⟩).1
  induction expr generalizing expression with
  | declRef | arraySubscript | cast =>
      cases h
      exact iff_of_true (hnamed _ (List.mem_singleton_self _) _ _) (by simp [Expr.shifted])
  | member type base isArrow name =>
      cases isArrow with
      | false =>
          cases h
          exact iff_of_true (hnamed _ (List.mem_singleton_self _) _ _) (by simp [Expr.shifted])
      | true =>
          cases h
          refine iff_of_true (.dereference _ _ ?_) (by simp [Expr.shifted])
          exact (hnames _ (List.mem_singleton_self _)
            ⟨.dereference, .integer, .none, "", _, []⟩ ⟨rfl, fun _ => rfl⟩).2 rfl
  | integerLiteral | characterLiteral =>
      cases h
      exact iff_of_true (.constant _ _ _) (by simp [Expr.shifted])
  | implicitCast _ _ _ ih | paren _ ih => exact ih hnames h hnamed
  | unaryOperator type opcode subExpr ih =>
      obtain ⟨resultType, arg, harg, rfl⟩ := convertExpression_unaryOperator h
      refine Iff.trans ?_ (ih hnames harg hnamed)
      cases opcode <;> exact inScope_unary_iff rfl
  | binaryOperator type opcode lhs rhs ihLeft ihRight =>
      obtain ⟨resultType, left, right, hleft, hright, rfl⟩ := convertExpression_binaryOperator h
      have hlhs := ihLeft (fun c hc => hnames c (List.mem_append_left _ hc)) hleft
        fun c hc => hnamed c (List.mem_append_left _ hc)
      have hrhs := ihRight (fun c hc => hnames c (List.mem_append_right _ hc)) hright
        fun c hc => hnamed c (List.mem_append_right _ hc)
      obtain ⟨htext, hbinary⟩ :=
        binaryOperatorByString_text (binaryOperatorByString_opcode type.ctype opcode)
      rw [← htext]
      refine (inScope_binary_iff hbinary).trans ((and_congr Iff.rfl (and_congr hlhs hrhs)).trans ?_)
      rw [isPointerArithmetic_opcode, type_eq_liftedType hleft, convertExpression_rawType hleft,
        Expr.shifted, List.forall_mem_append, List.forall_mem_append, and_assoc]
      refine and_congr ?_ Iff.rfl
      split_ifs with hadds
      · simp [hadds]
      · simp [hadds]

/-! ## The loaded application -/

theorem pointer_of_completePointee {components : List ComponentJson} {type : String}
    (h : type ∈ completePointees components) :
    ∃ c ∈ components, c.loaded.type = .pointer ∧ c.loaded.rawType = type := by
  obtain ⟨c, hc, rfl⟩ := List.mem_map.mp h
  obtain ⟨hmem, hcomplete⟩ := List.mem_filter.mp hc
  refine ⟨c, hmem, ?_, rfl⟩
  obtain ⟨base, type, repr⟩ := c
  cases type with
  | builtin kind => cases hcomplete
  | pointer pointee incomplete => rfl

private theorem component_inScope {sa : SchemaApplication} {components : List ComponentJson}
    (h : sa.components = components.map (·.loaded)) :
    ∀ component ∈ sa.components, InScope sa component := by
  intro component hmem
  obtain ⟨hname, hdereference⟩ := isComponent_self hmem
  rw [h] at hmem
  obtain ⟨⟨base, type, repr⟩, -, rfl⟩ := List.mem_map.mp hmem
  cases base with
  | none => exact .named _ _ hname
  | some base => exact .dereference _ _ (hdereference rfl)

/--
A loaded and corrected application is in scope if and only if every operand that
a pointer addition of the C expression scales is a pointer whose size is passed.
-/
theorem scoped_iff {print : Expr → String} {expr : Expr} (hprint : Unambiguous print expr)
    {components : List Expr} {app : ApplicationJson}
    (happ : IsWrittenFor print expr components app)
    {loaded : SchemaApplication} (hload : loadSchemaApplication app = .ok loaded)
    {typeContext : ExprType} {original : Expression}
    (hcorrect : correctTypes loaded.original typeContext = .ok original)
    {sa : SchemaApplication} (hsa : sa = { loaded with original := original }) :
    sa.Scoped ↔ ∀ lhs ∈ expr.shifted,
      (lhs.stmt print).liftedType = .pointer ∧ PassesSize components lhs := by
  obtain ⟨hexpression, hwritten⟩ := happ.members
  obtain ⟨-, horiginal, hcomponents, hcomplete⟩ := loadSchemaApplication_loaded hload
  have hwell := convertExpression_wellFormed horiginal
  rw [hexpression] at horiginal
  have hloaded : sa.components = app.components.map (·.loaded) := by
    rw [hsa, hcomponents]
  have hnames : ∀ c ∈ expr.collect false false, ∀ access, IsWritten print access c →
      IsComponent sa.components access := by
    intro c hc access haccess
    rw [hloaded, hwritten, List.map_map]
    cases happ with
    | expression => exact isComponent_of_written hprint hc haccess
    | ifGuard => exact absurd hc List.not_mem_nil
  have hinScope : InScope sa sa.original ↔ ∀ lhs ∈ expr.shifted,
      (lhs.stmt print).liftedType = .pointer ∧ PassesSize components lhs := by
    have hsizes : sa.completePointeeTypes = sortedDistinct (completePointees app.components) := by
      rw [hsa, hcomplete]
    have horiginal := convertExpression_inScope_iff hnames horiginal
    simp only [hsizes, mem_sortedDistinct, hwritten, mem_completePointees_component] at horiginal
    have hcorrected : InScope sa sa.original ↔ InScope sa loaded.original := by
      rw [hsa]
      exact correctTypes_inScope_iff hwell hcorrect
    exact hcorrected.trans horiginal
  refine ⟨fun h => hinScope.mp h.original, fun h => ⟨hinScope.mpr h, component_inScope hloaded,
    builtin_of_loaded hloaded, fun type htype => ?_⟩⟩
  rw [hsa, hcomplete, mem_sortedDistinct] at htype
  obtain ⟨c, hc, hpointer⟩ := pointer_of_completePointee htype
  exact ⟨c.loaded, hloaded ▸ List.mem_map_of_mem hc, hpointer⟩

end F1X
