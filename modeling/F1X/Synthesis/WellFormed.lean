import F1X.Loading
import F1X.Synthesis.Generator

/-!
# Well-formed expressions

Every operator node has the number of arguments and the text of its operator.
Loading establishes this, type correction and every edit keep it, and the
generator has code for every expression of this form.
-/

namespace F1X

open F1X.Library

def isUnaryOperator : Operator → Bool
  | .neg | .not | .bvNot | .implicitBvCast | .implicitIntCast | .explicitBvCast
  | .explicitIntCast | .explicitPtrCast | .explicitUnsignedCast => true
  | _ => false

def isBinaryOperator (op : Operator) : Bool :=
  op ≠ .none && !isUnaryOperator op

inductive Expression.WellFormed : Expression → Prop
  | leaf (kind : NodeKind) (type : ExprType) (rawType repr : String) :
      WellFormed ⟨kind, type, .none, rawType, repr, []⟩
  | unary (type : ExprType) {op : Operator} (rawType : String) {arg : Expression}
      (hop : isUnaryOperator op = true) (harg : arg.WellFormed) :
      WellFormed ⟨.operator, type, op, rawType, operatorText op, [arg]⟩
  | binary (type : ExprType) {op : Operator} (rawType : String)
      {left right : Expression} (hop : isBinaryOperator op = true)
      (hleft : left.WellFormed) (hright : right.WellFormed) :
      WellFormed ⟨.operator, type, op, rawType, operatorText op, [left, right]⟩

theorem Expression.WellFormed.unary_args {expr arg : Expression} (h : expr.WellFormed)
    (hargs : expr.args = [arg]) :
    ∃ type op rawType, isUnaryOperator op = true ∧ arg.WellFormed ∧
      expr = ⟨.operator, type, op, rawType, operatorText op, [arg]⟩ := by
  cases h with
  | leaf => cases hargs
  | unary type rawType hop harg =>
      cases hargs
      exact ⟨type, _, rawType, hop, harg, rfl⟩
  | binary => cases hargs

theorem Expression.WellFormed.binary_args {expr left right : Expression} (h : expr.WellFormed)
    (hargs : expr.args = [left, right]) :
    ∃ type op rawType, isBinaryOperator op = true ∧ left.WellFormed ∧ right.WellFormed ∧
      expr = ⟨.operator, type, op, rawType, operatorText op, [left, right]⟩ := by
  cases h with
  | leaf => cases hargs
  | unary => cases hargs
  | binary type rawType hop hleft hright =>
      cases hargs
      exact ⟨type, _, rawType, hop, hleft, hright, rfl⟩

theorem wellFormed_wrapWithCast {expression : Expression} (h : expression.WellFormed)
    (type : ExprType) {op : Operator} (rawType : String)
    (hop : isUnaryOperator op = true) :
    (wrapWithCast type op rawType expression).WellFormed :=
  .unary type rawType hop h

theorem wellFormed_applyBoolOperator {left right : Expression} (hleft : left.WellFormed)
    (hright : right.WellFormed) {op : Operator} (hop : isBinaryOperator op = true) :
    (applyBoolOperator op left right).WellFormed :=
  .binary .boolean defaultBooleanType hop hleft hright

/-! ## Loading and type correction -/

/-- What `convertExpression` can return. -/
inductive Expression.Loaded : Expression → Prop
  | leaf {kind : NodeKind} {type : ExprType} (hkind : isAbstractNode kind = false)
      (htype : type = .integer ∨ type = .pointer) (rawType repr : String) :
      Loaded ⟨kind, type, .none, rawType, repr, []⟩
  | unary {type : ExprType} {op : Operator} (rawType : String) {arg : Expression}
      (hop : op = .neg ∨ op = .not ∨ op = .bvNot)
      (htype : operatorOutputType op = .ok type) (harg : arg.Loaded) :
      Loaded ⟨.operator, type, op, rawType, operatorText op, [arg]⟩
  | binary {type : ExprType} {op : Operator} (rawType : String)
      {left right : Expression} (hop : isBinaryOperator op = true)
      (htype : operatorOutputType op = .ok type) (hleft : left.Loaded)
      (hright : right.Loaded) :
      Loaded ⟨.operator, type, op, rawType, operatorText op, [left, right]⟩

theorem Expression.Loaded.wellFormed {expression : Expression} (h : expression.Loaded) :
    expression.WellFormed := by
  induction h with
  | leaf hkind htype rawType repr => exact .leaf _ _ rawType repr
  | unary rawType hop htype harg ih =>
      apply WellFormed.unary _ rawType _ ih
      rcases hop with rfl | rfl | rfl <;> rfl
  | binary rawType hop htype hleft hright ihLeft ihRight =>
      exact .binary _ rawType hop ihLeft ihRight

private theorem unaryOperatorByString_text {repr : String} {op : Operator}
    (h : unaryOperatorByString repr = .ok op) :
    operatorText op = repr ∧ (op = .neg ∨ op = .not ∨ op = .bvNot) := by
  unfold unaryOperatorByString at h
  split_ifs at h with hneg hnot hbvNot <;> cases h
  · exact ⟨hneg.symm, by simp⟩
  · exact ⟨hnot.symm, by simp⟩
  · exact ⟨hbvNot.symm, by simp⟩

theorem binaryOperatorByString_text {repr : String} {type : ExprType} {op : Operator}
    (h : binaryOperatorByString repr type = .ok op) :
    operatorText op = repr ∧ isBinaryOperator op = true := by
  unfold binaryOperatorByString at h
  -- one round for every row of the table, in its order
  iterate 18
    rcases ite_eq_iff.mp h with ⟨hrepr, hop⟩ | ⟨-, hrest⟩ <;> clear h
    · subst hrepr
      first
        | (cases hop; exact ⟨rfl, rfl⟩)
        | (split at hop <;> cases hop <;> exact ⟨rfl, rfl⟩)
    rename' hrest => h
  cases h

private theorem approxType_cases (typeStr : String) :
    approxType typeStr = .integer ∨ approxType typeStr = .pointer := by
  unfold approxType
  split <;> simp

mutual

theorem convertExpression_loaded {json : ExpressionJson} {expression : Expression}
    (h : convertExpression json = .ok expression) : expression.Loaded := by
  cases json with
  | leaf kindStr typeStr rawType repr =>
      obtain ⟨kind, hkind, rfl⟩ := convertExpression_leaf_inv h
      exact .leaf (kindByString_concrete hkind) (approxType_cases typeStr) rawType repr
  | node kindStr typeStr rawType repr args =>
      obtain ⟨op, type, converted, -, hop, htype, hargs, rfl⟩ := convertExpression_node_inv h
      obtain ⟨hlength, hconverted⟩ := convertArguments_loaded hargs
      unfold operatorByArity at hop
      split_ifs at hop with hone htwo
      · obtain ⟨arg, rfl⟩ := List.length_eq_one_iff.mp (hlength.trans hone)
        obtain ⟨rfl, hunary⟩ := unaryOperatorByString_text hop
        exact .unary rawType hunary htype (hconverted arg (by simp))
      · obtain ⟨left, right, rfl⟩ := List.length_eq_two.mp (hlength.trans htwo)
        obtain ⟨rfl, hbinary⟩ := binaryOperatorByString_text hop
        exact .binary rawType hbinary htype (hconverted left (by simp))
          (hconverted right (by simp))

theorem convertArguments_loaded {json : List ExpressionJson}
    {args : List Expression} (h : convertArguments json = .ok args) :
    args.length = json.length ∧ ∀ arg ∈ args, arg.Loaded := by
  cases json with
  | nil =>
      cases h
      simp
  | cons first rest =>
      obtain ⟨converted, others, hconverted, hothers, rfl⟩ := convertArguments_cons_inv h
      obtain ⟨hlength, hrest⟩ := convertArguments_loaded hothers
      refine ⟨by simp [hlength], ?_⟩
      intro arg harg
      rcases List.mem_cons.mp harg with rfl | harg
      · exact convertExpression_loaded hconverted
      · exact hrest arg harg

end

theorem convertExpression_wellFormed {json : ExpressionJson} {expression : Expression}
    (h : convertExpression json = .ok expression) : expression.WellFormed :=
  (convertExpression_loaded h).wellFormed

private theorem correctTopNode_wellFormed {expression : Expression}
    (h : expression.WellFormed) (context : ExprType) :
    (correctTopNode expression context).WellFormed := by
  refine correctTopNode_cases context h (fun type rawType op hop => ?_) ?_ ?_
    fun _ => ⟨.leaf _ _ _ _, .leaf _ _ _ _⟩
  · refine wellFormed_wrapWithCast h type rawType ?_
    revert op
    decide
  · exact wellFormed_applyBoolOperator h (.leaf _ _ _ _) rfl
  · exact wellFormed_applyBoolOperator h (.leaf _ _ _ _) rfl

/--
Induction on type correction: what every node passes on from its arguments, and
`correctTopNode` keeps, relates an expression and the corrected one.
-/
theorem correctTypes_induction {P : Expression → Expression → Prop}
    (hleaf : ∀ kind type rawType repr,
      P ⟨kind, type, .none, rawType, repr, []⟩ ⟨kind, type, .none, rawType, repr, []⟩)
    (hunary : ∀ {type op rawType arg correctedArg}, isUnaryOperator op = true →
      P arg correctedArg →
        P ⟨.operator, type, op, rawType, operatorText op, [arg]⟩
          ⟨.operator, type, op, rawType, operatorText op, [correctedArg]⟩)
    (haddition : ∀ {type op rawType} {left right correctedRight : Expression},
      op = .ptrAdd ∨ op = .ptrSub → left.type = .pointer → left.WellFormed →
        P right correctedRight →
          P ⟨.operator, type, op, rawType, operatorText op, [left, right]⟩
            ⟨.operator, type, op, rawType, operatorText op, [left, correctedRight]⟩)
    (hbinary : ∀ {type op rawType left right correctedLeft correctedRight},
      isBinaryOperator op = true → ¬(op = .ptrAdd ∨ op = .ptrSub) →
        P left correctedLeft → P right correctedRight →
          P ⟨.operator, type, op, rawType, operatorText op, [left, right]⟩
            ⟨.operator, type, op, rawType, operatorText op, [correctedLeft, correctedRight]⟩)
    (htop : ∀ {expression corrected : Expression} context,
      (corrected.kind = .constant → corrected.args = []) → P expression corrected →
        P expression (correctTopNode corrected context))
    {expression corrected : Expression} {context : ExprType} (hwell : expression.WellFormed)
    (h : correctTypes expression context = .ok corrected) : P expression corrected := by
  induction hwell generalizing context corrected with
  | leaf kind type rawType repr =>
      obtain ⟨-, rfl⟩ := correctTypes_leaf_iff.mp h
      exact htop context (fun _ => rfl) (hleaf _ _ _ _)
  | unary type rawType hop _ ih =>
      obtain ⟨argContext, -, correctedArg, hcorrected, rfl⟩ := correctTypes_unary_iff.mp h
      exact htop context (by simp) (hunary hop (ih hcorrected))
  | @binary type op rawType left right hop hleft _ ihLeft ihRight =>
      by_cases hpointer : op = .ptrAdd ∨ op = .ptrSub
      · obtain ⟨htype, correctedRight, hcorrected, rfl⟩ :=
          (correctTypes_pointer_iff hpointer).mp h
        exact htop context (by simp) (haddition hpointer htype hleft (ihRight hcorrected))
      · obtain ⟨argContext, -, correctedLeft, hcorrectedLeft, correctedRight,
          hcorrectedRight, rfl⟩ := (correctTypes_binary_iff hpointer).mp h
        exact htop context (by simp)
          (hbinary hop hpointer (ihLeft hcorrectedLeft) (ihRight hcorrectedRight))

theorem correctTypes_wellFormed {expression corrected : Expression}
    {context : ExprType} (hwell : expression.WellFormed)
    (h : correctTypes expression context = .ok corrected) : corrected.WellFormed := by
  refine correctTypes_induction (P := fun _ corrected => corrected.WellFormed)
    .leaf (fun hop harg => .unary _ _ hop harg) (fun hop _ hleft hright => ?_)
    (fun hop _ hleft hright => .binary _ _ hop hleft hright)
    (fun context _ h => correctTopNode_wellFormed h context) hwell h
  exact .binary _ _ (by rcases hop with rfl | rfl <;> rfl) hleft hright

/-! ## Edits -/

namespace synthesis

theorem mutatedOperators_binary {expr first : Expression} {operators : List Operator}
    (h : mutatedOperators expr first = .ok operators) {op : Operator}
    (hop : op ∈ operators) :
    isBinaryOperator expr.op = true ∧ isBinaryOperator op = true := by
  unfold mutatedOperators at h
  generalize expr.op = original at h
  split at h <;> cases original <;> cases h <;> revert op <;> decide

theorem Edit.wellFormed {components : List Expression}
    (hcomponents : ∀ component ∈ components, component.WellFormed)
    {expr modified : Expression} {metadata : PatchMetadata}
    (edit : Edit components expr modified metadata) (hwell : expr.WellFormed) :
    modified.WellFormed := by
  induction edit with
  | condition => exact .leaf _ _ _ _
  | parametrize | concretize => exact .leaf _ _ _ _
  | generalize _ _ _ hmem | substitute _ _ _ hmem | redirect _ _ _ hmem =>
      exact hcomponents _ hmem
  | nullify => exact .leaf _ _ _ _
  | mutate hfirst hoperators hmem =>
      obtain ⟨hbinary, hmutant⟩ := mutatedOperators_binary hoperators hmem
      cases hwell with
      | leaf => cases hfirst
      | unary _ _ hop => simp [isBinaryOperator, hop] at hbinary
      | binary type rawType _ hleft hright => exact .binary type rawType hmutant hleft hright
  | arg hargs _ ih =>
      obtain ⟨type, op, rawType, hop, harg, rfl⟩ := hwell.unary_args hargs
      exact .unary type rawType hop (ih harg)
  | left hargs _ _ ih =>
      obtain ⟨type, op, rawType, hop, hleft, hright, rfl⟩ := hwell.binary_args hargs
      exact .binary type rawType hop (ih hleft) hright
  | right hargs _ ih =>
      obtain ⟨type, op, rawType, hop, hleft, hright, rfl⟩ := hwell.binary_args hargs
      exact .binary type rawType hop hleft (ih hright)
  | castLeft hargs =>
      obtain ⟨type, op, rawType, hop, hleft, hright, rfl⟩ := hwell.binary_args hargs
      exact .binary type rawType hop (wellFormed_wrapWithCast hleft _ _ rfl) hright
  | castRight hargs =>
      obtain ⟨type, op, rawType, hop, hleft, hright, rfl⟩ := hwell.binary_args hargs
      exact .binary type rawType hop hleft (wellFormed_wrapWithCast hright _ _ rfl)
  | simplifyArg hargs =>
      obtain ⟨-, -, -, -, harg, -⟩ := hwell.unary_args hargs
      exact harg
  | simplifyLeft hargs =>
      obtain ⟨-, -, -, -, hleft, -, -⟩ := hwell.binary_args hargs
      exact hleft
  | simplifyRight hargs =>
      obtain ⟨-, -, -, -, -, hright, -⟩ := hwell.binary_args hargs
      exact hright

theorem baseModifications_wellFormed {schema : TransformationSchema}
    {expr : Expression} {components : List Expression}
    {modifications : List Modification} (hwell : expr.WellFormed)
    (hcomponents : ∀ component ∈ components, component.WellFormed)
    (h : baseModifications schema expr components = .ok modifications) :
    ∀ m ∈ modifications, m.1.WellFormed := by
  have hbool2 : bool2Node.WellFormed := .leaf _ _ _ _
  exact baseModifications_forall (fun _ _ _ edit => edit.wellFormed hcomponents hwell)
    (fun _ => wellFormed_applyBoolOperator hwell hbool2 rfl)
    (fun _ => wellFormed_applyBoolOperator hwell hbool2 rfl)
    (.leaf _ _ _ _) (.leaf _ _ _ _) hbool2 h

theorem Atomic.wellFormed {components : List Expression} {condition : Expression}
    (atomic : Atomic components condition)
    (hcomponents : ∀ component ∈ components, component.WellFormed) :
    condition.WellFormed := by
  cases atomic with
  | null op hleft hop =>
      apply wellFormed_applyBoolOperator (hcomponents _ hleft) (.leaf _ _ _ _)
      rcases hop with rfl | rfl <;> rfl
  | pointers op hleft hright hop =>
      apply wellFormed_applyBoolOperator (hcomponents _ hleft) (hcomponents _ hright)
      rcases hop with rfl | rfl <;> rfl
  | parameter op hleft hop =>
      apply wellFormed_applyBoolOperator (hcomponents _ hleft) (.leaf _ _ _ _)
      revert op
      decide
  | integers op hleft hright hop =>
      apply wellFormed_applyBoolOperator (hcomponents _ hleft) (hcomponents _ hright)
      revert op
      decide

end synthesis

/-! ## Printing -/

theorem expressionToString_total {expression : Expression} (h : expression.WellFormed) :
    ∃ text, expressionToString expression = .ok text := by
  induction h with
  | leaf kind type rawType repr => exact ⟨repr, rfl⟩
  | unary type rawType hop harg ih =>
      obtain ⟨argStr, hargStr⟩ := ih
      exact ⟨_, bind_eq_ok_iff.mpr ⟨argStr, hargStr, rfl⟩⟩
  | binary type rawType hop hleft hright ihLeft ihRight =>
      obtain ⟨leftStr, hleftStr⟩ := ihLeft
      obtain ⟨rightStr, hrightStr⟩ := ihRight
      exact ⟨_, bind_eq_ok_iff.mpr ⟨leftStr, hleftStr,
        bind_eq_ok_iff.mpr ⟨rightStr, hrightStr, rfl⟩⟩⟩

/-! ## Code generation -/

namespace generator

theorem substituteNodeOfKind_wellFormed (kind : NodeKind) {substitution expression : Expression}
    (hsubstitution : substitution.WellFormed) (h : expression.WellFormed) :
    (substituteNodeOfKind kind substitution expression).1.WellFormed := by
  induction h with
  | leaf nodeKind type rawType repr =>
      rw [substituteNodeOfKind]
      split
      · exact hsubstitution
      · exact .leaf _ _ _ _
  | unary type rawType hop harg ih =>
      rw [substituteNodeOfKind]
      split
      · exact hsubstitution
      · simp only [substituteFirst]
        split <;> exact .unary type rawType hop ih
  | binary type rawType hop hleft hright ihLeft ihRight =>
      rw [substituteNodeOfKind]
      split
      · exact hsubstitution
      · simp only [substituteFirst]
        split
        · exact .binary type rawType hop ihLeft hright
        · split <;> exact .binary type rawType hop ihLeft ihRight

theorem substituteWithRuntimeRepr_wellFormed (runtimeReprBySource : StringMap)
    {expression : Expression} (h : expression.WellFormed) :
    (substituteWithRuntimeRepr runtimeReprBySource expression).WellFormed := by
  induction h with
  | leaf kind type rawType repr =>
      rw [substituteWithRuntimeRepr]
      split
      · exact .leaf _ _ _ _
      · exact .leaf _ _ _ _
  | unary type rawType hop harg ih => exact .unary type rawType hop ih
  | binary type rawType hop hleft hright ihLeft ihRight =>
      exact .binary type rawType hop ihLeft ihRight

theorem runtimeSemantics_total (sizeByType nullDerefByName : StringMap)
    {expression : Expression} (h : expression.WellFormed) :
    ∃ expr, runtimeSemantics sizeByType nullDerefByName expression = .ok expr := by
  induction h with
  | leaf kind type rawType repr =>
      rw [runtimeSemantics]
      simp only [reduceCtorEq, or_self, if_false]
      split
      · exact ⟨_, rfl⟩
      · exact ⟨_, rfl⟩
  | @unary type op rawType arg hop harg ih =>
      obtain ⟨argExpr, hargExpr⟩ := ih
      have hpointer : ¬(op = .ptrAdd ∨ op = .ptrSub) := by
        rintro (rfl | rfl) <;> cases hop
      have hdivision : ¬(op = .div ∨ op = .mod) := by
        rintro (rfl | rfl) <;> cases hop
      rw [runtimeSemantics, if_neg hpointer, if_neg hdivision]
      exact ⟨_, bind_eq_ok_iff.mpr ⟨argExpr, hargExpr, rfl⟩⟩
  | @binary type op rawType left right hop hleft hright ihLeft ihRight =>
      obtain ⟨leftExpr, hleftExpr⟩ := ihLeft
      obtain ⟨rightExpr, hrightExpr⟩ := ihRight
      have htext : operatorToString op = .ok (operatorText op) := by
        unfold operatorToString
        split
        · rename_i hnone
          simp [isBinaryOperator, hnone] at hop
        · rfl
      rw [runtimeSemantics]
      split
      · exact ⟨_, bind_eq_ok_iff.mpr ⟨leftExpr, hleftExpr,
          bind_eq_ok_iff.mpr ⟨_, htext, bind_eq_ok_iff.mpr ⟨rightExpr, hrightExpr, rfl⟩⟩⟩⟩
      split
      · exact ⟨_, bind_eq_ok_iff.mpr ⟨rightExpr, hrightExpr,
          bind_eq_ok_iff.mpr ⟨leftExpr, hleftExpr, bind_eq_ok_iff.mpr ⟨_, htext, rfl⟩⟩⟩⟩
      · exact ⟨_, bind_eq_ok_iff.mpr ⟨leftExpr, hleftExpr,
          bind_eq_ok_iff.mpr ⟨rightExpr, hrightExpr, rfl⟩⟩⟩

end generator

namespace SchemaApplication

structure AbstractFree (sa : SchemaApplication) : Prop where
  original : sa.original.AbstractFree
  components : ∀ component ∈ sa.components, component.AbstractFree

structure WellFormed (sa : SchemaApplication) : Prop where
  original : sa.original.WellFormed
  components : ∀ component ∈ sa.components, component.WellFormed

end SchemaApplication

end F1X
