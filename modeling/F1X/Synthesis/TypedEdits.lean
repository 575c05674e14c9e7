import F1X.Synthesis.WellTyped

/-!
# Edits of well-typed expressions

The synthesizer "accepts and produces only well-typed expressions"
(`repair/Synthesis.h`).  Every edit keeps the type of the expression; it keeps
well-typedness unless it turns an equality of truth values or of bit vectors
into an inequality.
-/

namespace F1X.synthesis

open F1X.Library

theorem Component.wellTyped {component : Expression} (h : Component component) :
    component.WellTyped := by
  cases h with
  | mk hkind htype rawType repr => exact .leaf hkind _ rawType repr

/-! ## Edits keep the type -/

theorem simplifiable_type {expr : Expression} {type : ExprType}
    (hsimplifiable : isSimplifiable expr = true) (hresult : ResultType expr.op expr.type)
    (haccepts : Accepts expr.op type) : type = expr.type := by
  unfold isSimplifiable at hsimplifiable
  generalize expr.op = op at *
  generalize expr.type = result at *
  cases op <;> cases hresult <;> cases haccepts <;> simp_all [operatorFirstArgType]

private theorem simplifiable_right {expr : Expression} {left right : ExprType}
    (hsimplifiable : isSimplifiable expr = true)
    (hargs : ArgumentTypes expr.op [left, right]) : right = left := by
  obtain ⟨-, -, hright⟩ := hargs
  unfold isSimplifiable at hsimplifiable
  generalize expr.op = op at *
  cases op <;> simp_all

theorem Edit.type_eq {components : List Expression} {expr modified : Expression}
    {metadata : PatchMetadata} (edit : Edit components expr modified metadata)
    (hwell : expr.WellTyped) : modified.type = expr.type := by
  cases edit with
  | condition boolean => rw [boolean]; rfl
  | generalize _ _ integer _ hinteger | substitute _ _ integer _ hinteger =>
      rw [integer, hinteger]
  | parametrize _ _ integer | concretize _ _ integer => rw [integer]; rfl
  | redirect _ _ pointer _ hpointer => rw [pointer, hpointer]
  | nullify _ _ pointer => rw [pointer]; rfl
  | mutate | arg | left | right | castLeft | castRight => rfl
  | simplifyArg hargs simplifiable =>
      cases hwell with
      | leaf => cases hargs
      | node _ _ hresult hargTypes =>
          cases hargs
          exact simplifiable_type simplifiable hresult hargTypes.2
  | simplifyLeft hargs simplifiable =>
      cases hwell with
      | leaf => cases hargs
      | node _ _ hresult hargTypes =>
          cases hargs
          exact simplifiable_type simplifiable hresult hargTypes.2.1
  | simplifyRight hargs simplifiable =>
      cases hwell with
      | leaf => cases hargs
      | node _ _ hresult hargTypes =>
          cases hargs
          exact (simplifiable_right simplifiable hargTypes).trans
            (simplifiable_type simplifiable hresult hargTypes.2.1)

/-! ## Edits and well-typedness -/

/--
Every equality compares integers or pointers.  The left argument of pointer
arithmetic is never edited and does not count.
-/
def ComparesNumbers : Expression → Prop
  | ⟨_, _, op, _, _, args⟩ =>
      match args with
      | [arg] => ComparesNumbers arg
      | [left, right] =>
          (op = .eq ∨ op = .neq → left.type = .integer ∨ left.type = .pointer) ∧
            (op ≠ .ptrAdd ∧ op ≠ .ptrSub → ComparesNumbers left) ∧ ComparesNumbers right
      | _ => True
termination_by structural expr => expr

private theorem mutant_resultType {expr first : Expression} {operators : List Operator}
    {op : Operator} (h : mutatedOperators expr first = .ok operators) (hop : op ∈ operators)
    {type : ExprType} (hresult : ResultType expr.op type) : ResultType op type := by
  unfold mutatedOperators at h
  generalize expr.op = original at h hresult
  split at h <;> cases original <;> cases h <;>
    simp_all [ResultType, operatorOutputType] <;> aesop

private theorem mutant_argumentTypes {expr first : Expression} {operators : List Operator}
    {op : Operator} (h : mutatedOperators expr first = .ok operators) (hop : op ∈ operators)
    {right : ExprType} (hargs : ArgumentTypes expr.op [first.type, right])
    (hcompares : expr.op = .eq ∨ expr.op = .neq →
      first.type = .integer ∨ first.type = .pointer) :
    ArgumentTypes op [first.type, right] := by
  unfold mutatedOperators at h
  generalize expr.op = original at h hargs hcompares
  generalize first.type = type at *
  split at h <;> cases original <;> cases h <;>
    simp_all [ArgumentTypes, Accepts, operatorFirstArgType, isBinaryOperator,
      isUnaryOperator] <;> aesop

private theorem wellTyped_withOperator {expr first : Expression}
    {operators : List Operator} {op : Operator} (hfirst : expr.args.head? = some first)
    (hoperators : mutatedOperators expr first = .ok operators) (hmem : op ∈ operators)
    (hwell : expr.WellTyped) (hcompares : ComparesNumbers expr) :
    (withOperator expr op).WellTyped := by
  have hbinary := (mutatedOperators_binary hoperators hmem).1
  cases hwell with
  | leaf => cases hfirst
  | @node type original rawType repr args hresult hargs hwell =>
      rcases args with _ | ⟨left, _ | ⟨right, _ | _⟩⟩
      · exact hargs.elim
      · simp [isBinaryOperator, hargs.1] at hbinary
      · cases hfirst
        rw [ComparesNumbers] at hcompares
        exact .node rawType _ (mutant_resultType hoperators hmem hresult)
          (mutant_argumentTypes hoperators hmem hargs hcompares.1) hwell
      · exact hargs.elim

theorem wellTyped_unsignedCast_iff {expr : Expression} :
    (wrapWithExplicitUnsignedCast expr).WellTyped ↔ expr.WellTyped :=
  wellTyped_wrapWithCast_iff (by simp [ResultType]) rfl rfl

theorem unsignedCast_type {expr : Expression} (integer : expr.type = .integer) :
    (wrapWithExplicitUnsignedCast expr).type = expr.type :=
  integer.symm

private theorem comparesNumbers_unary {expr arg : Expression} (hargs : expr.args = [arg]) :
    ComparesNumbers expr ↔ ComparesNumbers arg := by
  cases expr
  cases hargs
  rw [ComparesNumbers]

theorem comparesNumbers_binary {expr left right : Expression}
    (hargs : expr.args = [left, right]) :
    ComparesNumbers expr ↔
      (expr.op = .eq ∨ expr.op = .neq → left.type = .integer ∨ left.type = .pointer) ∧
        (expr.op ≠ .ptrAdd ∧ expr.op ≠ .ptrSub → ComparesNumbers left) ∧
          ComparesNumbers right := by
  cases expr
  cases hargs
  rw [ComparesNumbers]

theorem wellTyped_substituteArg {expr arg : Expression} (h : expr.WellTyped)
    (hargs : expr.args = [arg]) :
    arg.WellTyped ∧ ∀ subs : Expression, subs.type = arg.type → subs.WellTyped →
      (substituteArg expr subs).WellTyped := by
  cases h with
  | leaf => cases hargs
  | node rawType repr hresult hargTypes hwell =>
      cases hargs
      rw [List.forall_mem_singleton] at hwell
      refine ⟨hwell, fun subs htype hsubs => .node rawType repr hresult ?_ ?_⟩
      · simpa [htype] using hargTypes
      · simpa using hsubs

theorem wellTyped_substituteArgs {expr left right : Expression} (h : expr.WellTyped)
    (hargs : expr.args = [left, right]) :
    left.WellTyped ∧ right.WellTyped ∧
      (∀ subs : Expression, subs.type = left.type → subs.WellTyped →
        (substituteLeftArg expr subs).WellTyped) ∧
      ∀ subs : Expression, subs.type = right.type → subs.WellTyped →
        (substituteRightArg expr subs).WellTyped := by
  cases h with
  | leaf => cases hargs
  | node rawType repr hresult hargTypes hwell =>
      cases hargs
      rw [List.forall_mem_cons, List.forall_mem_singleton] at hwell
      refine ⟨hwell.1, hwell.2, ?_, ?_⟩
      · intro subs htype hsubs
        refine .node rawType repr hresult ?_ ?_
        · simpa [htype] using hargTypes
        · simpa using ⟨hsubs, hwell.2⟩
      · intro subs htype hsubs
        refine .node rawType repr hresult ?_ ?_
        · simpa [htype] using hargTypes
        · simpa using ⟨hwell.1, hsubs⟩

theorem Edit.wellTyped {components : List Expression}
    (hcomponents : ∀ component ∈ components, Component component)
    {expr modified : Expression} {metadata : PatchMetadata}
    (edit : Edit components expr modified metadata) (hwell : expr.WellTyped)
    (hcompares : ComparesNumbers expr) : modified.WellTyped := by
  induction edit with
  | condition | parametrize | concretize | nullify =>
      exact .leaf (by simp) _ _ _
  | generalize _ _ _ hmem | substitute _ _ _ hmem | redirect _ _ _ hmem =>
      exact (hcomponents _ hmem).wellTyped
  | mutate hfirst hoperators hmem =>
      exact wellTyped_withOperator hfirst hoperators hmem hwell hcompares
  | arg hargs edit ih =>
      obtain ⟨harg, hreplace⟩ := wellTyped_substituteArg hwell hargs
      have hwell' := ih harg ((comparesNumbers_unary hargs).mp hcompares)
      exact hreplace _ (edit.type_eq harg) hwell'
  | left hargs noPointer edit ih =>
      obtain ⟨hleft, -, hreplace, -⟩ := wellTyped_substituteArgs hwell hargs
      have hwell' := ih hleft (((comparesNumbers_binary hargs).mp hcompares).2.1 noPointer)
      exact hreplace _ (edit.type_eq hleft) hwell'
  | right hargs edit ih =>
      obtain ⟨-, hright, -, hreplace⟩ := wellTyped_substituteArgs hwell hargs
      have hwell' := ih hright ((comparesNumbers_binary hargs).mp hcompares).2.2
      exact hreplace _ (edit.type_eq hright) hwell'
  | castLeft hargs integer =>
      obtain ⟨hleft, -, hreplace, -⟩ := wellTyped_substituteArgs hwell hargs
      exact hreplace _ (unsignedCast_type integer) (wellTyped_unsignedCast_iff.mpr hleft)
  | castRight hargs integer =>
      obtain ⟨-, hright, -, hreplace⟩ := wellTyped_substituteArgs hwell hargs
      exact hreplace _ (unsignedCast_type integer) (wellTyped_unsignedCast_iff.mpr hright)
  | simplifyArg hargs => exact (wellTyped_substituteArg hwell hargs).1
  | simplifyLeft hargs => exact (wellTyped_substituteArgs hwell hargs).1
  | simplifyRight hargs => exact (wellTyped_substituteArgs hwell hargs).2.1

private theorem exists_illTyped_mutant {type : ExprType} {op : Operator} {rawType repr : String}
    {left right : Expression} (hop : op = .eq ∨ op = .neq)
    (hleft : ¬(left.type = .integer ∨ left.type = .pointer)) (components : List Expression) :
    ∃ modified metadata,
      Edit components ⟨.operator, type, op, rawType, repr, [left, right]⟩ modified metadata ∧
        ¬ modified.WellTyped := by
  rw [not_or] at hleft
  obtain ⟨operators, hoperators, hmem⟩ : ∃ operators,
      mutatedOperators ⟨.operator, type, op, rawType, repr, [left, right]⟩ left =
        .ok operators ∧ Operator.lt ∈ operators := by
    rcases hop with rfl | rfl <;>
      exact ⟨_, if_neg hleft.2, by simp⟩
  refine ⟨_, _, .mutate rfl hoperators hmem, ?_⟩
  rw [withOperator, wellTyped_node_iff]
  rintro ⟨-, ⟨-, haccepts, -⟩, -⟩
  rcases haccepts with hany | hinteger
  · cases hany
  · exact hleft.1 (Except.ok.inj hinteger).symm

private theorem exists_illTyped_edit (components : List Expression) {expr : Expression}
    (hwell : expr.WellTyped) (hcompares : ¬ ComparesNumbers expr) :
    ∃ modified metadata, Edit components expr modified metadata ∧ ¬ modified.WellTyped := by
  induction hwell with
  | leaf => exact absurd (by simp [ComparesNumbers]) hcompares
  | @node type op rawType repr args hresult hargs hwell ih =>
      rcases args with _ | ⟨left, _ | ⟨right, _ | _⟩⟩
      · exact hargs.elim
      · rw [ComparesNumbers] at hcompares
        obtain ⟨modified, metadata, edit, hill⟩ := ih left (by simp) hcompares
        refine ⟨_, metadata, .arg rfl edit, ?_⟩
        rw [substituteArg, wellTyped_node_iff]
        rintro ⟨-, -, hall⟩
        exact hill (hall modified (by simp))
      · rw [ComparesNumbers] at hcompares
        by_cases hmutant : op = .eq ∨ op = .neq → left.type = .integer ∨ left.type = .pointer
        · by_cases hleft : op ≠ .ptrAdd ∧ op ≠ .ptrSub → ComparesNumbers left
          · have hright : ¬ ComparesNumbers right :=
              fun hright => hcompares ⟨hmutant, hleft, hright⟩
            obtain ⟨modified, metadata, edit, hill⟩ := ih right (by simp) hright
            refine ⟨_, metadata, .right rfl edit, ?_⟩
            rw [substituteRightArg, wellTyped_node_iff]
            rintro ⟨-, -, hall⟩
            exact hill (hall modified (by simp))
          · obtain ⟨noPointer, hleft⟩ := Classical.not_imp.mp hleft
            obtain ⟨modified, metadata, edit, hill⟩ := ih left (by simp) hleft
            refine ⟨_, metadata, .left rfl noPointer edit, ?_⟩
            rw [substituteLeftArg, wellTyped_node_iff]
            rintro ⟨-, -, hall⟩
            exact hill (hall modified (by simp))
        · obtain ⟨hop, hleft⟩ := Classical.not_imp.mp hmutant
          exact exists_illTyped_mutant hop hleft components
      · exact hargs.elim

/-! ## Conditions over the components -/

theorem wellTyped_comparison {op : Operator} {left right : Expression}
    (hop : op ∈ [Operator.eq, .neq, .lt, .le, .gt, .ge]) (hleft : left.WellTyped)
    (hright : right.WellTyped) (hleftType : left.type = .integer)
    (hrightType : right.type = .integer) : (applyBoolOperator op left right).WellTyped := by
  rw [applyBoolOperator, wellTyped_node_iff]
  simp only [List.mem_cons, List.not_mem_nil, or_false] at hop
  rcases hop with rfl | rfl | rfl | rfl | rfl | rfl <;>
    simp [ResultType, operatorOutputType, ArgumentTypes, isBinaryOperator, isUnaryOperator,
      Accepts, operatorFirstArgType, hleft, hright, hleftType, hrightType]

theorem Atomic.wellTyped {components : List Expression} {condition : Expression}
    (atomic : Atomic components condition)
    (hcomponents : ∀ component ∈ components, component.WellTyped) :
    condition.WellTyped := by
  cases atomic with
  | null op hleft hop pointer =>
      rw [wellTyped_equality_iff hop, pointer]
      exact ⟨rfl, hcomponents _ hleft, .leaf (by simp) _ _ _⟩
  | pointers op hleft hright hop leftPointer rightPointer =>
      rw [wellTyped_equality_iff hop, leftPointer, rightPointer]
      exact ⟨rfl, hcomponents _ hleft, hcomponents _ hright⟩
  | parameter op hleft hop integer =>
      exact wellTyped_comparison hop (hcomponents _ hleft) (.leaf (by simp) _ _ _) integer rfl
  | integers op hleft hright hop leftInteger rightInteger =>
      exact wellTyped_comparison hop (hcomponents _ hleft) (hcomponents _ hright) leftInteger
        rightInteger

/-! ## The synthesizer -/

theorem wellTyped_connective {op : Operator} {expr : Expression} (hop : op = .or ∨ op = .and)
    (hwell : expr.WellTyped) (hboolean : expr.type = .boolean) :
    (applyBoolOperator op expr bool2Node).WellTyped := by
  have hbool2 : bool2Node.WellTyped := .leaf (by simp) _ _ _
  rw [applyBoolOperator, wellTyped_node_iff]
  rcases hop with rfl | rfl <;>
    simp [ResultType, operatorOutputType, ArgumentTypes, isBinaryOperator, isUnaryOperator,
      Accepts, operatorFirstArgType, hwell, hboolean, hbool2,
      show bool2Node.type = .boolean from rfl]

private theorem baseModifications_wellTyped {schema : TransformationSchema} {expr : Expression}
    {components : List Expression} {modifications : List Modification}
    (hwell : expr.WellTyped)
    (hcomponents : ∀ component ∈ components, Component component)
    (hcompares : schema = .expression → ComparesNumbers expr)
    (h : baseModifications schema expr components = .ok modifications) :
    ∀ m ∈ modifications, m.1.WellTyped := by
  exact baseModifications_forall
    (fun hschema _ _ edit => edit.wellTyped hcomponents hwell (hcompares hschema))
    (wellTyped_connective (.inl rfl) hwell) (wellTyped_connective (.inr rfl) hwell)
    (.leaf (by simp) _ _ _) (.leaf (by simp) _ _ _) (.leaf (by simp) _ _ _) h

theorem baseModifications_illTyped {expr : Expression} {components : List Expression}
    {modifications : List Modification} (hwell : expr.WellTyped)
    (h : baseModifications .expression expr components = .ok modifications)
    (hall : ∀ m ∈ modifications, m.1.WellTyped) : ComparesNumbers expr := by
  by_contra hcompares
  obtain ⟨modified, metadata, edit, hill⟩ :=
    exists_illTyped_edit components hwell hcompares
  exact hill (hall (modified, metadata) (edit.mem_baseModifications h))

/--
The synthesizer accepts every well-typed expression; what it produces is
well-typed as well unless a rule replaces an equality of other things than
numbers.
-/
theorem synthesizer_wellTyped_iff (schema : TransformationSchema) (expr : Expression)
    (components : List Expression) (hwell : expr.WellTyped)
    (hcomponents : ∀ component ∈ components, Component component) :
    ∃ modifications conditions substitutions,
      baseModifications schema expr components = .ok modifications ∧
      bool2Expressions components = .ok conditions ∧
      baseSubstitutions components expr = .ok substitutions ∧
      (((∀ m ∈ modifications, m.1.WellTyped) ∧
          (∀ condition ∈ conditions, condition.WellTyped) ∧
          ∀ m ∈ substitutions, m.1.type = expr.type) ↔
        (schema = .expression → ComparesNumbers expr)) := by
  obtain ⟨modifications, hmodifications⟩ :=
    baseModifications_total schema components hwell.synthesizable
  obtain ⟨conditions, hconditions⟩ := bool2Expressions_total hcomponents
  obtain ⟨substitutions, hsubstitutions⟩ :=
    baseSubstitutions_total components hwell.synthesizable
  refine ⟨_, _, _, hmodifications, hconditions, hsubstitutions, ?_, ?_⟩
  · rintro ⟨hall, -, -⟩ rfl
    exact baseModifications_illTyped hwell hmodifications hall
  · intro hcompares
    refine ⟨baseModifications_wellTyped hwell hcomponents hcompares hmodifications, ?_, ?_⟩
    · intro condition hmem
      exact (bool2Expressions_atomic hconditions condition hmem).wellTyped
        fun component hcomponent => (hcomponents component hcomponent).wellTyped
    · intro m hmem
      exact ((mem_baseSubstitutions hsubstitutions m.1 m.2).mp hmem).type_eq hwell

def sameOrder : Expression :=
  applyBoolOperator .eq
    (applyBoolOperator .lt (makeIntegerConst 1) (makeIntegerConst 2))
    (applyBoolOperator .lt (makeIntegerConst 3) (makeIntegerConst 4))

theorem sameOrder_wellTyped : sameOrder.WellTyped := by
  have horder (m n : Nat) :
      (applyBoolOperator .lt (makeIntegerConst m) (makeIntegerConst n)).WellTyped :=
    wellTyped_comparison (by simp) (.leaf (by simp) _ _ _) (.leaf (by simp) _ _ _) rfl rfl
  exact (wellTyped_equality_iff (.inl rfl)).mpr ⟨rfl, horder 1 2, horder 3 4⟩

theorem sameOrder_illTyped :
    ∃ modifications, baseModifications .expression sameOrder [] = .ok modifications ∧
      ∃ m ∈ modifications, ¬ m.1.WellTyped := by
  obtain ⟨modifications, hmodifications⟩ :=
    baseModifications_total .expression [] sameOrder_wellTyped.synthesizable
  refine ⟨modifications, hmodifications, ?_⟩
  by_contra hall
  have hcompares := baseModifications_illTyped sameOrder_wellTyped hmodifications
    fun m hmem => not_not.mp fun hill => hall ⟨m, hmem, hill⟩
  simp [sameOrder, applyBoolOperator, ComparesNumbers] at hcompares

theorem synthesizer_wellTyped_iff_sameOrder :
    ∃ modifications conditions substitutions,
      baseModifications .expression sameOrder [makeIntegerConst 5] = .ok modifications ∧
      bool2Expressions [makeIntegerConst 5] = .ok conditions ∧
      baseSubstitutions [makeIntegerConst 5] sameOrder = .ok substitutions ∧
      (((∀ m ∈ modifications, m.1.WellTyped) ∧
          (∀ condition ∈ conditions, condition.WellTyped) ∧
          ∀ m ∈ substitutions, m.1.type = sameOrder.type) ↔
        (TransformationSchema.expression = .expression → ComparesNumbers sameOrder)) :=
  synthesizer_wellTyped_iff .expression sameOrder _ sameOrder_wellTyped fun _ hmem =>
    List.mem_singleton.mp hmem ▸ .mk (by simp) (.inl rfl) _ _

end F1X.synthesis
