import F1X.Semantics.Naming
import F1X.Synthesis.Accesses
import F1X.Transform.Expr

/-!
# Every name of the generated code is defined

Two visitors walk over the expression of a location: one writes it, the other
one collects its components.  Whatever the first one writes as a variable or a
dereference the second one collects, unless a component with the same text was
collected before; type correction and edits make up no other accesses.
-/

namespace F1X

open F1X.Library F1X.synthesis F1X.generator

/-! ## The two visitors -/

/-- An access with the text of a collected expression, and of its kind. -/
def IsWritten (print : Expr → String) (access : Expression) (c : Expr) : Prop :=
  access.repr = c.toString print ∧ (access.kind = .dereference → c.arrowBase.isSome = true)

private theorem exists_written {print : Expr → String} {expr : Expr}
    {expression access : Expression}
    (h : convertExpression (stmtToJSON (expr.stmt print)) = .ok expression)
    (hin : AccessIn access expression) :
    ∃ c ∈ expr.collect false false, IsWritten print access c := by
  induction expr generalizing expression with
  | declRef | arraySubscript | cast =>
      cases h
      obtain ⟨rfl, -⟩ := hin.leaf
      exact ⟨_, List.mem_singleton_self _, rfl, fun hkind => by cases hkind⟩
  | member type base isArrow name =>
      cases isArrow with
      | false =>
          cases h
          obtain ⟨rfl, -⟩ := hin.leaf
          exact ⟨_, List.mem_singleton_self _, rfl, fun hkind => by cases hkind⟩
      | true =>
          cases h
          obtain ⟨rfl, -⟩ := hin.leaf
          exact ⟨_, List.mem_singleton_self _, rfl, fun _ => rfl⟩
  | integerLiteral | characterLiteral =>
      cases h
      exact absurd hin (AccessIn.not_leaf (by simp))
  | implicitCast _ _ _ ih | paren _ ih => exact ih h hin
  | unaryOperator type opcode subExpr ih =>
      obtain ⟨resultType, arg, harg, rfl⟩ := convertExpression_unaryOperator h
      exact ih harg hin.unary
  | binaryOperator type opcode lhs rhs ihLeft ihRight =>
      obtain ⟨resultType, left, right, hleft, hright, rfl⟩ := convertExpression_binaryOperator h
      rcases hin.binary with hin | hin
      · obtain ⟨c, hc, hwritten⟩ := ihLeft hleft hin
        exact ⟨c, List.mem_append_left _ hc, hwritten⟩
      · obtain ⟨c, hc, hwritten⟩ := ihRight hright hin
        exact ⟨c, List.mem_append_right _ hc, hwritten⟩

/-! ## Accesses and components -/

def IsComponent (components : List Expression) (access : Expression) : Prop :=
  access.repr ∈ components.map (·.repr) ∧
    (access.kind = .dereference → access.repr ∈ dereferences components)

section Components

variable {components : List Expression}

theorem isComponent_self {access : Expression} (h : access ∈ components) :
    IsComponent components access := by
  refine ⟨List.mem_map.mpr ⟨access, h, rfl⟩, fun hkind => mem_sortedDistinct.mpr ?_⟩
  exact List.mem_map.mpr ⟨access, List.mem_filter.mpr ⟨h, by simp [hkind]⟩, rfl⟩

private theorem isComponent_of_accessIn (hleaf : ∀ component ∈ components, component.args = [])
    {component access : Expression} (hmem : component ∈ components)
    (hin : AccessIn access component) : IsComponent components access := by
  cases hin with
  | here h => exact isComponent_self hmem
  | inArg harg => simp [hleaf component hmem] at harg

end Components

/-- Two collected expressions with one text are both read through an arrow, or neither is. -/
def Unambiguous (print : Expr → String) (expr : Expr) : Prop :=
  ∀ first ∈ expr.collect false false, ∀ second ∈ expr.collect false false,
    first.toString print = second.toString print →
      first.arrowBase.isSome = second.arrowBase.isSome

theorem isComponent_of_written {print : Expr → String} {expr : Expr}
    (hprint : Unambiguous print expr) {visible : List Expr} {access : Expression} {c : Expr}
    (hc : c ∈ expr.collect false false) (hwritten : IsWritten print access c) :
    IsComponent ((mergeComponents print expr visible).map fun c =>
      (c.component print).loaded) access := by
  obtain ⟨old, hold, hcollected, htext⟩ := exists_component print visible hc
  have hmem : (old.component print).loaded ∈ (mergeComponents print expr visible).map
      fun c => (c.component print).loaded := List.mem_map.mpr ⟨old, hold, rfl⟩
  have hrepr : ((old.component print).loaded).repr = access.repr :=
    htext.trans hwritten.1.symm
  obtain ⟨hname, hdereference⟩ := isComponent_self hmem
  rw [hrepr] at hname hdereference
  refine ⟨hname, fun hkind => hdereference ?_⟩
  have harrow : old.arrowBase.isSome = true :=
    (hprint old hcollected c hc htext).trans (hwritten.2 hkind)
  simp [ComponentJson.loaded, Expr.component, harrow]

/-! ## Entries of the two maps -/

/-- The lookups of an access find an entry, and no empty name. -/
structure Defined (sa : SchemaApplication) (names : Naming) (access : Expression) : Prop where
  renamed : access.repr ∈ (renamingEntries sa.components).map Prod.fst
  name : names.runtimeReprBySource access.repr ≠ ""
  tested : access.kind = .dereference → names.runtimeReprBySource access.repr ∈
    (dereferences sa.components).map names.runtimeReprBySource
  test : access.kind = .dereference →
    names.nullDerefByName (names.runtimeReprBySource access.repr) ≠ ""

private theorem defined_of_isComponent {sa : SchemaApplication} {names : Naming}
    (hnaming : naming sa = .ok names) {access : Expression}
    (h : IsComponent sa.components access) : Defined sa names access := by
  have hentry := renaming_mem hnaming h.1
  have hname : names.runtimeReprBySource access.repr ≠ "" := by
    rcases List.mem_append.mp hentry with hentry | hentry
    · obtain ⟨type, -, hentry⟩ := List.mem_flatMap.mp hentry
      obtain ⟨index, hindex, heq⟩ := List.mem_mapIdx.mp hentry
      rw [← (Prod.mk.inj heq).2]
      exact element_ne_empty _ _
    · obtain ⟨index, hindex, heq⟩ := List.mem_mapIdx.mp hentry
      rw [← (Prod.mk.inj heq).2]
      exact element_ne_empty _ _
  refine ⟨List.mem_map.mpr ⟨_, hentry, rfl⟩, hname,
    fun hkind => List.mem_map.mpr ⟨_, h.2 hkind, rfl⟩, fun hkind => ?_⟩
  obtain ⟨index, other, -, -, htest⟩ :=
    indexed_mem nullderefArgName names.runtimeReprBySource (h.2 hkind)
  rw [(naming_maps hnaming).2, nullDerefCondition, htest]
  exact element_ne_empty _ _

/--
Every variable and every dereference of the rendered candidates and conditions
has a runtime name, and every dereference a null test, if the components are
those that were collected with the expression.
-/
theorem candidateDispatch_names_defined {print : Expr → String} {expr : Expr}
    (hprint : Unambiguous print expr) {useGlobalVariables : Bool} {appId : Int}
    {location : LocationJson} {context : String} {parents : List EnclosingNode}
    {loaded : SchemaApplication}
    (hload : loadSchemaApplication (expressionApplication print useGlobalVariables appId
      location context expr parents) = .ok loaded)
    {typeContext : ExprType} {original : Expression}
    (hcorrect : correctTypes loaded.original typeContext = .ok original)
    {sa : SchemaApplication} (hsa : sa = { loaded with original := original })
    {names : Naming} (hnaming : naming sa = .ok names) {conditions : List Expression}
    (hconditions : bool2Expressions sa.components = .ok conditions)
    {modifications : List Modification}
    (hmodifications : baseModifications sa.schema sa.original sa.components =
      .ok modifications) :
    ∀ rendered ∈ conditions ++ modifications.map Prod.fst, ∀ access,
      AccessIn access rendered → Defined sa names access := by
  obtain ⟨-, horiginal, hloaded, -⟩ := loadSchemaApplication_loaded hload
  have hwell := convertExpression_wellFormed horiginal
  have hcomponents : sa.components = (collectComponents print useGlobalVariables expr
      location.beginLine.toNat parents).map fun c => (c.component print).loaded := by
    rw [hsa, hloaded, expressionApplication, List.map_map]
    rfl
  have hleaf : ∀ component ∈ sa.components, component.args = [] := by
    rw [hcomponents]
    intro component hmem
    obtain ⟨c, -, rfl⟩ := List.mem_map.mp hmem
    rfl
  have hcomponent : ∀ access, (∃ component ∈ sa.components, AccessIn access component) →
      IsComponent sa.components access := by
    rintro access ⟨component, hmem, hin⟩
    exact isComponent_of_accessIn hleaf hmem hin
  intro rendered hrendered access hin
  apply defined_of_isComponent hnaming
  rcases List.mem_append.mp hrendered with hcondition | hmodification
  · exact hcomponent access
      ((bool2Expressions_atomic hconditions rendered hcondition).accessIn hin)
  · obtain ⟨m, hm, rfl⟩ := List.mem_map.mp hmodification
    have hcorrected : sa.original.WellFormed := by
      rw [hsa]
      exact correctTypes_wellFormed hwell hcorrect
    rcases baseModifications_accessIn hcorrected hmodifications m hm access hin with hin | hin
    · rw [hsa] at hin
      obtain ⟨c, hc, hwritten⟩ :=
        exists_written horiginal (correctTypes_accessIn hwell hcorrect hin)
      rw [hcomponents]
      exact isComponent_of_written hprint hc hwritten
    · exact hcomponent access hin

def intType : QualType := .builtin .int true

def nodeParameter : VarDecl := ⟨"p", .pointer "struct node" .object, false, 3⟩

/-- `p->value`. -/
def nodeValue : Expr :=
  .member intType
    (.implicitCast nodeParameter.type .lvalueToRValue nodeParameter.reference) true "value"

/-- `p->value > 0`. -/
def positiveValue : Expr :=
  .binaryOperator intType .gt (.implicitCast intType .lvalueToRValue nodeValue)
    (.integerLiteral .int "0")

theorem candidateDispatch_names_defined_positiveValue :
    ∃ loaded original names conditions modifications,
      loadSchemaApplication (expressionApplication Expr.printed false 1 ⟨0, 5, 7, 5, 18⟩
        "condition" positiveValue [.other, .compound [], .function [nodeParameter] []]) =
          .ok loaded ∧
      correctTypes loaded.original .boolean = .ok original ∧
      naming { loaded with original := original } = .ok names ∧
      bool2Expressions loaded.components = .ok conditions ∧
      baseModifications loaded.schema original loaded.components = .ok modifications ∧
      Defined { loaded with original := original } names
        ⟨.dereference, .integer, .none, "int", "p->value", []⟩ := by
  have hprint : Unambiguous Expr.printed positiveValue := by
    simp [Unambiguous, positiveValue, nodeValue, Expr.collect]
  have hload : loadSchemaApplication (expressionApplication Expr.printed false 1 ⟨0, 5, 7, 5, 18⟩
      "condition" positiveValue [.other, .compound [], .function [nodeParameter] []]) =
        .ok _ := rfl
  refine ⟨_, _, _, _, _, hload, rfl, rfl, rfl, rfl, ?_⟩
  refine candidateDispatch_names_defined hprint hload rfl rfl rfl rfl rfl
    (applyBoolOperator .eq ⟨.dereference, .integer, .none, "int", "p->value", []⟩
      parameterNode) ?_ _ (.inArg (by simp [applyBoolOperator]) (.here (.inr rfl)))
  exact List.mem_append_left _ (by decide)

end F1X
