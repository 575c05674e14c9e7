import F1X.Synthesis.Edits

/-!
# Abstract nodes and their instantiation

`hasNodeOfKind` and `substituteNodeOfKind` of the generator.  The latter
replaces the first node of a kind only, so what matters is how many abstract
nodes there can be: at most one in every base modification and at most one
parameter in every atomic condition.
-/

namespace F1X

open F1X.Library

namespace generator

mutual

def hasNodeOfKind (kind : NodeKind) : Expression → Bool
  | ⟨nodeKind, _, _, _, _, args⟩ => nodeKind = kind || anyHasNodeOfKind kind args

def anyHasNodeOfKind (kind : NodeKind) : List Expression → Bool
  | [] => false
  | arg :: args => hasNodeOfKind kind arg || anyHasNodeOfKind kind args

end

mutual

def substituteNodeOfKind (kind : NodeKind) (substitution : Expression) :
    Expression → Expression × Bool
  | ⟨nodeKind, type, op, rawType, repr, args⟩ =>
      if nodeKind = kind then (substitution, true)
      else
        let result := substituteFirst kind substitution args
        (⟨nodeKind, type, op, rawType, repr, result.1⟩, result.2)

def substituteFirst (kind : NodeKind) (substitution : Expression) :
    List Expression → List Expression × Bool
  | [] => ([], false)
  | arg :: args =>
      let result := substituteNodeOfKind kind substitution arg
      if result.2 then (result.1 :: args, true)
      else
        let rest := substituteFirst kind substitution args
        (result.1 :: rest.1, rest.2)

end

end generator

open generator

/-! ## Counting nodes -/

mutual

def countNodes (p : NodeKind → Bool) : Expression → Nat
  | ⟨kind, _, _, _, _, args⟩ => (p kind).toNat + countArgs p args

def countArgs (p : NodeKind → Bool) : List Expression → Nat
  | [] => 0
  | arg :: args => countNodes p arg + countArgs p args

end

theorem countArgs_eq_zero {p : NodeKind → Bool} {args : List Expression} :
    countArgs p args = 0 ↔ ∀ arg ∈ args, countNodes p arg = 0 := by
  induction args with
  | nil => simp [countArgs]
  | cons arg args ih => simp [countArgs, ih]

theorem countNodes_abstract_eq_zero {expression : Expression} :
    countNodes isAbstractNode expression = 0 ↔ expression.AbstractFree := by
  induction expression with
  | node kind type op rawType repr args ih =>
      rw [Expression.abstractFree_iff, countNodes, Nat.add_eq_zero_iff,
        countArgs_eq_zero]
      apply and_congr (by simp)
      exact forall₂_congr ih

theorem countNodes_le {p q : NodeKind → Bool} (h : ∀ kind, p kind = true → q kind = true)
    (expression : Expression) : countNodes p expression ≤ countNodes q expression := by
  induction expression with
  | node kind type op rawType repr args ih =>
      have hargs : countArgs p args ≤ countArgs q args := by
        clear h
        induction args with
        | nil => simp [countArgs]
        | cons arg args ihargs =>
            have hhead := ih arg (by simp)
            have htail := ihargs fun other hmem => ih other (by simp [hmem])
            simp only [countArgs]
            omega
      have hkind : (p kind).toNat ≤ (q kind).toNat := by
        cases hp : p kind with
        | false => simp
        | true => simp [h kind hp]
      simp only [countNodes]
      omega

theorem anyHasNodeOfKind_eq_any (kind : NodeKind) (args : List Expression) :
    anyHasNodeOfKind kind args = args.any (hasNodeOfKind kind) := by
  induction args with
  | nil => rfl
  | cons arg args ih => rw [anyHasNodeOfKind, ih, List.any_cons]

theorem hasNodeOfKind_eq_false {kind : NodeKind} {expression : Expression} :
    hasNodeOfKind kind expression = false ↔
      countNodes (· = kind) expression = 0 := by
  induction expression with
  | node nodeKind type op rawType repr args ih =>
      rw [hasNodeOfKind, countNodes, Bool.or_eq_false_iff, Nat.add_eq_zero_iff,
        countArgs_eq_zero]
      apply and_congr (by simp)
      have hany : anyHasNodeOfKind kind args = false ↔
          ∀ arg ∈ args, hasNodeOfKind kind arg = false := by
        rw [anyHasNodeOfKind_eq_any, List.any_eq_false]
        simp only [Bool.not_eq_true]
      rw [hany]
      exact forall₂_congr ih

theorem substituteNodeOfKind_count (p : NodeKind → Bool) (kind : NodeKind)
    (substitution expression : Expression) :
    let result := substituteNodeOfKind kind substitution expression
    if hasNodeOfKind kind expression then
      result.2 = true ∧ countNodes p result.1 + (p kind).toNat ≤
        countNodes p expression + countNodes p substitution ∧
        countNodes p substitution ≤ countNodes p result.1
    else result = (expression, false) := by
  induction expression with
  | node nodeKind type op rawType repr args ih =>
      by_cases hkind : nodeKind = kind
      · simp [substituteNodeOfKind, hasNodeOfKind, hkind, countNodes]
        omega
      · have hargs : let result := substituteFirst kind substitution args
            if anyHasNodeOfKind kind args then
              result.2 = true ∧ countArgs p result.1 + (p kind).toNat ≤
                countArgs p args + countNodes p substitution ∧
                countNodes p substitution ≤ countArgs p result.1
            else result = (args, false) := by
          induction args with
          | nil => simp [anyHasNodeOfKind, substituteFirst]
          | cons arg args ihargs =>
              have hhead := ih arg (by simp)
              have htail := ihargs fun other hmem => ih other (by simp [hmem])
              simp only [anyHasNodeOfKind, substituteFirst, countArgs]
              cases harg : hasNodeOfKind kind arg with
              | true =>
                  rw [harg, if_pos rfl] at hhead
                  simp [hhead.1, countArgs]
                  omega
              | false =>
                  rw [harg, if_neg (by simp)] at hhead
                  cases hrest : anyHasNodeOfKind kind args with
                  | true =>
                      rw [hrest, if_pos rfl] at htail
                      simp [hhead, htail.1, countArgs]
                      omega
                  | false =>
                      rw [hrest, if_neg (by simp)] at htail
                      simp [hhead, htail]
        simp only [substituteNodeOfKind, hasNodeOfKind, hkind, countNodes]
        cases hany : anyHasNodeOfKind kind args with
        | true =>
            rw [hany, if_pos rfl] at hargs
            simp [hargs.1, countNodes]
            omega
        | false =>
            rw [hany, if_neg (by simp)] at hargs
            simp [hargs]

theorem substituteNodeOfKind_of_not_has {kind : NodeKind} {expression : Expression}
    (h : hasNodeOfKind kind expression = false) (substitution : Expression) :
    (substituteNodeOfKind kind substitution expression).1 = expression := by
  have hresult := substituteNodeOfKind_count (fun _ => true) kind substitution expression
  simp only [h] at hresult
  exact congrArg Prod.fst hresult

theorem countNodes_substituteNodeOfKind {kind : NodeKind} {expression : Expression}
    (h : hasNodeOfKind kind expression = true) (p : NodeKind → Bool)
    (substitution : Expression) :
    countNodes p (substituteNodeOfKind kind substitution expression).1 +
        (p kind).toNat ≤ countNodes p expression + countNodes p substitution := by
  have hresult := substituteNodeOfKind_count p kind substitution expression
  rw [if_pos h] at hresult
  exact hresult.2.1

theorem countNodes_le_substituteNodeOfKind {kind : NodeKind} {expression : Expression}
    (h : hasNodeOfKind kind expression = true) (p : NodeKind → Bool)
    (substitution : Expression) :
    countNodes p substitution ≤
      countNodes p (substituteNodeOfKind kind substitution expression).1 := by
  have hresult := substituteNodeOfKind_count p kind substitution expression
  rw [if_pos h] at hresult
  exact hresult.2.2

/-! ## Replacing a node -/

/-- The first node of the kind, from the root down and from the left, is replaced. -/
inductive ReplacesFirst (kind : NodeKind) (substitution : Expression) :
    Expression → Expression → Prop
  | here {expression : Expression} (h : expression.kind = kind) :
      ReplacesFirst kind substitution expression substitution
  | under {nodeKind : NodeKind} {type : ExprType} {op : Operator} {rawType repr : String}
      {before after : List Expression} {arg modified : Expression} (hkind : nodeKind ≠ kind)
      (hbefore : ∀ earlier ∈ before, countNodes (· = kind) earlier = 0)
      (harg : ReplacesFirst kind substitution arg modified) :
      ReplacesFirst kind substitution ⟨nodeKind, type, op, rawType, repr, before ++ arg :: after⟩
        ⟨nodeKind, type, op, rawType, repr, before ++ modified :: after⟩

private theorem substituteFirst_append {kind : NodeKind} {substitution arg modified : Expression}
    {before after : List Expression}
    (hbefore : ∀ earlier ∈ before, countNodes (· = kind) earlier = 0)
    (harg : substituteNodeOfKind kind substitution arg = (modified, true)) :
    substituteFirst kind substitution (before ++ arg :: after) =
      (before ++ modified :: after, true) := by
  induction before with
  | nil => simp [substituteFirst, harg]
  | cons first before ih =>
      obtain ⟨hfirst, hbefore⟩ := List.forall_mem_cons.mp hbefore
      have hnone := substituteNodeOfKind_count (fun _ => true) kind substitution first
      simp only [hasNodeOfKind_eq_false.mpr hfirst, Bool.false_eq_true, if_false] at hnone
      simp [substituteFirst, hnone, ih hbefore]

theorem ReplacesFirst.substituteNodeOfKind_eq {kind : NodeKind}
    {substitution expression modified : Expression}
    (h : ReplacesFirst kind substitution expression modified) :
    substituteNodeOfKind kind substitution expression = (modified, true) := by
  induction h with
  | @here expression h =>
      obtain ⟨nodeKind, type, op, rawType, repr, args⟩ := expression
      exact if_pos h
  | under hkind hbefore _ ih =>
      rw [substituteNodeOfKind, if_neg hkind, substituteFirst_append hbefore ih]

theorem replacesFirst_substituteNodeOfKind {kind : NodeKind} {expression : Expression}
    (h : hasNodeOfKind kind expression = true) (substitution : Expression) :
    ReplacesFirst kind substitution expression
      (substituteNodeOfKind kind substitution expression).1 := by
  induction expression with
  | node nodeKind type op rawType repr args ih =>
      by_cases hkind : nodeKind = kind
      · rw [substituteNodeOfKind, if_pos hkind]
        exact .here hkind
      · have hany : ∃ arg, args.find? (hasNodeOfKind kind) = some arg := by
          rw [← Option.isSome_iff_exists, List.find?_isSome]
          simpa [hasNodeOfKind, hkind, anyHasNodeOfKind_eq_any] using h
        obtain ⟨arg, hfind⟩ := hany
        obtain ⟨harg, before, after, rfl, hbefore⟩ := List.find?_eq_some_iff_append.mp hfind
        have hnone : ∀ earlier ∈ before, countNodes (· = kind) earlier = 0 := fun earlier hmem =>
          hasNodeOfKind_eq_false.mp (by simpa using hbefore earlier hmem)
        have hreplaced := ih arg (by simp) harg
        rw [substituteNodeOfKind, if_neg hkind,
          substituteFirst_append hnone hreplaced.substituteNodeOfKind_eq]
        exact .under hkind hnone hreplaced

/-- `substituteNodeOfKind` replaces the first node of the kind and nothing else. -/
theorem replacesFirst_iff {kind : NodeKind} {substitution expression modified : Expression} :
    ReplacesFirst kind substitution expression modified ↔
      hasNodeOfKind kind expression = true ∧
        (substituteNodeOfKind kind substitution expression).1 = modified := by
  constructor
  · intro h
    refine ⟨?_, congrArg Prod.fst h.substituteNodeOfKind_eq⟩
    by_contra hnone
    have hresult := substituteNodeOfKind_count (fun _ => true) kind substitution expression
    simp [hnone, h.substituteNodeOfKind_eq] at hresult
  · rintro ⟨h, rfl⟩
    exact replacesFirst_substituteNodeOfKind h substitution

/-! ## Abstract nodes of modifications -/

/-- The abstract nodes that no instantiation removes, and those only `bool2` removes. -/
def isUnusedNode (kind : NodeKind) : Bool := kind = .int2 || kind = .cond3

def isNestedNode (kind : NodeKind) : Bool := isAbstractNode kind && kind ≠ .parameter

/-- At most one abstract node, and it is a parameter or a condition. -/
structure Schematic (expression : Expression) : Prop where
  atMostOne : countNodes isAbstractNode expression ≤ 1
  used : countNodes isUnusedNode expression = 0

/-- At most one abstract node, and it is a parameter. -/
structure Parametric (expression : Expression) : Prop where
  atMostOne : countNodes isAbstractNode expression ≤ 1
  flat : countNodes isNestedNode expression = 0

theorem isUnusedNode_le (kind : NodeKind) (h : isUnusedNode kind = true) :
    isAbstractNode kind = true := by
  cases kind <;> simp_all [isUnusedNode, isAbstractNode]

theorem isNestedNode_le (kind : NodeKind) (h : isNestedNode kind = true) :
    isAbstractNode kind = true := by
  cases kind <;> simp_all [isNestedNode, isAbstractNode]

theorem Schematic.ofAbstractFree {expression : Expression}
    (h : expression.AbstractFree) : Schematic expression := by
  have hzero := countNodes_abstract_eq_zero.mpr h
  have hunused := countNodes_le isUnusedNode_le expression
  exact ⟨by omega, by omega⟩

theorem Parametric.ofAbstractFree {expression : Expression}
    (h : expression.AbstractFree) : Parametric expression := by
  have hzero := countNodes_abstract_eq_zero.mpr h
  have hnested := countNodes_le isNestedNode_le expression
  exact ⟨by omega, by omega⟩

theorem Expression.AbstractFree.count {expression : Expression}
    (h : expression.AbstractFree) {p : NodeKind → Bool}
    (hp : ∀ kind, p kind = true → isAbstractNode kind = true) :
    countNodes p expression = 0 := by
  have hzero := countNodes_abstract_eq_zero.mpr h
  have hle := countNodes_le hp expression
  omega

theorem Schematic.node {expression modified : Expression}
    (hkind : isAbstractNode expression.kind = false) (h : Schematic modified)
    (before after : List Expression) (hbefore : ∀ arg ∈ before, arg.AbstractFree)
    (hafter : ∀ arg ∈ after, arg.AbstractFree) :
    Schematic { expression with args := before ++ modified :: after } := by
  have hcount : ∀ p : NodeKind → Bool,
      (∀ kind, p kind = true → isAbstractNode kind = true) →
      countNodes p { expression with args := before ++ modified :: after } =
        countNodes p modified := by
    intro p hp
    have hnode : p expression.kind = false := by
      cases hpk : p expression.kind with
      | false => rfl
      | true => simp [hp _ hpk] at hkind
    have htail := countArgs_eq_zero.mpr fun arg hmem => (hafter arg hmem).count hp
    simp only [countNodes, hnode, Bool.toNat_false, Nat.zero_add]
    induction before with
    | nil => simp [countArgs, htail]
    | cons first before ih =>
        have hfirst := (hbefore first (by simp)).count hp
        have hrest := ih fun arg hmem => hbefore arg (by simp [hmem])
        simp [countArgs, hfirst, hrest]
  exact ⟨by rw [hcount _ fun _ h => h]; exact h.atMostOne,
    by rw [hcount _ isUnusedNode_le]; exact h.used⟩

theorem Parametric.not_hasNode {expression : Expression} (h : Parametric expression)
    {kind : NodeKind} (hkind : isNestedNode kind = true) :
    hasNodeOfKind kind expression = false := by
  rw [hasNodeOfKind_eq_false]
  have hle : countNodes (· = kind) expression ≤ countNodes isNestedNode expression :=
    countNodes_le (by simpa using hkind) expression
  have hflat := h.flat
  omega

theorem Schematic.bool2_le {expression : Expression} (h : Schematic expression) :
    countNodes (· = .bool2) expression ≤ 1 := by
  have hle : countNodes (· = .bool2) expression ≤ countNodes isAbstractNode expression :=
    countNodes_le (by simp [isAbstractNode]) expression
  exact Nat.le_trans hle h.atMostOne

theorem Parametric.parameter_le {expression : Expression} (h : Parametric expression) :
    countNodes (· = .parameter) expression ≤ 1 := by
  have hle : countNodes (· = .parameter) expression ≤ countNodes isAbstractNode expression :=
    countNodes_le (by simp [isAbstractNode]) expression
  exact Nat.le_trans hle h.atMostOne

theorem countNodes_add {p q r : NodeKind → Bool}
    (h : ∀ kind, (p kind).toNat = (q kind).toNat + (r kind).toNat)
    (expression : Expression) :
    countNodes p expression = countNodes q expression + countNodes r expression := by
  induction expression with
  | node kind type op rawType repr args ih =>
      have hargs : countArgs p args = countArgs q args + countArgs r args := by
        induction args with
        | nil => rfl
        | cons arg args ihargs =>
            have hhead := ih arg (by simp)
            have htail := ihargs fun other hmem => ih other (by simp [hmem])
            simp only [countArgs]
            omega
      have hkind := h kind
      simp only [countNodes]
      omega

theorem countNodes_abstract (expression : Expression) :
    countNodes isAbstractNode expression =
      countNodes isNestedNode expression + countNodes (· = .parameter) expression :=
  countNodes_add (by intro kind; cases kind <;> rfl) expression

theorem countNodes_nested (expression : Expression) :
    countNodes isNestedNode expression =
      countNodes isUnusedNode expression + countNodes (· = .bool2) expression :=
  countNodes_add (by intro kind; cases kind <;> rfl) expression

theorem Schematic.parametric {expression : Expression} (h : Schematic expression)
    (hbool2 : hasNodeOfKind .bool2 expression = false) : Parametric expression := by
  have hsplit := countNodes_nested expression
  rw [h.used, hasNodeOfKind_eq_false.mp hbool2] at hsplit
  exact ⟨h.atMostOne, hsplit⟩

theorem Parametric.abstractFree {expression : Expression} (h : Parametric expression)
    (hparam : hasNodeOfKind .parameter expression = false) :
    expression.AbstractFree := by
  have hsplit := countNodes_abstract expression
  rw [h.flat, hasNodeOfKind_eq_false.mp hparam] at hsplit
  exact countNodes_abstract_eq_zero.mp hsplit

theorem Parametric.instantiate {expression : Expression} (h : Parametric expression)
    (hparam : hasNodeOfKind .parameter expression = true) (k : Nat) :
    (substituteNodeOfKind .parameter (makeIntegerConst k) expression).1.AbstractFree := by
  have hcount := countNodes_substituteNodeOfKind hparam isAbstractNode (makeIntegerConst k)
  have hconst := countNodes_abstract_eq_zero.mpr (abstractFree_makeIntegerConst k)
  have hparameter : (isAbstractNode .parameter).toNat = 1 := rfl
  have hone := h.atMostOne
  rw [hconst, hparameter] at hcount
  exact countNodes_abstract_eq_zero.mp (by omega)

private theorem schematic_parameterNode : Schematic parameterNode := ⟨by decide, by decide⟩

theorem schematic_bool2Node : Schematic bool2Node := ⟨by decide, by decide⟩

namespace synthesis

private theorem Edit.schematic {components : List Expression}
    (hcomponents : ∀ component ∈ components, component.AbstractFree)
    {expr modified : Expression} {metadata : PatchMetadata}
    (edit : Edit components expr modified metadata) (hfree : expr.AbstractFree) :
    Schematic modified := by
  induction edit with
  | condition => exact schematic_bool2Node
  | parametrize | concretize => exact schematic_parameterNode
  | generalize _ _ _ hmem | substitute _ _ _ hmem | redirect _ _ _ hmem =>
      exact .ofAbstractFree (hcomponents _ hmem)
  | nullify => exact .ofAbstractFree abstractFree_nullNode
  | mutate =>
      obtain ⟨hkind, hargs⟩ := Expression.abstractFree_iff.mp hfree
      exact .ofAbstractFree (Expression.abstractFree_iff.mpr ⟨hkind, hargs⟩)
  | arg hargs edit ih =>
      obtain ⟨hkind, hfrees⟩ := Expression.abstractFree_iff.mp hfree
      rw [hargs] at hfrees
      exact Schematic.node hkind (ih (hfrees _ (by simp))) [] [] (by simp) (by simp)
  | @left expr left right modified metadata hargs _ edit ih =>
      obtain ⟨hkind, hfrees⟩ := Expression.abstractFree_iff.mp hfree
      rw [hargs] at hfrees
      rw [substituteLeftArg, hargs]
      exact Schematic.node hkind (ih (hfrees _ (by simp))) [] [right] (by simp)
        (by simpa using hfrees right (by simp))
  | @right expr left right modified metadata hargs edit ih =>
      obtain ⟨hkind, hfrees⟩ := Expression.abstractFree_iff.mp hfree
      rw [hargs] at hfrees
      rw [substituteRightArg, hargs]
      exact Schematic.node hkind (ih (hfrees _ (by simp))) [left] []
        (by simpa using hfrees left (by simp)) (by simp)
  | @castLeft expr left right hargs integer =>
      obtain ⟨hkind, hfrees⟩ := Expression.abstractFree_iff.mp hfree
      rw [hargs] at hfrees
      rw [substituteLeftArg, hargs]
      exact Schematic.node hkind
        (.ofAbstractFree (abstractFree_wrapWithCast (hfrees left (by simp)) _ _ _))
        [] [right]
        (by simp) (by simpa using hfrees right (by simp))
  | @castRight expr left right hargs integer =>
      obtain ⟨hkind, hfrees⟩ := Expression.abstractFree_iff.mp hfree
      rw [hargs] at hfrees
      rw [substituteRightArg, hargs]
      exact Schematic.node hkind
        (.ofAbstractFree (abstractFree_wrapWithCast (hfrees right (by simp)) _ _ _))
        [left] []
        (by simpa using hfrees left (by simp)) (by simp)
  | simplifyArg hargs | simplifyLeft hargs | simplifyRight hargs =>
      refine .ofAbstractFree ((Expression.abstractFree_iff.mp hfree).2 _ ?_)
      simp [hargs]

theorem baseModifications_schematic {schema : TransformationSchema}
    {expr : Expression} {components : List Expression}
    {modifications : List Modification}
    (hfree : expr.AbstractFree)
    (hcomponents : ∀ component ∈ components, component.AbstractFree)
    (h : baseModifications schema expr components = .ok modifications) :
    ∀ m ∈ modifications, Schematic m.1 := by
  have hcombined : ∀ op, Schematic (applyBoolOperator op expr bool2Node) := fun op =>
    @Schematic.node (applyBoolOperator op expr bool2Node) bool2Node rfl
      schematic_bool2Node [expr] [] (by simpa using hfree) (by simp)
  exact baseModifications_forall (fun _ _ _ edit => edit.schematic hcomponents hfree)
    (fun _ => hcombined .or) (fun _ => hcombined .and) (.ofAbstractFree rfl) (.ofAbstractFree rfl)
    schematic_bool2Node h

/-- A condition compares a component with a component, the null pointer or the parameter. -/
inductive Atomic (components : List Expression) : Expression → Prop
  | null {left : Expression} (op : Operator) (hleft : left ∈ components)
      (hop : op = .eq ∨ op = .neq) (pointer : left.type = .pointer) :
      Atomic components (applyBoolOperator op left nullNode)
  | pointers {left right : Expression} (op : Operator) (hleft : left ∈ components)
      (hright : right ∈ components) (hop : op = .eq ∨ op = .neq)
      (leftPointer : left.type = .pointer) (rightPointer : right.type = .pointer)
      (hraw : left.rawType = right.rawType) :
      Atomic components (applyBoolOperator op left right)
  | parameter {left : Expression} (op : Operator) (hleft : left ∈ components)
      (hop : op ∈ [Operator.eq, .neq, .lt, .le, .gt, .ge])
      (integer : left.type = .integer) :
      Atomic components (applyBoolOperator op left parameterNode)
  | integers {left right : Expression} (op : Operator) (hleft : left ∈ components)
      (hright : right ∈ components) (hop : op ∈ [Operator.eq, .neq, .lt, .le, .gt, .ge])
      (leftInteger : left.type = .integer) (rightInteger : right.type = .integer) :
      Atomic components (applyBoolOperator op left right)

theorem Atomic.comparison {components : List Expression} {condition : Expression}
    (atomic : Atomic components condition) :
    ∃ op left right, condition = applyBoolOperator op left right ∧
      op ∈ [Operator.eq, .neq, .lt, .le, .gt, .ge] := by
  cases atomic with
  | null op _ hop | pointers op _ _ hop =>
      exact ⟨op, _, _, rfl, by rcases hop with rfl | rfl <;> decide⟩
  | parameter op _ hop | integers op _ _ hop => exact ⟨op, _, _, rfl, hop⟩

private theorem bool2ExpressionsOf_atomic {components : List Expression} {left : Expression}
    {conditions : List Expression} (hleft : left ∈ components)
    (h : bool2ExpressionsOf components left = .ok conditions) :
    ∀ condition ∈ conditions, Atomic components condition := by
  intro condition hcondition
  unfold bool2ExpressionsOf at h
  split at h
  · rename_i hpointer
    cases h
    simp only [List.mem_append, List.mem_cons, List.not_mem_nil, or_false,
      List.mem_flatMap] at hcondition
    rcases hcondition with (rfl | rfl) | ⟨right, hright, hcondition⟩
    · exact .null .eq hleft (.inl rfl) hpointer
    · exact .null .neq hleft (.inr rfl) hpointer
    · split at hcondition
      · rename_i hsame
        simp only [List.mem_cons, List.not_mem_nil, or_false] at hcondition
        rcases hcondition with rfl | rfl
        · exact .pointers .eq hleft hright (.inl rfl) hpointer hsame.1 hsame.2
        · exact .pointers .neq hleft hright (.inr rfl) hpointer hsame.1 hsame.2
      · simp at hcondition
  · rename_i hinteger
    cases h
    rcases List.mem_append.mp hcondition with hcondition | hcondition
    · obtain ⟨op, hop, rfl⟩ := List.mem_map.mp hcondition
      exact .parameter op hleft hop hinteger
    · obtain ⟨right, hright, hcondition⟩ := List.mem_flatMap.mp hcondition
      split at hcondition
      · rename_i hrightInteger
        obtain ⟨op, hop, rfl⟩ := List.mem_map.mp hcondition
        exact .integers op hleft hright hop hinteger hrightInteger
      · simp at hcondition
  · cases h

theorem bool2Expressions_atomic {components conditions : List Expression}
    (h : bool2Expressions components = .ok conditions) :
    ∀ condition ∈ conditions, Atomic components condition := by
  obtain ⟨lists, hlists, h⟩ := bind_eq_ok_iff.mp h
  cases h
  intro condition hcondition
  obtain ⟨list, hlist, hcondition⟩ := List.mem_flatten.mp hcondition
  obtain ⟨left, hleft, hof⟩ := exists_of_mem_mapM hlists hlist
  exact bool2ExpressionsOf_atomic hleft hof condition hcondition

theorem parametric_applyBoolOperator {left right : Expression} (op : Operator)
    (hleft : left.AbstractFree) (hright : Parametric right) :
    Parametric (applyBoolOperator op left right) := by
  have hnone := hleft.count fun _ h => h
  have hnested := hleft.count isNestedNode_le
  constructor
  · simpa [applyBoolOperator, countNodes, countArgs, hnone, isAbstractNode]
      using hright.atMostOne
  · simpa [applyBoolOperator, countNodes, countArgs, hnested, isNestedNode,
      isAbstractNode] using hright.flat

theorem Atomic.parametric {components : List Expression} {condition : Expression}
    (atomic : Atomic components condition)
    (hcomponents : ∀ component ∈ components, component.AbstractFree) :
    Parametric condition := by
  cases atomic with
  | null op hleft =>
      exact parametric_applyBoolOperator op (hcomponents _ hleft)
        (.ofAbstractFree abstractFree_nullNode)
  | parameter op hleft =>
      exact parametric_applyBoolOperator op (hcomponents _ hleft)
        ⟨by decide, by decide⟩
  | pointers op hleft hright | integers op hleft hright =>
      exact parametric_applyBoolOperator op (hcomponents _ hleft)
        (.ofAbstractFree (hcomponents _ hright))

end synthesis

end F1X
