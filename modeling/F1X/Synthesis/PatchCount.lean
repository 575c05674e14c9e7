import F1X.Synthesis.SearchSpace
import Mathlib.Algebra.GroupWithZero.Nat

/-!
# How many patches

The number of patches that `candidateDispatch` appends for one schema application,
as a sum over the nodes of the original expression and the pairs of components.
Every partial candidate counts once for each way to make it concrete.
-/

namespace F1X.generator

open F1X.Library F1X.synthesis

/-! ## Patches of a partial candidate -/

/-- `conditions` instances for a `bool2` node, `constants` for a parameter, else one. -/
def patchWeight (conditions constants : Nat) (expression : Expression) : Nat :=
  if hasNodeOfKind .bool2 expression then conditions
  else if hasNodeOfKind .parameter expression then constants
  else 1

section Weight

variable {conditions constants : Nat} {expression modified : Expression}

theorem hasNodeOfKind_abstractFree (h : expression.AbstractFree) (kind : NodeKind)
    (hkind : isAbstractNode kind = true) : hasNodeOfKind kind expression = false := by
  rw [hasNodeOfKind_eq_false]
  exact h.count (by simpa using hkind)

theorem patchWeight_abstractFree (h : expression.AbstractFree) :
    patchWeight conditions constants expression = 1 := by
  simp [patchWeight, hasNodeOfKind_abstractFree h .bool2 rfl,
    hasNodeOfKind_abstractFree h .parameter rfl]

@[simp]
theorem patchWeight_parameterNode : patchWeight conditions constants parameterNode = constants :=
  rfl

@[simp]
theorem patchWeight_bool2Node : patchWeight conditions constants bool2Node = conditions := rfl

private theorem anyHasNodeOfKind_append {kind : NodeKind} (before after : List Expression) :
    anyHasNodeOfKind kind (before ++ after) =
      (anyHasNodeOfKind kind before || anyHasNodeOfKind kind after) := by
  simp only [anyHasNodeOfKind_eq_any, List.any_append]

theorem anyHasNodeOfKind_abstractFree {kind : NodeKind} (hkind : isAbstractNode kind = true)
    {args : List Expression} (h : ∀ arg ∈ args, arg.AbstractFree) :
    anyHasNodeOfKind kind args = false := by
  rw [anyHasNodeOfKind_eq_any, List.any_eq_false]
  intro arg harg
  rw [hasNodeOfKind_abstractFree (h arg harg) kind hkind]
  exact Bool.false_ne_true

theorem patchWeight_node (hkind : isAbstractNode expression.kind = false)
    (before after : List Expression) (hbefore : ∀ arg ∈ before, arg.AbstractFree)
    (hafter : ∀ arg ∈ after, arg.AbstractFree) :
    patchWeight conditions constants { expression with args := before ++ modified :: after } =
      patchWeight conditions constants modified := by
  have hhas (kind : NodeKind) (habstract : isAbstractNode kind = true) :
      hasNodeOfKind kind { expression with args := before ++ modified :: after } =
        hasNodeOfKind kind modified := by
    have hne : expression.kind ≠ kind := by
      rintro rfl
      rw [hkind] at habstract
      cases habstract
    simp [hasNodeOfKind, hne, anyHasNodeOfKind_append, anyHasNodeOfKind,
      anyHasNodeOfKind_abstractFree habstract hbefore,
      anyHasNodeOfKind_abstractFree habstract hafter]
  simp only [patchWeight, hhas .bool2 rfl, hhas .parameter rfl]

end Weight

theorem length_paramChoices (conditions paramBound : Nat) (current : PatchID × Expression)
    (h : hasNodeOfKind .bool2 current.2 = false) :
    (paramChoices paramBound current).length =
      patchWeight conditions (paramBound + 1) current.2 := by
  unfold paramChoices patchWeight
  split <;> simp_all

private theorem hasParameter_bool2Instance (current : PatchID × Expression)
    (hcurrent : Schematic current.2) (hbool2 : hasNodeOfKind .bool2 current.2 = true)
    (condition : Expression) (i : Nat) :
    hasNodeOfKind .parameter (bool2Instance current i condition).2 =
      hasNodeOfKind .parameter condition := by
  have hcount := countNodes_substituteNodeOfKind hbool2 (· = .parameter) condition
  have hle := countNodes_le_substituteNodeOfKind hbool2 (· = .parameter) condition
  have hone : 0 < countNodes (· = .bool2) current.2 := by
    rw [Nat.pos_iff_ne_zero]
    intro hzero
    rw [hasNodeOfKind_eq_false.mpr hzero] at hbool2
    cases hbool2
  have habstract := countNodes_abstract current.2
  have hnested := countNodes_nested current.2
  have hatMostOne := hcurrent.atMostOne
  have hsame : hasNodeOfKind .parameter (bool2Instance current i condition).2 = false ↔
      hasNodeOfKind .parameter condition = false := by
    rw [hasNodeOfKind_eq_false, hasNodeOfKind_eq_false]
    simp only [bool2Instance] at hcount hle ⊢
    omega
  exact Bool.eq_iff_iff.mpr (by simpa using not_congr hsame)

/-- One patch for every instance of a condition and every value of a parameter. -/
theorem length_candidates {conditions : List Expression}
    (hconditions : ∀ condition ∈ conditions, Parametric condition) (paramBound : Nat)
    (current : PatchID × Expression) (hcurrent : Schematic current.2) :
    (candidates conditions paramBound current).length =
      patchWeight (conditions.map (patchWeight 0 (paramBound + 1))).sum (paramBound + 1)
        current.2 := by
  unfold candidates bool2Choices
  split
  · rename_i hbool2
    rw [patchWeight, if_pos hbool2, List.length_flatMap, List.map_reverse, List.sum_reverse]
    congr 1
    apply List.ext_getElem
    · simp
    · intro i h1 h2
      have hi : i < conditions.length := by simpa using h2
      have hmem : conditions[i] ∈ conditions := List.getElem_mem hi
      have hflat : hasNodeOfKind .bool2 (bool2Instance current i conditions[i]).2 = false :=
        (bool2Instance_parametric current hcurrent hbool2 (hconditions _ hmem) i).not_hasNode rfl
      have hcondition : hasNodeOfKind .bool2 conditions[i] = false :=
        (hconditions _ hmem).not_hasNode rfl
      simp only [List.getElem_map, List.getElem_mapIdx]
      rw [length_paramChoices 0 paramBound _ hflat, patchWeight, patchWeight, hflat,
        hcondition, hasParameter_bool2Instance current hcurrent hbool2]
  · rename_i hbool2
    rw [List.flatMap_singleton, length_paramChoices _ _ _ (by simpa using hbool2)]

/-! ## Conditions -/

def conditionCount (constants : Nat) (components : List Expression) : Nat :=
  (components.map fun left =>
    match left.type with
    | .pointer =>
        2 + 2 * components.countP fun right =>
          decide (right.type = .pointer ∧ left.rawType = right.rawType)
    | .integer => 6 * constants + 6 * components.countP fun right => decide (right.type = .integer)
    | _ => 0).sum

theorem sum_flatMap_ite {α β : Type} (weight : β → Nat) (k : Nat) (p : α → Prop)
    [DecidablePred p] (choices : α → List β) (xs : List α)
    (h : ∀ x ∈ xs, p x → ((choices x).map weight).sum = k) :
    ((xs.flatMap fun x => if p x then choices x else []).map weight).sum =
      k * xs.countP fun x => decide (p x) := by
  induction xs with
  | nil => simp
  | cons x xs ih =>
      obtain ⟨hx, hxs⟩ := List.forall_mem_cons.mp h
      rw [List.flatMap_cons, List.map_append, List.sum_append, ih hxs, List.countP_cons]
      by_cases hp : p x
      · simp [hp, hx hp, Nat.mul_add, Nat.add_comm]
      · simp [hp]

section Conditions

variable {components : List Expression} (hcomponents : ∀ component ∈ components,
  component.AbstractFree)

include hcomponents in
private theorem sum_bool2ExpressionsOf (constants : Nat) {left : Expression}
    (hleft : left.AbstractFree) {conditions : List Expression}
    (h : bool2ExpressionsOf components left = .ok conditions) :
    (conditions.map (patchWeight 0 constants)).sum =
      match left.type with
      | .pointer =>
          2 + 2 * components.countP fun right =>
            decide (right.type = .pointer ∧ left.rawType = right.rawType)
      | .integer =>
          6 * constants + 6 * components.countP fun right => decide (right.type = .integer)
      | _ => 0 := by
  have hcomparison (op : Operator) (right : Expression) :
      patchWeight 0 constants (applyBoolOperator op left right) =
        patchWeight 0 constants right :=
    @patchWeight_node 0 constants (applyBoolOperator op left right) right rfl [left] []
      (by simpa using hleft) (by simp)
  have hnull : patchWeight 0 constants nullNode = 1 :=
    patchWeight_abstractFree abstractFree_nullNode
  unfold bool2ExpressionsOf at h
  cases htype : left.type with
  | pointer =>
      rw [htype] at h
      cases h
      rw [List.map_append, List.sum_append, sum_flatMap_ite _ 2]
      · simp [makeNULLCheck, makeNonNULLCheck, hcomparison, hnull]
      · intro right hright _
        simp [hcomparison, patchWeight_abstractFree (hcomponents right hright)]
  | integer =>
      rw [htype] at h
      cases h
      rw [List.map_append, List.sum_append, sum_flatMap_ite _ 6]
      · simp [hcomparison]
        omega
      · intro right hright _
        simp [hcomparison, patchWeight_abstractFree (hcomponents right hright)]
  | any | boolean | bitvector =>
      rw [htype] at h
      cases h

include hcomponents in
private theorem sum_bool2Expressions (constants : Nat) {conditions : List Expression}
    (h : bool2Expressions components = .ok conditions) :
    (conditions.map (patchWeight 0 constants)).sum = conditionCount constants components := by
  obtain ⟨lists, hlists, h⟩ := bind_eq_ok_iff.mp h
  cases h
  rw [List.map_flatten, List.sum_flatten, List.map_map, conditionCount]
  refine congrArg List.sum (map_eq_of_forall₂ (mapM_eq_ok_iff.mp hlists) ?_)
  intro left hleft list hlist
  exact sum_bool2ExpressionsOf hcomponents constants (hcomponents left hleft) hlist

end Conditions

/-! ## Edits -/

/-- The length of the lists of `mutateNumericOperator` and `mutatePointerOperator`. -/
def mutationCount (op : Operator) (first : ExprType) : Nat :=
  if first = .pointer then
    match op with
    | .eq | .neq | .ptrAdd | .ptrSub => 1
    | _ => 0
  else
    match op with
    | .eq | .neq | .lt | .le | .gt | .ge => 5
    | .or | .and | .bvShl | .bvShr => 1
    | .add | .sub | .mul | .bvAnd | .bvOr | .bvXor => 2
    | .div | .mod => 3
    | _ => 0

def leafCount (constants : Nat) (components : List Expression) (leaf : Expression) : Nat :=
  if leaf.type = .integer ∧ (leaf.kind = .constant ∨ isAccess leaf) then
    (components.countP fun c => decide (c.type = .integer)) + constants
  else if leaf.type = .pointer ∧ isAccess leaf then
    (components.countP fun c => decide (c.type = .pointer ∧ leaf.rawType = c.rawType)) + 1
  else 0

/-- The instances of all edits, one summand for every node that can be edited. -/
def editCount (conditions constants : Nat) (components : List Expression) : Expression → Nat
  | ⟨kind, type, op, rawType, repr, args⟩ =>
      (if type = .boolean then conditions else 0) +
      match args with
      | [] => leafCount constants components ⟨kind, type, op, rawType, repr, args⟩
      | [arg] =>
          mutationCount op arg.type + editCount conditions constants components arg +
            if isSimplifiable ⟨kind, type, op, rawType, repr, args⟩ then 1 else 0
      | [left, right] =>
          mutationCount op left.type +
            (if op ≠ .ptrAdd ∧ op ≠ .ptrSub then
              editCount conditions constants components left else 0) +
            editCount conditions constants components right +
            (if left.type = .integer then 1 else 0) +
            (if right.type = .integer then 1 else 0) +
            if isSimplifiable ⟨kind, type, op, rawType, repr, args⟩ then 2 else 0
      | first :: _ => mutationCount op first.type
termination_by structural expr => expr

private theorem length_mutatedOperators {expr first : Expression} {operators : List Operator}
    (h : mutatedOperators expr first = .ok operators) :
    operators.length = mutationCount expr.op first.type := by
  unfold mutatedOperators at h
  unfold mutationCount
  generalize expr.op = op at *
  split at h <;> rename_i hpointer <;> simp only [hpointer, if_true, if_false] <;>
    cases op <;> cases h <;> rfl

section Edits

variable {components : List Expression} (hcomponents : ∀ component ∈ components,
  component.AbstractFree) {conditions constants : Nat} {expr : Expression}

private theorem sum_booleanSubstitutions {modifications : List Modification}
    (h : booleanSubstitutions expr = .ok modifications) :
    (modifications.map fun m => patchWeight conditions constants m.1).sum =
      if expr.type = .boolean then conditions else 0 := by
  unfold booleanSubstitutions at h
  split at h
  · rename_i hboolean
    obtain ⟨distance, -, h⟩ := bind_eq_ok_iff.mp h
    cases h
    simp [hboolean]
  · rename_i hboolean
    cases h
    simp [hboolean]

theorem sum_map_const {α : Type} (weight : α → Nat) (xs : List α) (h : ∀ x ∈ xs, weight x = 1) :
    (xs.map weight).sum = xs.length := by
  induction xs with
  | nil => rfl
  | cons x xs ih =>
      obtain ⟨hx, hxs⟩ := List.forall_mem_cons.mp h
      rw [List.map_cons, List.sum_cons, hx, ih hxs, List.length_cons, Nat.add_comm]

include hcomponents in
private theorem sum_componentsBy (p : Expression → Bool) (metadata : PatchMetadata) :
    (((components.filter p).map fun c => ((c, metadata) : Modification)).map
      fun m => patchWeight conditions constants m.1).sum = components.countP p := by
  rw [List.map_map, sum_map_const, List.countP_eq_length_filter]
  intro component hmem
  exact patchWeight_abstractFree (hcomponents _ (List.mem_of_mem_filter hmem))

include hcomponents in
private theorem sum_leafSubstitutions :
    ((leafSubstitutions components expr).map fun m => patchWeight conditions constants m.1).sum =
      leafCount constants components expr := by
  have hnull : patchWeight conditions constants nullNode = 1 :=
    patchWeight_abstractFree abstractFree_nullNode
  unfold leafSubstitutions constantSubstitutions accessSubstitutions leafCount isAccess
  split_ifs <;> simp_all [-List.map_map, sum_componentsBy hcomponents]

theorem sum_operatorSubstitutions {first : Expression} (hfree : expr.AbstractFree)
    {modifications : List Modification}
    (h : operatorSubstitutions expr first = .ok modifications) :
    (modifications.map fun m => patchWeight conditions constants m.1).sum =
      mutationCount expr.op first.type := by
  obtain ⟨operators, hoperators, rfl⟩ := operatorSubstitutions_eq_ok h
  rw [List.map_map, sum_map_const, length_mutatedOperators hoperators]
  intro op _
  refine patchWeight_abstractFree ?_
  rw [Expression.abstractFree_iff] at hfree ⊢
  exact hfree

theorem sum_nodeEdits {modifications : List Modification} {others : Nat}
    (hkind : isAbstractNode expr.kind = false) (before after : List Expression)
    (hbefore : ∀ arg ∈ before, arg.AbstractFree) (hafter : ∀ arg ∈ after, arg.AbstractFree)
    (h : (modifications.map fun m => patchWeight conditions constants m.1).sum = others)
    (rebuild : Expression → Expression)
    (hrebuild : ∀ arg, rebuild arg = { expr with args := before ++ arg :: after }) :
    ((modifications.map fun m => ((rebuild m.1, m.2) : Modification)).map
      fun m => patchWeight conditions constants m.1).sum = others := by
  rw [List.map_map, ← h]
  congr 2
  funext m
  simp only [Function.comp_apply, hrebuild]
  exact patchWeight_node hkind before after hbefore hafter

private theorem sum_unsignedCastSubstitutions {left right : Expression} (hfree : expr.AbstractFree)
    (hargs : expr.args = [left, right]) :
    ((unsignedCastSubstitutions expr left right).map
      fun m => patchWeight conditions constants m.1).sum =
      (if left.type = .integer then 1 else 0) + if right.type = .integer then 1 else 0 := by
  obtain ⟨hkind, hfreeArgs⟩ := Expression.abstractFree_iff.mp hfree
  rw [hargs] at hfreeArgs
  have hleft : left.AbstractFree := hfreeArgs left (by simp)
  have hright : right.AbstractFree := hfreeArgs right (by simp)
  have hcastLeft : patchWeight conditions constants
      (substituteLeftArg expr (wrapWithExplicitUnsignedCast left)) = 1 := by
    rw [substituteLeftArg, hargs]
    rw [show [left, right].set 0 (wrapWithExplicitUnsignedCast left) =
      [] ++ wrapWithExplicitUnsignedCast left :: [right] from rfl,
      patchWeight_node hkind [] [right] (by simp) (by simpa using hright)]
    exact patchWeight_abstractFree (abstractFree_wrapWithCast hleft _ _ _)
  have hcastRight : patchWeight conditions constants
      (substituteRightArg expr (wrapWithExplicitUnsignedCast right)) = 1 := by
    rw [substituteRightArg, hargs]
    rw [show [left, right].set 1 (wrapWithExplicitUnsignedCast right) =
      [left] ++ wrapWithExplicitUnsignedCast right :: [] from rfl,
      patchWeight_node hkind [left] [] (by simpa using hleft) (by simp)]
    exact patchWeight_abstractFree (abstractFree_wrapWithCast hright _ _ _)
  unfold unsignedCastSubstitutions
  split_ifs <;> simp [hcastLeft, hcastRight]

private theorem sum_unarySimplifications {arg : Expression} (harg : arg.AbstractFree) :
    ((unarySimplifications expr arg).map fun m => patchWeight conditions constants m.1).sum =
      if isSimplifiable expr then 1 else 0 := by
  unfold unarySimplifications
  split <;> simp [patchWeight_abstractFree harg]

private theorem sum_binarySimplifications {left right : Expression} (hleft : left.AbstractFree)
    (hright : right.AbstractFree) {modifications : List Modification}
    (h : binarySimplifications expr left right = .ok modifications) :
    (modifications.map fun m => patchWeight conditions constants m.1).sum =
      if isSimplifiable expr then 2 else 0 := by
  unfold binarySimplifications at h
  split at h
  · rename_i hsimplifiable
    obtain ⟨rightDepth, -, h⟩ := bind_eq_ok_iff.mp h
    obtain ⟨leftDepth, -, h⟩ := bind_eq_ok_iff.mp h
    cases h
    simp [hsimplifiable, patchWeight_abstractFree hleft, patchWeight_abstractFree hright]
  · rename_i hsimplifiable
    cases h
    simp [hsimplifiable]

include hcomponents in
private theorem sum_baseSubstitutions {modifications : List Modification}
    (hfree : expr.AbstractFree) (h : baseSubstitutions components expr = .ok modifications) :
    (modifications.map fun m => patchWeight conditions constants m.1).sum =
      editCount conditions constants components expr := by
  induction expr generalizing modifications with
  | node kind type op rawType repr args ih =>
      obtain ⟨hkind, hargs⟩ := Expression.abstractFree_iff.mp hfree
      rw [baseSubstitutions] at h
      obtain ⟨booleans, hbooleans, h⟩ := bind_eq_ok_iff.mp h
      have hbooleanSum : (booleans.map fun m => patchWeight conditions constants m.1).sum = _ :=
        sum_booleanSubstitutions hbooleans
      rcases args with _ | ⟨left, _ | ⟨right, _ | ⟨third, others⟩⟩⟩
      · cases h
        rw [List.map_append, List.sum_append, hbooleanSum, sum_leafSubstitutions hcomponents]
        rfl
      · obtain ⟨operators, hoperators, h⟩ := bind_eq_ok_iff.mp h
        obtain ⟨argMods, hargMods, h⟩ := bind_eq_ok_iff.mp h
        cases h
        have hleft : left.AbstractFree := hargs left (by simp)
        have hargSum := sum_nodeEdits hkind [] [] (by simp) (by simp)
          (ih left (by simp) hleft hargMods)
          (substituteArg ⟨kind, type, op, rawType, repr, [left]⟩) (fun _ => rfl)
        simp only [List.map_append, List.sum_append, hbooleanSum, hargSum,
          sum_operatorSubstitutions hfree hoperators, sum_unarySimplifications hleft]
        rw [editCount]
        simp only [Nat.add_assoc]
      · obtain ⟨operators, hoperators, h⟩ := bind_eq_ok_iff.mp h
        obtain ⟨leftMods, hleftMods, h⟩ := bind_eq_ok_iff.mp h
        obtain ⟨rightMods, hrightMods, h⟩ := bind_eq_ok_iff.mp h
        obtain ⟨simplifications, hsimplifications, h⟩ := bind_eq_ok_iff.mp h
        cases h
        have hleft : left.AbstractFree := hargs left (by simp)
        have hright : right.AbstractFree := hargs right (by simp)
        have hleftSum : (leftMods.map fun m => patchWeight conditions constants m.1).sum =
            if op ≠ .ptrAdd ∧ op ≠ .ptrSub then
              editCount conditions constants components left else 0 := by
          split at hleftMods
          · rename_i hop
            rw [if_pos hop, ih left (by simp) hleft hleftMods]
          · rename_i hop
            cases hleftMods
            rw [if_neg hop]
            rfl
        have hleftSum := sum_nodeEdits hkind [] [right] (by simp)
          (by simpa using hright) hleftSum
          (substituteLeftArg ⟨kind, type, op, rawType, repr, [left, right]⟩) (fun _ => rfl)
        have hrightSum := sum_nodeEdits hkind [left] []
          (by simpa using hleft) (by simp) (ih right (by simp) hright hrightMods)
          (substituteRightArg ⟨kind, type, op, rawType, repr, [left, right]⟩) (fun _ => rfl)
        simp only [List.map_append, List.sum_append, hbooleanSum, hleftSum, hrightSum,
          sum_operatorSubstitutions hfree hoperators,
          sum_unsignedCastSubstitutions hfree rfl,
          sum_binarySimplifications hleft hright hsimplifications]
        rw [editCount]
        simp only [Nat.add_assoc]
      · obtain ⟨operators, hoperators, h⟩ := bind_eq_ok_iff.mp h
        cases h
        rw [List.map_append, List.sum_append, hbooleanSum,
          sum_operatorSubstitutions hfree hoperators]
        rfl

end Edits

/-! ## A schema application -/

/-- The number of patches, from the sizes of the application and the largest parameter. -/
def patchCount (paramBound : Nat) (sa : SchemaApplication) : Nat :=
  let constants := paramBound + 1
  let conditions := conditionCount constants sa.components
  match sa.schema with
  | .expression =>
      editCount conditions constants sa.components sa.original +
        if sa.original.type = .boolean then 2 * conditions else 0
  | .ifGuard =>
      (if sa.original.repr = trueNode.repr then 1 else 0) +
        (if sa.original.repr = falseNode.repr then 1 else 0) + conditions
  | .loosening | .tightening => conditions
  | .initialization => 0

private theorem length_basePatches {conditions : List Expression}
    (hconditions : ∀ condition ∈ conditions, Parametric condition) (sa : SchemaApplication)
    (paramBound baseId : Nat) {modifications : List Modification}
    (hmodifications : ∀ m ∈ modifications, Schematic m.1) :
    (basePatches sa conditions paramBound baseId modifications).length =
      (modifications.map fun m =>
        patchWeight (conditions.map (patchWeight 0 (paramBound + 1))).sum (paramBound + 1)
          m.1).sum := by
  induction modifications generalizing baseId with
  | nil => rfl
  | cons m ms ih =>
      obtain ⟨hm, hms⟩ := List.forall_mem_cons.mp hmodifications
      rw [basePatches, List.length_append, List.length_map, ih (baseId + 1) hms,
        length_candidates hconditions paramBound _ hm]
      rfl

private theorem sum_baseModifications {sa : SchemaApplication} (hfree : sa.AbstractFree)
    (paramBound : Nat) {modifications : List Modification}
    (h : baseModifications sa.schema sa.original sa.components = .ok modifications) :
    (modifications.map fun m =>
        patchWeight (conditionCount (paramBound + 1) sa.components) (paramBound + 1) m.1).sum =
      patchCount paramBound sa := by
  obtain ⟨bool2Depth, -, h⟩ := bind_eq_ok_iff.mp h
  have hconnective (op : Operator) (conditions constants : Nat) :
      patchWeight conditions constants (applyBoolOperator op sa.original bool2Node) =
        conditions :=
    @patchWeight_node conditions constants (applyBoolOperator op sa.original bool2Node) bool2Node
      rfl [sa.original] [] (by simpa using hfree.original) (by simp)
  have htrue (conditions constants : Nat) : patchWeight conditions constants trueNode = 1 :=
    patchWeight_abstractFree rfl
  have hfalse (conditions constants : Nat) : patchWeight conditions constants falseNode = 1 :=
    patchWeight_abstractFree rfl
  unfold patchCount
  generalize sa.schema = schema at h ⊢
  cases schema with
  | expression =>
      obtain ⟨substitutions, hsubstitutions, h⟩ := bind_eq_ok_iff.mp h
      have hsum (conditions constants : Nat) :
          (substitutions.map fun m => patchWeight conditions constants m.1).sum = _ :=
        sum_baseSubstitutions hfree.components hfree.original hsubstitutions
      split at h
      · rename_i hboolean
        cases h
        simp [hboolean, hsum, hconnective]
        omega
      · rename_i hboolean
        cases h
        simp [hboolean, hsum]
  | ifGuard =>
      cases h
      dsimp only
      split_ifs <;> simp [htrue, hfalse]
      omega
  | loosening | tightening =>
      cases h
      simp
  | initialization =>
      cases h
      rfl

theorem Appended.patchCount {cfg : Config} {sa : SchemaApplication} (hfree : sa.AbstractFree)
    {patches : List Patch} (h : Appended cfg sa patches) :
    (∀ patch ∈ patches, patch.app = sa) ∧
      patches.length = patchCount (cfg.paramBound sa.context) sa := by
  cases h with
  | mk baseId hconditions hmodifications =>
      refine ⟨fun patch hpatch => (mem_basePatches.mp hpatch).1, ?_⟩
      rw [length_basePatches (conditions_parametric hfree hconditions) sa _ baseId
          (modifications_schematic hfree hmodifications),
        sum_bool2Expressions hfree.components _ hconditions,
        sum_baseModifications hfree _ hmodifications]

end F1X.generator
