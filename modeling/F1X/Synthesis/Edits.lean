import F1X.Synthesis.Modifications
import Mathlib.Tactic.Common

/-!
# The edits of an expression

`Edit` says which single edits an expression has, at any depth, without saying
in which order they are listed; `mem_baseSubstitutions` connects it to the
lists of the code.  Invariants of modified expressions are proved by induction
on `Edit`.
-/

namespace F1X.synthesis

open F1X.Library

def isAccess (expr : Expression) : Prop :=
  expr.kind = .variable ∨ expr.kind = .dereference

instance (expr : Expression) : Decidable (isAccess expr) :=
  inferInstanceAs (Decidable (_ ∨ _))

def withOperator (expr : Expression) (op : Operator) : Expression :=
  { expr with op := op, repr := operatorText op }

/-- The single edits of an expression, by any modification rule, at any depth. -/
inductive Edit (components : List Expression) :
    Expression → Expression → PatchMetadata → Prop
  | condition {expr : Expression} {distance : Nat} (boolean : expr.type = .boolean)
      (hdistance : substitutionDistance expr bool2Node = .ok distance) :
      Edit components expr bool2Node ⟨.substitution, distance⟩
  | generalize {expr component : Expression} (leaf : expr.args = [])
      (constant : expr.kind = .constant) (integer : expr.type = .integer)
      (hmem : component ∈ components) (hinteger : component.type = .integer) :
      Edit components expr component ⟨.generalization, atomicEdit⟩
  | parametrize {expr : Expression} (leaf : expr.args = [])
      (constant : expr.kind = .constant) (integer : expr.type = .integer) :
      Edit components expr parameterNode ⟨.substitution, atomicEdit⟩
  | substitute {expr component : Expression} (leaf : expr.args = [])
      (access : isAccess expr) (integer : expr.type = .integer)
      (hmem : component ∈ components) (hinteger : component.type = .integer) :
      Edit components expr component ⟨.substitution, atomicEdit⟩
  | concretize {expr : Expression} (leaf : expr.args = [])
      (access : isAccess expr) (integer : expr.type = .integer) :
      Edit components expr parameterNode ⟨.concretization, atomicEdit⟩
  | redirect {expr component : Expression} (leaf : expr.args = [])
      (access : isAccess expr) (pointer : expr.type = .pointer)
      (hmem : component ∈ components) (hpointer : component.type = .pointer)
      (hraw : expr.rawType = component.rawType) :
      Edit components expr component ⟨.substitution, atomicEdit⟩
  | nullify {expr : Expression} (leaf : expr.args = [])
      (access : isAccess expr) (pointer : expr.type = .pointer) :
      Edit components expr nullNode ⟨.concretization, atomicEdit⟩
  | mutate {expr first : Expression} {operators : List Operator} {op : Operator}
      (hfirst : expr.args.head? = some first)
      (hoperators : mutatedOperators expr first = .ok operators)
      (hmem : op ∈ operators) :
      Edit components expr (withOperator expr op) ⟨.operator, atomicEdit⟩
  | arg {expr arg modified : Expression} {metadata : PatchMetadata}
      (hargs : expr.args = [arg]) (edit : Edit components arg modified metadata) :
      Edit components expr (substituteArg expr modified) metadata
  | left {expr left right modified : Expression} {metadata : PatchMetadata}
      (hargs : expr.args = [left, right])
      (noPointerArithmetic : expr.op ≠ .ptrAdd ∧ expr.op ≠ .ptrSub)
      (edit : Edit components left modified metadata) :
      Edit components expr (substituteLeftArg expr modified) metadata
  | right {expr left right modified : Expression} {metadata : PatchMetadata}
      (hargs : expr.args = [left, right])
      (edit : Edit components right modified metadata) :
      Edit components expr (substituteRightArg expr modified) metadata
  | castLeft {expr left right : Expression} (hargs : expr.args = [left, right])
      (integer : left.type = .integer) :
      Edit components expr
        (substituteLeftArg expr (wrapWithExplicitUnsignedCast left))
        ⟨.unsignedCast, atomicEdit⟩
  | castRight {expr left right : Expression} (hargs : expr.args = [left, right])
      (integer : right.type = .integer) :
      Edit components expr
        (substituteRightArg expr (wrapWithExplicitUnsignedCast right))
        ⟨.unsignedCast, atomicEdit⟩
  | simplifyArg {expr arg : Expression} (hargs : expr.args = [arg])
      (simplifiable : isSimplifiable expr = true) :
      Edit components expr arg ⟨.simplification, atomicEdit⟩
  | simplifyLeft {expr left right : Expression} {depth : Nat}
      (hargs : expr.args = [left, right]) (simplifiable : isSimplifiable expr = true)
      (hdepth : expressionDepth right = .ok depth) :
      Edit components expr left ⟨.simplification, depth⟩
  | simplifyRight {expr left right : Expression} {depth : Nat}
      (hargs : expr.args = [left, right]) (simplifiable : isSimplifiable expr = true)
      (hdepth : expressionDepth left = .ok depth) :
      Edit components expr right ⟨.simplification, depth⟩

/-! ## The lists of the code -/

theorem mem_booleanSubstitutions {expr : Expression} {modifications : List Modification}
    (h : booleanSubstitutions expr = .ok modifications) (m : Modification) :
    m ∈ modifications ↔ ∃ distance, expr.type = .boolean ∧
      substitutionDistance expr bool2Node = .ok distance ∧
        m = (bool2Node, ⟨.substitution, distance⟩) := by
  unfold booleanSubstitutions at h
  split at h
  · rename_i hboolean
    obtain ⟨distance, hdistance, h⟩ := bind_eq_ok_iff.mp h
    cases h
    simp [hboolean, hdistance]
  · rename_i hboolean
    cases h
    simp [hboolean]

private theorem edit_of_mem_leafSubstitutions {components : List Expression}
    {expr : Expression} (leaf : expr.args = []) {m : Modification}
    (h : m ∈ leafSubstitutions components expr) : Edit components expr m.1 m.2 := by
  unfold leafSubstitutions constantSubstitutions accessSubstitutions at h
  split_ifs at h with hconstant hinteger haccess hinteger hpointer
  · simp only [List.mem_append, List.mem_map, List.mem_filter, List.mem_singleton,
      decide_eq_true_eq] at h
    rcases h with ⟨component, ⟨hmem, htype⟩, rfl⟩ | rfl
    · exact .generalize leaf hconstant hinteger hmem htype
    · exact .parametrize leaf hconstant hinteger
  · simp at h
  · simp only [List.mem_append, List.mem_map, List.mem_filter, List.mem_singleton,
      decide_eq_true_eq] at h
    rcases h with ⟨component, ⟨hmem, htype⟩, rfl⟩ | rfl
    · exact .substitute leaf haccess hinteger hmem htype
    · exact .concretize leaf haccess hinteger
  · simp only [List.mem_append, List.mem_map, List.mem_filter, List.mem_singleton,
      decide_eq_true_eq] at h
    rcases h with ⟨component, ⟨hmem, htype, hraw⟩, rfl⟩ | rfl
    · exact .redirect leaf haccess hpointer hmem htype hraw
    · exact .nullify leaf haccess hpointer
  · simp at h
  · simp at h

theorem leafSubstitutions_constant {components : List Expression} {expr : Expression}
    (constant : expr.kind = .constant) :
    leafSubstitutions components expr = constantSubstitutions components expr :=
  if_pos constant

theorem leafSubstitutions_access {components : List Expression} {expr : Expression}
    (access : isAccess expr) :
    leafSubstitutions components expr = accessSubstitutions components expr := by
  have hconstant : expr.kind ≠ .constant := by
    rcases access with h | h <;> simp [h]
  exact (if_neg hconstant).trans (if_pos access)

theorem mutatedOperators_ne_none {expr first : Expression} {operators : List Operator}
    (h : mutatedOperators expr first = .ok operators) :
    .none ∉ operators ∧ expr.op ≠ .none := by
  unfold mutatedOperators mutatePointerOperator mutateNumericOperator at h
  split at h <;> split at h <;> cases h <;> simp_all

theorem operatorSubstitutions_eq_ok {expr first : Expression}
    {modifications : List Modification}
    (h : operatorSubstitutions expr first = .ok modifications) :
    ∃ operators, mutatedOperators expr first = .ok operators ∧
      modifications =
        operators.map fun op => (withOperator expr op, ⟨.operator, atomicEdit⟩) := by
  obtain ⟨operators, hoperators, h⟩ := bind_eq_ok_iff.mp h
  refine ⟨operators, hoperators, ?_⟩
  rw [mapM_eq_ok_map (g := fun op => (withOperator expr op, ⟨.operator, atomicEdit⟩))]
    at h
  · exact (Except.ok.inj h).symm
  · intro op hmem
    have hop : op ≠ .none := fun heq =>
      (mutatedOperators_ne_none hoperators).1 (heq ▸ hmem)
    simp [operatorToString, hop, withOperator, bind, Except.bind]

theorem mem_operatorSubstitutions {expr first : Expression}
    {modifications : List Modification}
    (h : operatorSubstitutions expr first = .ok modifications) (m : Modification) :
    m ∈ modifications ↔ ∃ operators, ∃ op ∈ operators,
      mutatedOperators expr first = .ok operators ∧
        m = (withOperator expr op, ⟨.operator, atomicEdit⟩) := by
  obtain ⟨operators, hoperators, rfl⟩ := operatorSubstitutions_eq_ok h
  constructor
  · intro hmem
    obtain ⟨op, hop, rfl⟩ := List.mem_map.mp hmem
    exact ⟨operators, op, hop, hoperators, rfl⟩
  · rintro ⟨others, op, hop, hothers, rfl⟩
    rw [hoperators] at hothers
    cases hothers
    exact List.mem_map.mpr ⟨op, hop, rfl⟩

private theorem mem_binarySimplifications {expr left right : Expression}
    {modifications : List Modification}
    (h : binarySimplifications expr left right = .ok modifications)
    (m : Modification) :
    m ∈ modifications ↔ isSimplifiable expr = true ∧ ∃ depth,
      (expressionDepth right = .ok depth ∧ m = (left, ⟨.simplification, depth⟩)) ∨
      (expressionDepth left = .ok depth ∧ m = (right, ⟨.simplification, depth⟩)) := by
  unfold binarySimplifications at h
  split at h
  · rename_i hsimplifiable
    obtain ⟨rightDepth, hright, h⟩ := bind_eq_ok_iff.mp h
    obtain ⟨leftDepth, hleft, h⟩ := bind_eq_ok_iff.mp h
    cases h
    simp [hsimplifiable, hright, hleft, exists_or]
  · rename_i hsimplifiable
    cases h
    simp [hsimplifiable]

def Lists (components : List Expression) (expr : Expression)
    (modifications : List Modification) : Prop :=
  ∀ modified metadata, (modified, metadata) ∈ modifications ↔
    Edit components expr modified metadata

private theorem edit_leaf_iff {components : List Expression} {expr : Expression}
    {conditions : List Modification} (leaf : expr.args = [])
    (hconditions : booleanSubstitutions expr = .ok conditions) :
    Lists components expr (conditions ++ leafSubstitutions components expr) := by
  intro modified metadata
  rw [List.mem_append, mem_booleanSubstitutions hconditions]
  constructor
  · rintro (⟨distance, hboolean, hdistance, heq⟩ | hleaf)
    · cases heq
      exact .condition hboolean hdistance
    · exact edit_of_mem_leafSubstitutions leaf hleaf
  · intro edit
    cases edit with
    | condition boolean hdistance => exact .inl ⟨_, boolean, hdistance, rfl⟩
    | generalize leaf constant integer hmem hinteger =>
        right
        rw [leafSubstitutions_constant constant]
        simp [constantSubstitutions, integer, hmem, hinteger]
    | parametrize leaf constant integer =>
        right
        rw [leafSubstitutions_constant constant]
        simp [constantSubstitutions, integer]
    | substitute leaf access integer hmem hinteger =>
        right
        rw [leafSubstitutions_access access]
        simp [accessSubstitutions, integer, hmem, hinteger]
    | concretize leaf access integer =>
        right
        rw [leafSubstitutions_access access]
        simp [accessSubstitutions, integer]
    | redirect leaf access pointer hmem hpointer hraw =>
        right
        rw [leafSubstitutions_access access]
        simp [accessSubstitutions, pointer, hmem, hpointer, hraw]
    | nullify leaf access pointer =>
        right
        rw [leafSubstitutions_access access]
        simp [accessSubstitutions, pointer]
    | mutate hfirst => simp [leaf] at hfirst
    | arg hargs | left hargs | right hargs | castLeft hargs | castRight hargs
    | simplifyArg hargs | simplifyLeft hargs | simplifyRight hargs =>
        simp [leaf] at hargs

private theorem edit_unary_iff {components : List Expression} {expr arg : Expression}
    {conditions operators argMods : List Modification} (hargs : expr.args = [arg])
    (hconditions : booleanSubstitutions expr = .ok conditions)
    (hoperators : operatorSubstitutions expr arg = .ok operators)
    (harg : Lists components arg argMods) :
    Lists components expr (conditions ++ operators ++
      argMods.map (fun m => (substituteArg expr m.1, m.2)) ++
      unarySimplifications expr arg) := by
  intro modified metadata
  simp only [List.mem_append, mem_booleanSubstitutions hconditions,
    mem_operatorSubstitutions hoperators, List.mem_map, Prod.exists, harg _ _]
  constructor
  · rintro (((⟨distance, hboolean, hdistance, heq⟩ |
        ⟨mutated, mutant, hmem, hmutated, heq⟩) |
        ⟨inner, innerMeta, edit, heq⟩) | hsimplify)
    · cases heq
      exact .condition hboolean hdistance
    · cases heq
      exact .mutate (by rw [hargs]; rfl) hmutated hmem
    · cases heq
      exact .arg hargs edit
    · unfold unarySimplifications at hsimplify
      split at hsimplify
      · rename_i hsimplifiable
        cases List.mem_singleton.mp hsimplify
        exact .simplifyArg hargs hsimplifiable
      · simp at hsimplify
  · intro edit
    cases edit with
    | condition boolean hdistance =>
        exact .inl (.inl (.inl ⟨_, boolean, hdistance, rfl⟩))
    | mutate hfirst hmutated hmem =>
        rw [hargs] at hfirst
        cases hfirst
        exact .inl (.inl (.inr ⟨_, _, hmem, hmutated, rfl⟩))
    | arg hargs' edit =>
        cases hargs.symm.trans hargs'
        exact .inl (.inr ⟨_, _, edit, rfl⟩)
    | simplifyArg hargs' simplifiable =>
        cases hargs.symm.trans hargs'
        exact .inr (by simp [unarySimplifications, simplifiable])
    | generalize leaf | parametrize leaf | substitute leaf | concretize leaf
    | redirect leaf | nullify leaf => cases hargs.symm.trans leaf
    | left hargs' | right hargs' | castLeft hargs' | castRight hargs'
    | simplifyLeft hargs' | simplifyRight hargs' =>
        cases hargs.symm.trans hargs'

private theorem edit_binary_iff {components : List Expression} {expr left right : Expression}
    {conditions operators leftMods rightMods simplifications : List Modification}
    (hargs : expr.args = [left, right])
    (hconditions : booleanSubstitutions expr = .ok conditions)
    (hoperators : operatorSubstitutions expr left = .ok operators)
    (hleft : ∀ modified metadata, (modified, metadata) ∈ leftMods ↔
      (expr.op ≠ .ptrAdd ∧ expr.op ≠ .ptrSub) ∧ Edit components left modified metadata)
    (hright : Lists components right rightMods)
    (hsimplifications : binarySimplifications expr left right = .ok simplifications) :
    Lists components expr (conditions ++ operators ++
      leftMods.map (fun m => (substituteLeftArg expr m.1, m.2)) ++
      rightMods.map (fun m => (substituteRightArg expr m.1, m.2)) ++
      unsignedCastSubstitutions expr left right ++ simplifications) := by
  intro modified metadata
  simp only [List.mem_append, mem_booleanSubstitutions hconditions,
    mem_operatorSubstitutions hoperators, List.mem_map, Prod.exists, hleft,
    hright _ _, mem_binarySimplifications hsimplifications, unsignedCastSubstitutions]
  constructor
  · rintro (((((⟨distance, hboolean, hdistance, heq⟩ |
        ⟨mutated, mutant, hmem, hmutated, heq⟩) |
        ⟨inner, innerMeta, ⟨noPointer, edit⟩, heq⟩) |
        ⟨inner, innerMeta, edit, heq⟩) | hcast | hcast) |
        ⟨hsimplifiable, depth, ⟨hdepth, heq⟩ | ⟨hdepth, heq⟩⟩)
    · cases heq
      exact .condition hboolean hdistance
    · cases heq
      exact .mutate (by rw [hargs]; rfl) hmutated hmem
    · cases heq
      exact .left hargs noPointer edit
    · cases heq
      exact .right hargs edit
    · split at hcast
      · rename_i hinteger
        cases List.mem_singleton.mp hcast
        exact .castLeft hargs hinteger
      · simp at hcast
    · split at hcast
      · rename_i hinteger
        cases List.mem_singleton.mp hcast
        exact .castRight hargs hinteger
      · simp at hcast
    · cases heq
      exact .simplifyLeft hargs hsimplifiable hdepth
    · cases heq
      exact .simplifyRight hargs hsimplifiable hdepth
  · intro edit
    cases edit with
    | condition boolean hdistance =>
        exact .inl (.inl (.inl (.inl (.inl ⟨_, boolean, hdistance, rfl⟩))))
    | mutate hfirst hmutated hmem =>
        rw [hargs] at hfirst
        cases hfirst
        exact .inl (.inl (.inl (.inl (.inr ⟨_, _, hmem, hmutated, rfl⟩))))
    | left hargs' noPointer edit =>
        cases hargs.symm.trans hargs'
        exact .inl (.inl (.inl (.inr ⟨_, _, ⟨noPointer, edit⟩, rfl⟩)))
    | right hargs' edit =>
        cases hargs.symm.trans hargs'
        exact .inl (.inl (.inr ⟨_, _, edit, rfl⟩))
    | castLeft hargs' integer =>
        cases hargs.symm.trans hargs'
        exact .inl (.inr (.inl (by simp [integer])))
    | castRight hargs' integer =>
        cases hargs.symm.trans hargs'
        exact .inl (.inr (.inr (by simp [integer])))
    | simplifyLeft hargs' simplifiable hdepth =>
        cases hargs.symm.trans hargs'
        exact .inr ⟨simplifiable, _, .inl ⟨hdepth, rfl⟩⟩
    | simplifyRight hargs' simplifiable hdepth =>
        cases hargs.symm.trans hargs'
        exact .inr ⟨simplifiable, _, .inr ⟨hdepth, rfl⟩⟩
    | generalize leaf | parametrize leaf | substitute leaf | concretize leaf
    | redirect leaf | nullify leaf => cases hargs.symm.trans leaf
    | arg hargs' | simplifyArg hargs' => cases hargs.symm.trans hargs'

private theorem edit_many_iff {components : List Expression} {expr first second third : Expression}
    {others : List Expression} {conditions operators : List Modification}
    (hargs : expr.args = first :: second :: third :: others)
    (hconditions : booleanSubstitutions expr = .ok conditions)
    (hoperators : operatorSubstitutions expr first = .ok operators) :
    Lists components expr (conditions ++ operators) := by
  intro modified metadata
  rw [List.mem_append, mem_booleanSubstitutions hconditions,
    mem_operatorSubstitutions hoperators]
  constructor
  · rintro (⟨distance, hboolean, hdistance, heq⟩ |
      ⟨mutated, mutant, hmem, hmutated, heq⟩)
    · cases heq
      exact .condition hboolean hdistance
    · cases heq
      exact .mutate (by rw [hargs]; rfl) hmutated hmem
  · intro edit
    cases edit with
    | condition boolean hdistance => exact .inl ⟨_, boolean, hdistance, rfl⟩
    | mutate hfirst hmutated hmem =>
        rw [hargs] at hfirst
        cases hfirst
        exact .inr ⟨_, _, hmem, hmutated, rfl⟩
    | generalize leaf | parametrize leaf | substitute leaf | concretize leaf
    | redirect leaf | nullify leaf => cases hargs.symm.trans leaf
    | arg hargs' | left hargs' | right hargs' | castLeft hargs' | castRight hargs'
    | simplifyArg hargs' | simplifyLeft hargs' | simplifyRight hargs' =>
        cases hargs.symm.trans hargs'

theorem mem_baseSubstitutions {components : List Expression} {expr : Expression}
    {modifications : List Modification}
    (h : baseSubstitutions components expr = .ok modifications) :
    Lists components expr modifications := by
  induction expr generalizing modifications with
  | node kind type op rawType repr args ih =>
      rw [baseSubstitutions] at h
      obtain ⟨conditions, hconditions, h⟩ := bind_eq_ok_iff.mp h
      rcases args with _ | ⟨left, _ | ⟨right, _ | ⟨third, others⟩⟩⟩
      · cases h
        exact edit_leaf_iff rfl hconditions
      · obtain ⟨operators, hoperators, h⟩ := bind_eq_ok_iff.mp h
        obtain ⟨argMods, hargMods, h⟩ := bind_eq_ok_iff.mp h
        cases h
        exact edit_unary_iff rfl hconditions hoperators (ih left (by simp) hargMods)
      · obtain ⟨operators, hoperators, h⟩ := bind_eq_ok_iff.mp h
        obtain ⟨leftMods, hleftMods, h⟩ := bind_eq_ok_iff.mp h
        obtain ⟨rightMods, hrightMods, h⟩ := bind_eq_ok_iff.mp h
        obtain ⟨simplifications, hsimplifications, h⟩ := bind_eq_ok_iff.mp h
        cases h
        refine edit_binary_iff rfl hconditions hoperators ?_
          (ih right (by simp) hrightMods) hsimplifications
        intro modified metadata
        split at hleftMods
        · rename_i noPointer
          rw [ih left (by simp) hleftMods]
          simp [noPointer]
        · rename_i hpointer
          cases hleftMods
          simp [hpointer]
      · obtain ⟨operators, hoperators, h⟩ := bind_eq_ok_iff.mp h
        cases h
        exact edit_many_iff rfl hconditions hoperators

theorem Edit.mem_baseModifications {components : List Expression} {expr modified : Expression}
    {metadata : PatchMetadata} (edit : Edit components expr modified metadata)
    {modifications : List Modification}
    (h : baseModifications .expression expr components = .ok modifications) :
    (modified, metadata) ∈ modifications := by
  obtain ⟨bool2Depth, -, h⟩ := bind_eq_ok_iff.mp h
  obtain ⟨substitutions, hsubstitutions, h⟩ := bind_eq_ok_iff.mp h
  have hmem := (mem_baseSubstitutions hsubstitutions modified metadata).mpr edit
  split at h
  · cases h
    exact List.mem_append_left _ hmem
  · cases h
    exact hmem

theorem baseModifications_forall {P : Expression → Prop}
    {schema : TransformationSchema} {expr : Expression} {components : List Expression}
    {modifications : List Modification}
    (hedit : schema = .expression →
      ∀ modified metadata, Edit components expr modified metadata → P modified)
    (hor : expr.type = .boolean → P (applyBoolOperator .or expr bool2Node))
    (hand : expr.type = .boolean → P (applyBoolOperator .and expr bool2Node))
    (htrue : P trueNode) (hfalse : P falseNode) (hbool2 : P bool2Node)
    (h : baseModifications schema expr components = .ok modifications) :
    ∀ m ∈ modifications, P m.1 := by
  intro m hm
  obtain ⟨bool2Depth, -, h⟩ := bind_eq_ok_iff.mp h
  cases schema with
  | expression =>
      obtain ⟨substitutions, hsubstitutions, h⟩ := bind_eq_ok_iff.mp h
      have hmem : m ∈ substitutions → P m.1 := fun hm =>
        hedit rfl m.1 m.2 ((mem_baseSubstitutions hsubstitutions m.1 m.2).mp hm)
      split at h
      · rename_i hboolean
        cases h
        simp only [List.mem_append, List.mem_cons, List.not_mem_nil, or_false] at hm
        rcases hm with hm | rfl | rfl
        exacts [hmem hm, hor hboolean, hand hboolean]
      · cases h
        exact hmem hm
  | ifGuard =>
      cases h
      simp only [List.mem_append, List.mem_singleton] at hm
      rcases hm with (hm | hm) | rfl
      · split at hm
        · cases List.mem_singleton.mp hm
          exact hfalse
        · simp at hm
      · split at hm
        · cases List.mem_singleton.mp hm
          exact htrue
        · simp at hm
      · exact hbool2
  | loosening | tightening =>
      cases h
      cases List.mem_singleton.mp hm
      exact hbool2
  | initialization =>
      cases h
      simp at hm

end F1X.synthesis
