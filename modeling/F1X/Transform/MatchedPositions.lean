import F1X.Transform.SearchSpaceMatchers

/-!
# The positions of the matches

What the handlers replace at once must not overlap.  A bound node sits directly
below an anchor, apart from parentheses and casts, and no anchor is part of a
repairable expression.
-/

namespace F1X

open Library

namespace SearchSpaceMatchers

open LabelledTree

/-! ## Where a match comes from -/

/-- Not part of any repairable expression. -/
def IsAnchor (stmt : ClangStmt) : Prop :=
  stmt.label.isExpr = true → isBaseRepairable (ignoringParenImpCasts stmt) = false

/-- A bound node is what is left of a child of an anchor. -/
structure Match (root : ClangStmt) where
  front : Position
  anchor : ClangStmt
  index : Nat
  child : ClangStmt
  anchor_at : root.subtree front = some anchor
  child_at : anchor.children[index]? = some child
  isAnchor : IsAnchor anchor
  isBase : isBaseRepairable (ignoringParenImpCasts child) = true

namespace Match

variable {root : ClangStmt}

def position (m : Match root) : Position := m.front ++ m.index :: innerPosition m.child

theorem child_subtree (m : Match root) :
    root.subtree (m.front ++ [m.index]) = some m.child :=
  subtree_append_eq_some.mpr
    ⟨m.anchor, m.anchor_at, subtree_cons_eq_some.mpr ⟨m.child, m.child_at, rfl⟩⟩

theorem position_eq (m : Match root) :
    m.position = m.front ++ [m.index] ++ innerPosition m.child := by
  rw [position, List.append_assoc, List.singleton_append]

theorem subtree_position (m : Match root) :
    root.subtree m.position = some (ignoringParenImpCasts m.child) := by
  rw [position_eq, subtree_append, child_subtree]
  exact subtree_innerPosition m.child

theorem not_isPrefix_anchor (htree : ShapedTree root) (m : Match root) {position : Position}
    {anchor : ClangStmt} (hat : root.subtree position = some anchor) (hanchor : IsAnchor anchor) :
    ¬ m.position <+: position := by
  intro h
  obtain ⟨back, -, hback⟩ := subtree_of_isPrefix h m.subtree_position hat
  have hshaped := htree.below m.subtree_position
  have hinner := ignoringParenImpCasts_idempotent m.child
  have hexpr := (repairable_below hshaped m.isBase hinner hback).1
  have hbase := base_below hshaped m.isBase hinner hback
  rw [hanchor hexpr] at hbase
  cases hbase

/-- Between the anchor of a match and the match there are only parentheses and casts. -/
theorem eq_position {position : Position} {found : ClangStmt} (m : Match root)
    (hfront : m.front <+: position) (hne : position ≠ m.front) (h : position <+: m.position)
    (hfound : root.subtree position = some found)
    (hinner : ignoringParenImpCasts found = found) : position = m.position := by
  obtain ⟨back, rfl⟩ := hfront
  cases back with
  | nil => exact absurd (List.append_nil m.front) hne
  | cons index back =>
      rw [Match.position, List.prefix_append_right_inj, List.cons_prefix_cons] at h
      obtain ⟨rfl, hback⟩ := h
      rw [List.append_cons, subtree_append, m.child_subtree] at hfound
      rw [Match.position, eq_innerPosition hback hfound hinner]

theorem eq_of_isPrefix (htree : ShapedTree root) (upper lower : Match root)
    (h : upper.position <+: lower.position) : upper.position = lower.position := by
  have hnot := not_isPrefix_anchor htree upper lower.anchor_at lower.isAnchor
  have hfront : lower.front <+: upper.position :=
    (List.prefix_or_prefix_of_prefix h (List.prefix_append _ _)).resolve_left hnot
  refine eq_position lower hfront (fun heq => hnot ?_) h upper.subtree_position
    (ignoringParenImpCasts_idempotent upper.child)
  rw [heq]

end Match

/-- What makes a match: a statement around the anchor, or an assignment as the anchor. -/
inductive Match.Origin {root : ClangStmt} (m : Match root) : Prop
  | statement {front back : Position} {owner cond : ClangStmt} {index : Nat}
      (owner_at : root.subtree front = some owner) (hstmt : owner.label.isExpr = false)
      (cond_at : owner.children[index]? = some cond) (hcond : cond.label.isExpr = true)
      (cond_inner : isTopLevelStatement (some (partNode owner.label index)) = false)
      (position_eq : m.position = front ++ index :: back)
  | assignment (hexpr : m.anchor.label.isExpr = true)
      (hmatches : matchesExpressionSchema m.anchor = true)

/-! ## The matches of the expression schema -/

theorem isAnchor_of_side {anchor side : ClangStmt} (htree : ShapedTree anchor)
    (hinner : ignoringParenImpCasts anchor = anchor) (hside : side ∈ anchor.children)
    (hnon : isNonBaseRepairable (ignoringParenImpCasts side) = true) : IsAnchor anchor := by
  intro _
  rw [hinner]
  by_contra hbase
  rw [Bool.not_eq_false] at hbase
  obtain ⟨index, hindex⟩ := List.getElem?_of_mem hside
  have hbelow := base_below htree hbase hinner
    (subtree_cons_eq_some.mpr ⟨side, hindex, subtree_nil side⟩)
  rw [isNonBaseRepairable_iff.mp hnon] at hbelow
  cases hbelow

theorem mem_bindChild {index : Nat} {child : ClangStmt} {position : Position}
    (h : position ∈ bindChild index child) : position = index :: innerPosition child := by
  unfold bindChild at h
  split at h
  · exact List.mem_singleton.mp h
  · cases h

def Match.lift {root found : ClangStmt} {front : Position}
    (hfound : root.subtree front = some found) (m : Match found) : Match root where
  front := front ++ m.front
  anchor := m.anchor
  index := m.index
  child := m.child
  anchor_at := subtree_append_eq_some.mpr ⟨found, hfound, m.anchor_at⟩
  child_at := m.child_at
  isAnchor := m.isAnchor
  isBase := m.isBase

theorem Match.lift_position {root found : ClangStmt} {front : Position}
    (hfound : root.subtree front = some found) (m : Match found) :
    (m.lift hfound).position = front ++ m.position :=
  List.append_assoc _ _ _

theorem Match.Origin.lift {root found : ClangStmt} {front : Position}
    (hfound : root.subtree front = some found) {m : Match found} (h : m.Origin) :
    (m.lift hfound).Origin := by
  cases h with
  | @statement upper back owner cond index owner_at hstmt cond_at hcond cond_inner position_eq =>
      have hposition : (m.lift hfound).position = (front ++ upper) ++ index :: back := by
        rw [lift_position, position_eq, List.append_assoc]
      exact .statement (subtree_append_eq_some.mpr ⟨found, hfound, owner_at⟩) hstmt cond_at
        hcond cond_inner hposition
  | assignment hexpr hmatches => exact .assignment hexpr hmatches

def Matched (root : ClangStmt) (position : Position) : Prop :=
  ∃ m : Match root, m.position = position ∧ m.Origin

theorem Matched.lift {root found : ClangStmt} {front position : Position}
    (hfound : root.subtree front = some found) (h : Matched found position) :
    Matched root (front ++ position) := by
  obtain ⟨m, rfl, horigin⟩ := h
  exact ⟨m.lift hfound, m.lift_position hfound, horigin.lift hfound⟩

def childMatch {anchor child : ClangStmt} {index : Nat} (hanchor : IsAnchor anchor)
    (hchild : anchor.children[index]? = some child) (hbase : matchesChild child = true) :
    Match anchor :=
  ⟨[], anchor, index, child, subtree_nil _, hchild, hanchor, hbase⟩

theorem matched_of_statement {stmt child : ClangStmt} {index : Nat} {position : Position}
    (hstmt : stmt.label.isExpr = false) (hchild : stmt.children[index]? = some child)
    (hexpr : child.label.isExpr = true)
    (hinner : isTopLevelStatement (some (partNode stmt.label index)) = false)
    (hbase : matchesChild child = true) (h : position ∈ bindChild index child) :
    Matched stmt position := by
  have hanchor : IsAnchor stmt := fun h => by simp [hstmt] at h
  obtain rfl := mem_bindChild h
  exact ⟨childMatch hanchor hchild hbase, rfl,
    .statement (subtree_nil stmt) hstmt hchild hexpr hinner rfl⟩

private theorem exists_match_splittable {stmt : ClangStmt} {position : Position}
    (htree : ShapedTree stmt) (h : position ∈ splittable stmt) :
    ∃ m : Match stmt, m.position = position := by
  revert h
  fun_cases splittable stmt with
  | case1 type opcode lhs rhs hlogical hsides =>
      intro h
      obtain ⟨hlhs, hrhs⟩ := Bool.and_eq_true_iff.mp hsides
      have hanchor := isAnchor_of_side htree rfl
        (List.mem_cons_of_mem lhs (List.mem_singleton_self rhs)) hrhs
      exact ⟨childMatch hanchor rfl hlhs, (mem_bindChild h).symm⟩
  | case2 type opcode lhs rhs hlogical hnot hsides =>
      intro h
      obtain ⟨hlhs, hrhs⟩ := Bool.and_eq_true_iff.mp hsides
      have hanchor := isAnchor_of_side htree rfl List.mem_cons_self hlhs
      exact ⟨childMatch hanchor rfl hrhs, (mem_bindChild h).symm⟩
  | case3 => exact nofun
  | case4 => exact nofun
  | case5 => exact nofun

private theorem not_mem_absent {cond : ClangStmt} {index : Nat} {position : Position}
    (htree : ShapedTree cond) (habsent : cond.label = .absent) :
    position ∉ splittableCondition index cond := by
  have hshaped := htree [] cond rfl
  obtain ⟨label, children⟩ := cond
  cases habsent
  obtain rfl : children = [] := List.isEmpty_iff.mp hshaped
  exact nofun

theorem matched_condition {stmt cond : ClangStmt} {index : Nat} {position : Position}
    (htree : ShapedTree stmt) (hstmt : stmt.label.isExpr = false)
    (hcond : stmt.children[index]? = some cond)
    (hexpr : cond.label.isExpr = true ∨ cond.label = .absent)
    (hinner : isTopLevelStatement (some (partNode stmt.label index)) = false)
    (h : position ∈ splittableCondition index cond) : Matched stmt position := by
  have hexpr : cond.label.isExpr = true := by
    refine hexpr.resolve_right fun habsent => ?_
    exact not_mem_absent (htree.below (subtree_cons_eq_some.mpr ⟨cond, hcond, subtree_nil cond⟩))
      habsent h
  unfold splittableCondition at h
  split at h
  · rename_i hbase
    exact matched_of_statement hstmt hcond hexpr hinner hbase h
  · obtain ⟨rest, hrest, rfl⟩ := List.mem_map.mp h
    obtain ⟨front, found, back, hfound, rfl, hback⟩ := mem_everywhere.mp hrest
    have hbelow : stmt.subtree (index :: front) = some found :=
      subtree_cons_eq_some.mpr ⟨cond, hcond, hfound⟩
    obtain ⟨m, rfl⟩ := exists_match_splittable (htree.below hbelow) hback
    refine ⟨m.lift hbelow, m.lift_position hbelow, ?_⟩
    exact .statement (subtree_nil stmt) hstmt hcond hexpr hinner (m.lift_position hbelow)

private theorem matched_schema {stmt : ClangStmt} {position : Position} (htree : ShapedTree stmt)
    (h : position ∈ expressionSchema stmt) : Matched stmt position := by
  have hshaped := htree [] stmt rfl
  revert h
  fun_cases expressionSchema stmt with
  | case1 cond parts | case2 cond parts =>
      exact matched_condition htree rfl rfl (.inl hshaped) rfl
  | case3 init cond parts =>
      exact matched_condition htree rfl rfl (by simpa [isShaped] using hshaped) rfl
  | case4 type opcode lhs rhs hmatches =>
      intro h
      obtain ⟨-, hrhs⟩ := Bool.and_eq_true_iff.mp hmatches
      obtain rfl := mem_bindChild h
      exact ⟨childMatch (fun _ => rfl) rfl hrhs, rfl, .assignment rfl hmatches⟩
  | case5 => exact fun h => absurd h List.not_mem_nil
  | case6 value hvalue =>
      exact matched_of_statement rfl rfl (by simpa [isShaped] using hshaped) rfl hvalue
  | case7 => exact fun h => absurd h List.not_mem_nil
  | case8 => exact fun h => absurd h List.not_mem_nil

theorem matched_of_mem {root : ClangStmt} {position : Position} (htree : ShapedTree root)
    (h : position ∈ expressionMatches root) : Matched root position := by
  obtain ⟨front, found, back, hfound, rfl, hback⟩ := mem_everywhere.mp h
  exact (matched_schema (htree.below hfound) hback).lift hfound

/-- The bound expressions are pairwise disjoint. -/
theorem expressionMatches_disjoint (unit : TranslationUnit) {upper lower : Position}
    (hupper : upper ∈ expressionMatches unit.root) (hlower : lower ∈ expressionMatches unit.root)
    (h : upper <+: lower) : upper = lower := by
  obtain ⟨u, rfl, -⟩ := matched_of_mem unit.shapedTree hupper
  obtain ⟨l, rfl, -⟩ := matched_of_mem unit.shapedTree hlower
  exact Match.eq_of_isPrefix unit.shapedTree u l h

theorem expressionMatches_disjoint_guardedCall :
    ([0, 0, 0, 0] : Position) ∈ expressionMatches guardedCall.root ∧
      ([0, 0, 0, 0] : Position) = [0, 0, 0, 0] :=
  ⟨by decide, expressionMatches_disjoint guardedCall (by decide) (by decide) List.prefix_rfl⟩

/-! ## The guarded statements -/

def ExpressionTree (stmt : ClangStmt) : Prop :=
  ∀ position found, stmt.subtree position = some found → found.label.isExpr = true

theorem TranslationUnit.expressionTree (unit : TranslationUnit) (hstandard : unit.isStandard = true)
    {position : Position} {stmt : ClangStmt} (hat : unit.root.subtree position = some stmt)
    (hexpr : stmt.label.isExpr = true) : ExpressionTree stmt := by
  have hchildren : ∀ position found, unit.root.subtree position = some found →
      found.label.isExpr = true → ∀ child ∈ found.children, child.label.isExpr = true := by
    intro position found hfound hexpr child hchild
    obtain ⟨hroot, hbelow⟩ := Bool.and_eq_true_iff.mp hstandard
    cases position with
    | nil =>
        cases hfound
        simp only [hexpr, Bool.not_true, Bool.false_or, List.all_eq_true] at hroot
        exact hroot child hchild
    | cons index position =>
        by_contra hnot
        rw [Bool.not_eq_true', ← Bool.not_eq_true, anyBelow_eq_true] at hbelow
        refine hbelow ⟨index, position, found, hfound, ?_⟩
        simp only [hexpr, Bool.not_true, Bool.false_or, Bool.not_eq_true', List.all_eq_false]
        exact ⟨child, hchild, hnot⟩
  intro back found hback
  induction back using List.reverseRecOn generalizing found with
  | nil =>
      cases hback
      exact hexpr
  | append_singleton front index ih =>
      obtain ⟨parent, hparent, hindex⟩ := subtree_append_eq_some.mp hback
      obtain ⟨child, hchild, hnil⟩ := subtree_cons_eq_some.mp hindex
      cases hnil
      exact hchildren (position ++ front) parent
        (subtree_append_eq_some.mpr ⟨stmt, hat, hparent⟩) (ih parent hparent) found
        (List.mem_of_getElem? hchild)

theorem guarded_of_mem {root : ClangStmt} {position : Position}
    (h : position ∈ ifGuardMatches root) :
    ∃ stmt, root.subtree position = some stmt ∧ [] ∈ ifGuardSchema stmt := by
  obtain ⟨front, found, back, hfound, rfl, hback⟩ := mem_everywhere.mp h
  have hnil : back = [] := by
    unfold ifGuardSchema at hback
    split at hback <;> grind
  subst hnil
  exact ⟨found, by rwa [List.append_nil], hback⟩

theorem isAnchor_of_guard {stmt : ClangStmt} (h : [] ∈ ifGuardSchema stmt) : IsAnchor stmt := by
  cases stmt with
  | node label children =>
      cases label <;> first | (intro _; rfl) | simp [ifGuardSchema] at h

private theorem ignoringParenImpCasts_of_guard {stmt : ClangStmt} (h : [] ∈ ifGuardSchema stmt) :
    ignoringParenImpCasts stmt = stmt := by
  cases stmt with
  | node label children =>
      cases label <;> first | rfl | simp [ifGuardSchema] at h

/-- A guarded statement is a jump or a call without assignments that are repairable. -/
theorem guard_cases {stmt : ClangStmt} (hshaped : isShaped stmt = true)
    (h : [] ∈ ifGuardSchema stmt) :
    stmt.children = [] ∨ stmt.label.isExpr = true ∧ matchesExpressionSchema stmt = false ∧
      ∀ index position found, stmt.subtree (index :: position) = some found →
        found.label.isExpr = true →
        matchesExpressionSchema (ignoringParenImpCasts found) = false := by
  cases stmt with
  | node label children =>
      cases label with
      | callExpr type =>
          refine .inr ⟨rfl, rfl, fun index position found hfound hexpr => ?_⟩
          by_contra hmatches
          rw [Bool.not_eq_false] at hmatches
          have hbelow : anyBelow (fun found => found.label.isExpr &&
              matchesExpressionSchema (ignoringParenImpCasts found))
              (.node (.callExpr type) children) = true :=
            anyBelow_eq_true.mpr ⟨index, position, found, hfound, by rw [hexpr, hmatches]; rfl⟩
          simp only [ifGuardSchema, label_node, hbelow, Bool.true_or, if_true,
            List.not_mem_nil] at h
      | breakStmt | continueStmt => exact .inl (List.isEmpty_iff.mp hshaped)
      | _ => simp [ifGuardSchema] at h

theorem parentNode_concat {root parent : ClangStmt} {front : Position} (index : Nat)
    (h : root.subtree front = some parent) :
    parentNode root (front ++ [index]) = some (partNode parent.label index) := by
  simp [parentNode, h]

private theorem partNode_of_isExpr {label : StmtKind} (index : Nat) (h : label.isExpr = true) :
    isTopLevelStatement (some (partNode label index)) = false := by
  cases label <;> first | rfl | cases h

theorem not_topLevel_below {root stmt : ClangStmt} {position back : Position} {index : Nat}
    (hat : root.subtree position = some stmt) (htree : ExpressionTree stmt)
    {found : ClangStmt} (hfound : stmt.subtree (index :: back) = some found) :
    isTopLevelStatement (parentNode root (position ++ index :: back)) = false := by
  obtain ⟨front, last, heq⟩ : ∃ front last, index :: back = front ++ [last] :=
    ⟨_, _, (List.dropLast_append_getLast (List.cons_ne_nil index back)).symm⟩
  rw [heq] at hfound ⊢
  obtain ⟨parent, hparent, -⟩ := subtree_append_eq_some.mp hfound
  have hroot : root.subtree (position ++ front) = some parent :=
    subtree_append_eq_some.mpr ⟨stmt, hat, hparent⟩
  rw [← List.append_assoc, parentNode_concat last hroot]
  exact partNode_of_isExpr last (htree front parent hparent)

private theorem ignoringParenImpCasts_of_matches {stmt : ClangStmt}
    (h : matchesExpressionSchema stmt = true) : ignoringParenImpCasts stmt = stmt := by
  cases stmt with
  | node label children =>
      cases label <;> first | rfl | simp [matchesExpressionSchema] at h

private theorem not_isPrefix_owner (unit : TranslationUnit) (hstandard : unit.isStandard = true)
    {position upper rest : Position} {stmt owner cond : ClangStmt} {index : Nat}
    (hat : unit.root.subtree position = some stmt) (hexpr : stmt.label.isExpr = true)
    (htop : isTopLevelStatement (parentNode unit.root position) = true)
    (howner : unit.root.subtree upper = some owner) (hstmt : owner.label.isExpr = false)
    (hcond_at : owner.children[index]? = some cond) (hcond : cond.label.isExpr = true)
    (hinner : isTopLevelStatement (some (partNode owner.label index)) = false) :
    ¬ position <+: upper ++ index :: rest := by
  intro h
  have hnot : ¬ position <+: upper := by
    intro habove
    obtain ⟨back, -, hback⟩ := subtree_of_isPrefix habove hat howner
    have hbelow := unit.expressionTree hstandard hat hexpr back owner hback
    rw [hstmt] at hbelow
    cases hbelow
  obtain ⟨back, rfl⟩ := (List.prefix_or_prefix_of_prefix h
    (List.prefix_append upper (index :: rest))).resolve_left hnot
  have hcond_at : unit.root.subtree (upper ++ [index]) = some cond :=
    subtree_append_eq_some.mpr ⟨owner, howner, subtree_cons_eq_some.mpr ⟨cond, hcond_at, rfl⟩⟩
  cases back with
  | nil => exact hnot (by rw [List.append_nil])
  | cons first back =>
      rw [List.prefix_append_right_inj, List.cons_prefix_cons] at h
      obtain ⟨rfl, -⟩ := h
      cases back with
      | nil =>
          rw [parentNode_concat first howner, hinner] at htop
          cases htop
      | cons second back =>
          rw [List.append_cons] at hat htop
          obtain ⟨between, hbetween, hback⟩ := subtree_append_eq_some.mp hat
          cases hcond_at.symm.trans hbetween
          rw [not_topLevel_below hcond_at
            (unit.expressionTree hstandard hcond_at hcond) hback] at htop
          cases htop

private theorem not_isPrefix_match (unit : TranslationUnit) (hstandard : unit.isStandard = true)
    {position : Position} {stmt : ClangStmt} (hat : unit.root.subtree position = some stmt)
    (hguard : [] ∈ ifGuardSchema stmt)
    (htop : isTopLevelStatement (parentNode unit.root position) = true)
    {m : Match unit.root} (horigin : m.Origin) : ¬ position <+: m.position := by
  intro h
  have hnot := m.not_isPrefix_anchor unit.shapedTree hat (isAnchor_of_guard hguard)
  have hinner := ignoringParenImpCasts_of_guard hguard
  have hanchor : position <+: m.front := by
    rcases List.prefix_or_prefix_of_prefix h (List.prefix_append _ _ : m.front <+: m.position)
      with habove | hbelow
    · exact habove
    · by_cases heq : position = m.front
      · rw [heq]
      · exact absurd (m.eq_position hbelow heq h hat hinner ▸ List.prefix_rfl) hnot
  obtain ⟨back, hback, hfound⟩ := subtree_of_isPrefix hanchor hat m.anchor_at
  rcases guard_cases (unit.shapedTree _ _ hat) hguard with hleaf | ⟨hexpr, hself, hbelow⟩
  · obtain rfl := subtree_of_leaf hleaf hfound
    have hchild := m.child_at
    simp [hleaf] at hchild
  · have htree := unit.expressionTree hstandard hat hexpr
    cases horigin with
    | assignment hassign hmatches =>
        cases back with
        | nil =>
            cases hfound
            rw [hself] at hmatches
            cases hmatches
        | cons index back =>
            have hnone := hbelow index back m.anchor hfound hassign
            rw [ignoringParenImpCasts_of_matches hmatches, hmatches] at hnone
            cases hnone
    | statement owner_at hstmt cond_at hcond cond_inner position_eq =>
        exact not_isPrefix_owner unit hstandard hat hexpr htop owner_at hstmt cond_at hcond
          cond_inner (position_eq ▸ h)

theorem selected_cases {root : ClangStmt} {position : Position} (h : position ∈ selected root) :
    position ∈ expressionMatches root ∨ ∃ stmt, root.subtree position = some stmt ∧
      [] ∈ ifGuardSchema stmt ∧ isTopLevelStatement (parentNode root position) = true := by
  rcases List.mem_append.mp h with hexpression | hguard
  · exact .inl hexpression
  · obtain ⟨hguard, htop⟩ := List.mem_filter.mp hguard
    obtain ⟨stmt, hat, hschema⟩ := guarded_of_mem hguard
    exact .inr ⟨stmt, hat, hschema, htop⟩

theorem not_isPrefix_selected (unit : TranslationUnit) (hstandard : unit.isStandard = true)
    {upper lower : Position} (hupper : upper ∈ selected unit.root)
    (hlower : lower ∈ selected unit.root) (hne : upper ≠ lower) : ¬ upper <+: lower := by
  intro h
  have htree := unit.shapedTree
  rcases selected_cases hupper with hu | ⟨stmt, hat, hguard, htop⟩
  · obtain ⟨u, rfl, -⟩ := matched_of_mem htree hu
    rcases selected_cases hlower with hl | ⟨stmt, hat, hguard, -⟩
    · obtain ⟨l, rfl, -⟩ := matched_of_mem htree hl
      exact hne (Match.eq_of_isPrefix htree u l h)
    · exact absurd h (u.not_isPrefix_anchor htree hat (isAnchor_of_guard hguard))
  · rcases selected_cases hlower with hl | ⟨other, hother, -, hothertop⟩
    · obtain ⟨l, rfl, horigin⟩ := matched_of_mem htree hl
      exact absurd h (not_isPrefix_match unit hstandard hat hguard htop horigin)
    · obtain ⟨back, rfl, hback⟩ := subtree_of_isPrefix h hat hother
      cases back with
      | nil => exact hne (List.append_nil upper).symm
      | cons index back =>
          rcases guard_cases (htree _ _ hat) hguard with hleaf | ⟨hexpr, -⟩
          · obtain ⟨child, hchild, -⟩ := subtree_cons_eq_some.mp hback
            simp [hleaf] at hchild
          · have hnot := not_topLevel_below hat (unit.expressionTree hstandard hat hexpr) hback
            rw [hothertop] at hnot
            cases hnot

/-- What the handlers replace is pairwise disjoint. -/
theorem selected_disjoint (unit : TranslationUnit) (hstandard : unit.isStandard = true)
    {upper lower : Position} (hupper : upper ∈ selected unit.root)
    (hlower : lower ∈ selected unit.root) (h : upper <+: lower) : upper = lower := by
  by_contra hne
  exact not_isPrefix_selected unit hstandard hupper hlower hne h

theorem selected_disjoint_guardedCall :
    selected guardedCall.root = [[0, 0, 0, 0], [0, 1]] ∧
      ([0, 1] : Position) = [0, 1] :=
  ⟨by decide, selected_disjoint guardedCall (by decide) (by decide) (by decide)
    List.prefix_rfl⟩

end SearchSpaceMatchers

end F1X
