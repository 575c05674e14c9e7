import F1X.Transform.SearchSpaceMatchers

/-!
# The parts of conditions

Which parts of a condition are bound when it is not repairable as a whole.
-/

namespace F1X

open Library

namespace SearchSpaceMatchers

open LabelledTree

/-! ## Trees without selections -/

/-- There is no `_Generic` and no `__builtin_choose_expr`. -/
def isSelectionFree (stmt : ClangStmt) : Bool :=
  !isSelection stmt.label && !anyBelow (fun found => isSelection found.label) stmt

theorem isSelectionFree_iff {stmt : ClangStmt} :
    isSelectionFree stmt = true ↔
      ∀ position found, stmt.subtree position = some found → isSelection found.label = false := by
  rw [isSelectionFree, Bool.and_eq_true_iff, Bool.not_eq_true', Bool.not_eq_true',
    ← Bool.not_eq_true (anyBelow _ _), anyBelow_eq_true]
  constructor
  · rintro ⟨hroot, hbelow⟩ position found hfound
    cases position with
    | nil =>
        cases hfound
        exact hroot
    | cons index position =>
        by_contra hselection
        exact hbelow ⟨index, position, found, hfound, by simpa using hselection⟩
  · refine fun h => ⟨h [] stmt rfl, fun ⟨index, position, found, hfound, hselection⟩ => ?_⟩
    rw [h (index :: position) found hfound] at hselection
    cases hselection

theorem isSelectionFree_below {stmt found : ClangStmt} {position : Position}
    (h : isSelectionFree stmt = true) (hfound : stmt.subtree position = some found) :
    isSelectionFree found = true :=
  isSelectionFree_iff.mpr fun back below hbelow =>
    isSelectionFree_iff.mp h (position ++ back) below
      (subtree_append_eq_some.mpr ⟨found, hfound, hbelow⟩)

private theorem children_of_nextChild {stmt sub : ClangStmt} {index : Nat}
    (hshaped : isShaped stmt = true) (hselection : isSelection stmt.label = false)
    (h : nextChild innerChild stmt = some (index, sub)) : index = 0 ∧ stmt.children = [sub] := by
  obtain ⟨label, children⟩ := stmt
  obtain ⟨hlabel, hchild⟩ := nextChild_eq_some.mp h
  cases label with
  | parenExpr | extensionExpr _ | implicitCastExpr _ =>
      obtain rfl := Option.some.inj hlabel
      obtain ⟨only, rfl⟩ := List.length_eq_one_iff.mp
        (of_decide_eq_true (Bool.and_eq_true_iff.mp hshaped).1)
      exact ⟨rfl, congrArg (fun child => [child]) (Option.some.inj hchild)⟩
  | genericSelectionExpr _ | chooseExpr _ => cases hselection
  | _ => cases hlabel

theorem subtree_cases {stmt found : ClangStmt} {position : Position} (htree : ShapedTree stmt)
    (hfree : isSelectionFree stmt = true) (h : stmt.subtree position = some found) :
    ignoringParenImpCasts found = ignoringParenImpCasts stmt ∨
      ∃ back, (ignoringParenImpCasts stmt).subtree back = some found := by
  induction stmt using through_induct innerChild generalizing position with
  | stop stmt hstop =>
      refine .inr ⟨position, ?_⟩
      rwa [ignoringParenImpCasts, through_of_none hstop]
  | child stmt index sub hnext ih =>
      have hinner : ignoringParenImpCasts stmt = ignoringParenImpCasts sub :=
        through_of_some hnext
      obtain ⟨rfl, hchildren⟩ := children_of_nextChild (htree [] stmt rfl)
        (isSelectionFree_iff.mp hfree [] stmt rfl) hnext
      have hsub : stmt.subtree [0] = some sub :=
        subtree_cons_eq_some.mpr ⟨sub, by rw [hchildren]; rfl, subtree_nil sub⟩
      rw [hinner]
      cases position with
      | nil =>
          cases h
          exact .inl hinner
      | cons first position =>
          obtain ⟨child, hchild, hfound⟩ := subtree_cons_eq_some.mp h
          rw [hchildren] at hchild
          obtain rfl := List.mem_singleton.mp (List.mem_of_getElem? hchild)
          exact ih (htree.below hsub) (isSelectionFree_below hfree hsub) hfound

/-- The largest parts of a condition that are repairable. -/
structure MaximalPart (cond : ClangStmt) (front : Position) (part : ClangStmt) : Prop where
  part_at : cond.subtree front = some part
  isBase : isBaseRepairable (ignoringParenImpCasts part) = true
  maximal : front = [] ∨ ∃ upper index type opcode lhs rhs, front = upper ++ [index] ∧
    cond.subtree upper = some (.node (.binaryOperator type opcode) [lhs, rhs]) ∧
    isLogical opcode = true ∧
    isBaseRepairable (.node (.binaryOperator type opcode) [lhs, rhs]) = false

private theorem repairable_in_side {side found : ClangStmt} {position : Position}
    (htree : ShapedTree side) (hfree : isSelectionFree side = true)
    (hbase : isBaseRepairable (ignoringParenImpCasts side) = true)
    (hfound : side.subtree position = some found) (hexpr : found.label.isExpr = true) :
    isRepairableNode (ignoringParenImpCasts found) = true := by
  obtain ⟨hroot, hbelow⟩ := isBaseRepairable_iff.mp hbase
  rcases subtree_cases htree hfree hfound with hsame | ⟨back, hback⟩
  · rw [hsame]
    exact hroot
  · cases back with
    | nil =>
        cases hback
        rw [ignoringParenImpCasts_idempotent]
        exact hroot
    | cons index back => exact hbelow index back found hback hexpr

private theorem isBaseRepairable_sides {type : MatchedType} {opcode : BinaryOpcode}
    {lhs rhs : ClangStmt} (htree : ShapedTree (.node (.binaryOperator type opcode) [lhs, rhs]))
    (hfree : isSelectionFree (.node (.binaryOperator type opcode) [lhs, rhs]) = true)
    (hlhs : isBaseRepairable (ignoringParenImpCasts lhs) = true)
    (hrhs : isBaseRepairable (ignoringParenImpCasts rhs) = true) :
    isBaseRepairable (.node (.binaryOperator type opcode) [lhs, rhs]) = true := by
  refine isBaseRepairable_iff.mpr ⟨rfl, fun index position found hfound hexpr => ?_⟩
  obtain ⟨side, hside, hposition⟩ := subtree_cons_eq_some.mp hfound
  have hat := subtree_cons_eq_some.mpr ⟨side, hside, subtree_nil side⟩
  have hbase : isBaseRepairable (ignoringParenImpCasts side) = true := by
    rcases List.mem_pair.mp (List.mem_of_getElem? hside) with rfl | rfl
    · exact hlhs
    · exact hrhs
  exact repairable_in_side (htree.below hat) (isSelectionFree_below hfree hat) hbase hposition hexpr

private theorem isBaseRepairable_operator {type : MatchedType} {opcode : BinaryOpcode}
    {lhs rhs : ClangStmt} (htree : ShapedTree (.node (.binaryOperator type opcode) [lhs, rhs]))
    (hfree : isSelectionFree (.node (.binaryOperator type opcode) [lhs, rhs]) = true) :
    isBaseRepairable (.node (.binaryOperator type opcode) [lhs, rhs]) =
      (matchesChild lhs && matchesChild rhs) := by
  rw [Bool.eq_iff_iff, Bool.and_eq_true_iff]
  constructor
  · intro hbase
    exact ⟨base_below htree hbase rfl
        ((@subtree_cons_eq_some _ _ _ 0 []).mpr ⟨lhs, rfl, subtree_nil lhs⟩),
      base_below htree hbase rfl
        ((@subtree_cons_eq_some _ _ _ 1 []).mpr ⟨rhs, rfl, subtree_nil rhs⟩)⟩
  · rintro ⟨hlhs, hrhs⟩
    exact isBaseRepairable_sides htree hfree hlhs hrhs

theorem mem_splittable_iff {type : MatchedType} {opcode : BinaryOpcode} {lhs rhs : ClangStmt}
    {position : Position} (htree : ShapedTree (.node (.binaryOperator type opcode) [lhs, rhs]))
    (hfree : isSelectionFree (.node (.binaryOperator type opcode) [lhs, rhs]) = true) :
    position ∈ splittable (.node (.binaryOperator type opcode) [lhs, rhs]) ↔
      isLogical opcode = true ∧
      isBaseRepairable (.node (.binaryOperator type opcode) [lhs, rhs]) = false ∧
      ∃ index side, [lhs, rhs][index]? = some side ∧ matchesChild side = true ∧
        position ∈ bindChild index side := by
  have hnon : ∀ side, isNonBaseRepairable (ignoringParenImpCasts side) = !matchesChild side := by
    intro side
    rw [Bool.eq_iff_iff, isNonBaseRepairable_iff, Bool.not_eq_true', matchesChild]
  have hsides : (∃ index side, [lhs, rhs][index]? = some side ∧ matchesChild side = true ∧
      position ∈ bindChild index side) ↔ matchesChild lhs = true ∧ position ∈ bindChild 0 lhs ∨
        matchesChild rhs = true ∧ position ∈ bindChild 1 rhs := by
    constructor
    · rintro ⟨index, side, hside, hbase, hmem⟩
      match index, hside with
      | 0, hside =>
          cases hside
          exact .inl ⟨hbase, hmem⟩
      | 1, hside =>
          cases hside
          exact .inr ⟨hbase, hmem⟩
    · rintro (hlhs | hrhs)
      · exact ⟨0, lhs, rfl, hlhs⟩
      · exact ⟨1, rhs, rfl, hrhs⟩
  rw [isBaseRepairable_operator htree hfree, hsides, splittable, hnon, hnon]
  cases isLogical opcode <;> cases matchesChild lhs <;> cases matchesChild rhs <;> simp

theorem mem_bindChild_iff {index : Nat} {child : ClangStmt} {position : Position} :
    position ∈ bindChild index child ↔
      repairableNode (ignoringParenImpCasts child) = some true ∧
        position = index :: innerPosition child := by
  rw [bindChild]
  split <;> simp_all

private theorem isBaseRepairable_of_condition {cond found : ClangStmt} {position : Position}
    (htree : ShapedTree cond) (hfree : isSelectionFree cond = true)
    (hbase : matchesChild cond = true)
    (hfound : cond.subtree position = some found)
    (hinner : ignoringParenImpCasts found = found) : isBaseRepairable found = true := by
  rcases subtree_cases htree hfree hfound with hsame | ⟨back, hback⟩
  · rw [← hinner, hsame]
    exact hbase
  · rw [← hinner]
    exact base_below (htree.below (subtree_innerPosition cond)) hbase
      (ignoringParenImpCasts_idempotent cond) hback

private theorem exists_operator_of_splittable {stmt : ClangStmt} {position : Position}
    (h : position ∈ splittable stmt) :
    ∃ type opcode lhs rhs, stmt = .node (.binaryOperator type opcode) [lhs, rhs] := by
  unfold splittable at h
  split at h
  · exact ⟨_, _, _, _, rfl⟩
  · cases h

/-- What is bound in a condition are its largest repairable parts. -/
theorem mem_splittableCondition_iff {cond : ClangStmt} {index : Nat} {position : Position}
    (htree : ShapedTree cond) (hfree : isSelectionFree cond = true) :
    position ∈ splittableCondition index cond ↔ ∃ front part, MaximalPart cond front part ∧
      repairableNode (ignoringParenImpCasts part) = some true ∧
      position = index :: (front ++ innerPosition part) := by
  unfold splittableCondition
  split
  · rename_i hbase
    rw [mem_bindChild_iff]
    constructor
    · rintro ⟨hbinds, hposition⟩
      exact ⟨[], cond, ⟨subtree_nil cond, hbase, .inl rfl⟩, hbinds, hposition⟩
    · rintro ⟨front, part, ⟨hpart, -, hmaximal⟩, hbinds, hposition⟩
      rcases hmaximal with rfl | ⟨upper, -, type, opcode, lhs, rhs, -, hupper, -, hnot⟩
      · cases hpart
        exact ⟨hbinds, hposition⟩
      · rw [isBaseRepairable_of_condition htree hfree hbase hupper rfl] at hnot
        cases hnot
  · rename_i hbase
    rw [List.mem_map]
    constructor
    · rintro ⟨rest, hrest, rfl⟩
      obtain ⟨upper, found, back, hfound, rfl, hback⟩ := mem_everywhere.mp hrest
      obtain ⟨type, opcode, lhs, rhs, rfl⟩ := exists_operator_of_splittable hback
      obtain ⟨hlogical, hnot, side, part, hpart, hside, hbind⟩ :=
        (mem_splittable_iff (htree.below hfound) (isSelectionFree_below hfree hfound)).mp hback
      obtain ⟨hbinds, rfl⟩ := mem_bindChild_iff.mp hbind
      have hpart_at : cond.subtree (upper ++ [side]) = some part :=
        subtree_append_eq_some.mpr
          ⟨_, hfound, subtree_cons_eq_some.mpr ⟨part, hpart, subtree_nil part⟩⟩
      refine ⟨upper ++ [side], part, ⟨hpart_at, hside, .inr ?_⟩, hbinds, ?_⟩
      · exact ⟨upper, side, type, opcode, lhs, rhs, rfl, hfound, hlogical, hnot⟩
      · rw [List.append_assoc, List.singleton_append]
    · rintro ⟨front, part, ⟨hpart, hside, hmaximal⟩, hbinds, rfl⟩
      rcases hmaximal with
        rfl | ⟨upper, side, type, opcode, lhs, rhs, rfl, hupper, hlogical, hnot⟩
      · cases hpart
        exact absurd hside hbase
      · refine ⟨upper ++ [side] ++ innerPosition part, ?_, rfl⟩
        obtain ⟨parent, hparent, hpart⟩ := subtree_append_eq_some.mp hpart
        cases hupper.symm.trans hparent
        obtain ⟨child, hchild, hnil⟩ := subtree_cons_eq_some.mp hpart
        cases hnil
        rw [List.append_assoc, List.singleton_append]
        refine mem_everywhere.mpr ⟨upper, _, side :: innerPosition part, hupper, rfl, ?_⟩
        exact (mem_splittable_iff (htree.below hupper) (isSelectionFree_below hfree hupper)).mpr
          ⟨hlogical, hnot, side, part, hchild, hside, mem_bindChild_iff.mpr ⟨hbinds, rfl⟩⟩

/-! ## Statements with conditions -/

def condition : ClangStmt → Option (Nat × ClangStmt)
  | .node .ifStmt (cond :: _) => some (0, cond)
  | .node .whileStmt (cond :: _) => some (0, cond)
  | .node .forStmt (_ :: cond :: _) => some (1, cond)
  | _ => none

private theorem children_of_condition {stmt cond : ClangStmt} {index : Nat}
    (h : condition stmt = some (index, cond)) :
    stmt.children[index]? = some cond ∧
      expressionSchema stmt = splittableCondition index cond := by
  revert h
  fun_cases condition stmt with
  | case1 | case2 | case3 =>
      intro h
      cases h
      exact ⟨rfl, rfl⟩
  | case4 => exact nofun

/-- A statement with a condition has exactly its largest repairable parts bound. -/
theorem mem_expressionSchema_iff (unit : TranslationUnit) {front position : Position}
    {stmt cond : ClangStmt} {index : Nat} (hat : unit.root.subtree front = some stmt)
    (hcond : condition stmt = some (index, cond)) (hfree : isSelectionFree cond = true) :
    position ∈ expressionSchema stmt ↔ ∃ inner part, MaximalPart cond inner part ∧
      repairableNode (ignoringParenImpCasts part) = some true ∧
      position = index :: (inner ++ innerPosition part) := by
  obtain ⟨hchild, hschema⟩ := children_of_condition hcond
  have htree := (unit.shapedTree.below hat).below
    (subtree_cons_eq_some.mpr ⟨cond, hchild, subtree_nil cond⟩)
  rw [hschema, mem_splittableCondition_iff htree hfree]

theorem mem_expressionSchema_iff_guardedCall :
    ∃ stmt cond, guardedCall.root.subtree [0] = some stmt ∧
      condition stmt = some (0, cond) ∧
      ∀ position, position ∈ expressionSchema stmt ↔ ∃ inner part, MaximalPart cond inner part ∧
        repairableNode (ignoringParenImpCasts part) = some true ∧
        position = 0 :: (inner ++ innerPosition part) :=
  ⟨_, _, rfl, rfl, fun position =>
    @mem_expressionSchema_iff guardedCall [0] position _ _ _ rfl rfl (by decide)⟩

end SearchSpaceMatchers

end F1X
