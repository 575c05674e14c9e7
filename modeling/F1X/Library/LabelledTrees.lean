import Mathlib.Data.List.Basic
import Mathlib.Data.List.Infix

/-!
# Labelled trees and their positions

Trees with any number of children.  A position is the list of child indices from
the root down; a search visits every subtree and returns positions below it.
-/

namespace F1X.Library

inductive LabelledTree (α : Type*) where
  | node (label : α) (children : List (LabelledTree α))

namespace LabelledTree

variable {α : Type*}

abbrev Position := List Nat

def label : LabelledTree α → α
  | node label _ => label

def children : LabelledTree α → List (LabelledTree α)
  | node _ children => children

@[simp] theorem label_node (label : α) (children : List (LabelledTree α)) :
    (node label children).label = label := rfl

@[simp] theorem children_node (label : α) (children : List (LabelledTree α)) :
    (node label children).children = children := rfl

/-- The hypothesis covers every child. -/
@[elab_as_elim, induction_eliminator]
theorem induct {motive : LabelledTree α → Prop}
    (node : ∀ label children, (∀ child ∈ children, motive child) →
      motive (node label children))
    (tree : LabelledTree α) : motive tree :=
  @LabelledTree.rec α motive (fun children => ∀ child ∈ children, motive child)
    (fun label children hchildren => node label children hchildren)
    (by simp)
    (fun _ _ hhead htail => by
      intro child hchild
      rcases List.mem_cons.mp hchild with rfl | hmem
      · exact hhead
      · exact htail child hmem)
    tree

/-! ## Subtrees -/

def subtree (tree : LabelledTree α) : Position → Option (LabelledTree α)
  | [] => some tree
  | index :: position => tree.children[index]?.bind fun child => child.subtree position

@[simp] theorem subtree_nil (tree : LabelledTree α) : tree.subtree [] = some tree := rfl

theorem subtree_cons (tree : LabelledTree α) (index : Nat) (position : Position) :
    tree.subtree (index :: position) =
      tree.children[index]?.bind fun child => child.subtree position :=
  rfl

theorem subtree_cons_eq_some {tree below : LabelledTree α} {index : Nat}
    {position : Position} :
    tree.subtree (index :: position) = some below ↔
      ∃ child, tree.children[index]? = some child ∧ child.subtree position = some below := by
  rw [subtree_cons, Option.bind_eq_some_iff]

theorem subtree_append (tree : LabelledTree α) (front back : Position) :
    tree.subtree (front ++ back) = (tree.subtree front).bind fun below => below.subtree back := by
  induction front generalizing tree with
  | nil => rfl
  | cons index front ih =>
      rw [List.cons_append, subtree_cons, subtree_cons]
      cases tree.children[index]? with
      | none => rfl
      | some child => exact ih child

theorem subtree_append_eq_some {tree below : LabelledTree α} {front back : Position} :
    tree.subtree (front ++ back) = some below ↔
      ∃ between, tree.subtree front = some between ∧ between.subtree back = some below := by
  rw [subtree_append, Option.bind_eq_some_iff]

theorem subtree_of_isPrefix {tree upper lower : LabelledTree α} {front position : Position}
    (hfront : front <+: position) (hupper : tree.subtree front = some upper)
    (hlower : tree.subtree position = some lower) :
    ∃ back, position = front ++ back ∧ upper.subtree back = some lower := by
  obtain ⟨back, rfl⟩ := hfront
  obtain ⟨between, hbetween, hback⟩ := subtree_append_eq_some.mp hlower
  cases hupper.symm.trans hbetween
  exact ⟨back, rfl, hback⟩

theorem subtree_of_leaf {tree below : LabelledTree α} {position : Position}
    (hleaf : tree.children = []) (h : tree.subtree position = some below) : below = tree := by
  cases position with
  | nil =>
      cases h
      rfl
  | cons index position =>
      obtain ⟨child, hchild, -⟩ := subtree_cons_eq_some.mp h
      simp [hleaf] at hchild

/-! ## Searching -/

section Search

variable (find : LabelledTree α → List Position)

mutual

/-- The positions found at a tree and at every tree below it. -/
def everywhere : LabelledTree α → List Position
  | node label children => find (node label children) ++ everywhereFrom 0 children

def everywhereFrom : Nat → List (LabelledTree α) → List Position
  | _, [] => []
  | index, child :: children =>
      (everywhere child).map (index :: ·) ++ everywhereFrom (index + 1) children

end

/-- The positions found strictly below a tree. -/
def descendants (tree : LabelledTree α) : List Position :=
  everywhereFrom find 0 tree.children

variable {find}

private theorem everywhere_eq (tree : LabelledTree α) :
    everywhere find tree = find tree ++ descendants find tree := by
  cases tree with
  | node label children => rfl

private theorem mem_everywhereFrom {index : Nat} {children : List (LabelledTree α)}
    {position : Position} :
    position ∈ everywhereFrom find index children ↔
      ∃ i child back, children[i]? = some child ∧ position = (index + i) :: back ∧
        back ∈ everywhere find child := by
  induction children generalizing index with
  | nil => simp [everywhereFrom]
  | cons child children ih =>
      rw [everywhereFrom, List.mem_append, List.mem_map, ih]
      constructor
      · rintro (⟨back, hback, rfl⟩ | ⟨i, other, back, hget, rfl, hback⟩)
        · exact ⟨0, child, back, rfl, rfl, hback⟩
        · exact ⟨i + 1, other, back, hget, by rw [Nat.add_assoc, Nat.add_comm 1], hback⟩
      · rintro ⟨i, other, back, hget, rfl, hback⟩
        cases i with
        | zero =>
            cases hget
            exact .inl ⟨back, hback, rfl⟩
        | succ i =>
            exact .inr ⟨i, other, back, hget, by rw [Nat.add_assoc, Nat.add_comm 1], hback⟩

theorem mem_descendants {tree : LabelledTree α} {position : Position} :
    position ∈ descendants find tree ↔
      ∃ index child back, tree.children[index]? = some child ∧ position = index :: back ∧
        back ∈ everywhere find child := by
  rw [descendants, mem_everywhereFrom]
  simp only [Nat.zero_add]

theorem mem_everywhere {tree : LabelledTree α} {position : Position} :
    position ∈ everywhere find tree ↔
      ∃ front found back, tree.subtree front = some found ∧ position = front ++ back ∧
        back ∈ find found := by
  induction tree generalizing position with
  | node label children ih =>
      rw [everywhere_eq, List.mem_append, mem_descendants]
      constructor
      · rintro (hfind | ⟨index, child, back, hget, rfl, hback⟩)
        · exact ⟨[], _, position, rfl, rfl, hfind⟩
        · obtain ⟨front, found, rest, hfound, rfl, hrest⟩ :=
            (ih child (List.mem_of_getElem? hget)).mp hback
          exact ⟨index :: front, found, rest,
            subtree_cons_eq_some.mpr ⟨child, hget, hfound⟩, rfl, hrest⟩
      · rintro ⟨front, found, back, hfound, rfl, hback⟩
        cases front with
        | nil =>
            cases hfound
            exact .inl hback
        | cons index front =>
            obtain ⟨child, hget, hfound⟩ := subtree_cons_eq_some.mp hfound
            exact .inr ⟨index, child, front ++ back, hget, rfl,
              (ih child (List.mem_of_getElem? hget)).mpr ⟨front, found, back, hfound, rfl, hback⟩⟩

end Search

/-- Some tree strictly below has the property. -/
def anyBelow (p : LabelledTree α → Bool) (tree : LabelledTree α) : Bool :=
  !(descendants (fun found => if p found then [[]] else []) tree).isEmpty

theorem anyBelow_eq_true {p : LabelledTree α → Bool} {tree : LabelledTree α} :
    anyBelow p tree = true ↔
      ∃ index position found, tree.subtree (index :: position) = some found ∧
        p found = true := by
  rw [anyBelow, Bool.not_eq_true', List.isEmpty_eq_false_iff_exists_mem]
  simp only [mem_descendants, mem_everywhere]
  constructor
  · rintro ⟨-, index, child, -, hget, rfl, front, found, back, hfound, -, hback⟩
    refine ⟨index, front, found, subtree_cons_eq_some.mpr ⟨child, hget, hfound⟩, ?_⟩
    by_contra hp
    simp [hp] at hback
  · rintro ⟨index, position, found, hfound, hp⟩
    obtain ⟨child, hget, hfound⟩ := subtree_cons_eq_some.mp hfound
    exact ⟨index :: position, index, child, position, hget, rfl, position, found, [], hfound,
      by simp, by simp [hp]⟩

/-! ## Looking through nodes -/

section Through

variable (next : α → Option Nat)

mutual

/-- Down the children that `next` names, as long as there are such children. -/
def throughPosition : LabelledTree α → Position
  | node label children =>
      ((next label).bind fun index =>
        (throughPositions children)[index]?.map (index :: ·)).getD []

def throughPositions : List (LabelledTree α) → List Position
  | [] => []
  | child :: children => throughPosition child :: throughPositions children

end

/-- What is left when the nodes with a `next` child are looked through. -/
def through (tree : LabelledTree α) : LabelledTree α :=
  (tree.subtree (throughPosition next tree)).getD tree

/-- The child that is looked at in place of the tree, with its index. -/
def nextChild (tree : LabelledTree α) : Option (Nat × LabelledTree α) :=
  (next tree.label).bind fun index => tree.children[index]?.map (Prod.mk index)

variable {next}

private theorem throughPositions_eq_map (children : List (LabelledTree α)) :
    throughPositions next children = children.map (throughPosition next) := by
  induction children with
  | nil => rfl
  | cons child children ih => rw [throughPositions, ih, List.map_cons]

theorem throughPosition_eq (tree : LabelledTree α) :
    throughPosition next tree =
      match nextChild next tree with
      | some (index, child) => index :: throughPosition next child
      | none => [] := by
  cases tree with
  | node label children =>
      rw [throughPosition, throughPositions_eq_map, nextChild, label_node, children_node]
      cases next label with
      | none => rfl
      | some index =>
          rw [Option.bind_some, Option.bind_some, List.getElem?_map, Option.map_map]
          cases children[index]? <;> rfl

theorem throughPosition_of_some {tree child : LabelledTree α} {index : Nat}
    (h : nextChild next tree = some (index, child)) :
    throughPosition next tree = index :: throughPosition next child := by
  rw [throughPosition_eq, h]

theorem throughPosition_of_none {tree : LabelledTree α} (h : nextChild next tree = none) :
    throughPosition next tree = [] := by
  rw [throughPosition_eq, h]

theorem nextChild_eq_some {tree child : LabelledTree α} {index : Nat} :
    nextChild next tree = some (index, child) ↔
      next tree.label = some index ∧ tree.children[index]? = some child := by
  rw [nextChild, Option.bind_eq_some_iff]
  constructor
  · rintro ⟨other, hnext, h⟩
    obtain ⟨found, hfound, heq⟩ := Option.map_eq_some_iff.mp h
    obtain ⟨rfl, rfl⟩ := Prod.mk.inj heq
    exact ⟨hnext, hfound⟩
  · rintro ⟨hnext, hchild⟩
    exact ⟨index, hnext, by rw [hchild, Option.map_some]⟩

variable (next) in
/-- A tree is looked through into its child, or it is what is left. -/
theorem through_induct {motive : LabelledTree α → Prop}
    (child : ∀ tree index sub, nextChild next tree = some (index, sub) → motive sub → motive tree)
    (stop : ∀ tree, nextChild next tree = none → motive tree) (tree : LabelledTree α) :
    motive tree := by
  induction tree with
  | node label children ih =>
      cases h : nextChild next (node label children) with
      | none => exact stop _ h
      | some found =>
          obtain ⟨index, sub⟩ := found
          exact child _ index sub h
            (ih sub (List.mem_of_getElem? (nextChild_eq_some.mp h).2))

variable (next) in
theorem subtree_throughPosition (tree : LabelledTree α) :
    tree.subtree (throughPosition next tree) = some (through next tree) := by
  have hsome : ∃ found, tree.subtree (throughPosition next tree) = some found := by
    induction tree using through_induct next with
    | child tree index sub h ih =>
        obtain ⟨found, hfound⟩ := ih
        rw [throughPosition_of_some h]
        exact ⟨found, subtree_cons_eq_some.mpr ⟨sub, (nextChild_eq_some.mp h).2, hfound⟩⟩
    | stop tree h => exact ⟨tree, by rw [throughPosition_of_none h, subtree_nil]⟩
  obtain ⟨found, hfound⟩ := hsome
  rw [through, hfound, Option.getD_some]

theorem through_of_some {tree child : LabelledTree α} {index : Nat}
    (h : nextChild next tree = some (index, child)) : through next tree = through next child := by
  have htree := subtree_throughPosition next tree
  rw [throughPosition_of_some h, subtree_cons, (nextChild_eq_some.mp h).2, Option.bind_some,
    subtree_throughPosition] at htree
  exact (Option.some.inj htree).symm

theorem through_of_none {tree : LabelledTree α} (h : nextChild next tree = none) :
    through next tree = tree := by
  rw [through, throughPosition_of_none h, subtree_nil, Option.getD_some]

theorem nextChild_through (tree : LabelledTree α) : nextChild next (through next tree) = none := by
  induction tree using through_induct next with
  | child tree index sub h ih => rwa [through_of_some h]
  | stop tree h => rwa [through_of_none h]

@[simp] theorem through_idempotent (tree : LabelledTree α) :
    through next (through next tree) = through next tree :=
  through_of_none (nextChild_through tree)

@[simp] theorem throughPosition_through (tree : LabelledTree α) :
    throughPosition next (through next tree) = [] :=
  throughPosition_of_none (nextChild_through tree)

private theorem throughPosition_append {tree found : LabelledTree α} {front back : Position}
    (h : throughPosition next tree = front ++ back) (hfound : tree.subtree front = some found) :
    throughPosition next found = back := by
  induction tree using through_induct next generalizing front with
  | child tree index sub hnext ih =>
      cases front with
      | nil =>
          cases hfound
          exact h
      | cons first front =>
          rw [throughPosition_of_some hnext] at h
          obtain ⟨rfl, hback⟩ := List.cons.inj h
          obtain ⟨child, hchild, hfound⟩ := subtree_cons_eq_some.mp hfound
          cases hchild.symm.trans (nextChild_eq_some.mp hnext).2
          exact ih hback hfound
  | stop tree hnext =>
      rw [throughPosition_of_none hnext] at h
      obtain ⟨rfl, rfl⟩ := List.append_eq_nil_iff.mp h.symm
      cases hfound
      exact throughPosition_of_none hnext

/-- Every tree before the end of the way is looked through. -/
theorem eq_throughPosition {tree found : LabelledTree α} {position : Position}
    (hfront : position <+: throughPosition next tree) (hfound : tree.subtree position = some found)
    (hthrough : through next found = found) : position = throughPosition next tree := by
  obtain ⟨back, hback⟩ := hfront
  have hnil : throughPosition next found = [] := by
    rw [← hthrough]
    exact throughPosition_through found
  rw [← hback, ← throughPosition_append hback.symm hfound, hnil, List.append_nil]

end Through

end LabelledTree

end F1X.Library
