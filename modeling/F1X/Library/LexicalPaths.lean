import Mathlib.Data.List.Infix

/-!
# Lexical paths

Absolute paths as lists of components, the root first, and how the components
for a directory itself and for its parent are resolved without a file system.
-/

namespace F1X.Library

variable {α : Type*}

section Resolution

variable [DecidableEq α] (self parent : α)

/-- One component below a stack of names, the deepest first; the root is its own parent. -/
def resolveStep (stack : List α) (component : α) : List α :=
  if component = self then stack
  else if component = parent then stack.tail
  else component :: stack

def resolve : List α → List α
  | [] => []
  | root :: components => root :: (components.foldl (resolveStep self parent) []).reverse

variable {self parent}

private theorem foldl_resolveStep_plain {names : List α}
    (h : ∀ name ∈ names, name ≠ self ∧ name ≠ parent) (stack : List α) :
    names.foldl (resolveStep self parent) stack = names.reverse ++ stack := by
  induction names generalizing stack with
  | nil => rfl
  | cons name names ih =>
      obtain ⟨hname, hnames⟩ := List.forall_mem_cons.mp h
      have hstep : resolveStep self parent stack name = name :: stack := by
        rw [resolveStep, if_neg hname.1, if_neg hname.2]
      rw [List.foldl_cons, hstep, ih hnames, List.reverse_cons, List.append_assoc,
        List.singleton_append]

private theorem foldl_resolveStep_parent (h : parent ≠ self) (n : Nat) (stack : List α) :
    (List.replicate n parent).foldl (resolveStep self parent) stack = stack.drop n := by
  induction n generalizing stack with
  | zero => rfl
  | succ n ih =>
      have hstep : resolveStep self parent stack parent = stack.tail := by
        rw [resolveStep, if_neg h, if_pos rfl]
      rw [List.replicate_succ, List.foldl_cons, hstep, ih, List.drop_tail]

theorem foldl_resolveStep_return {names : List α} (hparent : parent ≠ self)
    (h : ∀ name ∈ names, name ≠ self ∧ name ≠ parent) (stack : List α) :
    (names ++ List.replicate names.length parent).foldl (resolveStep self parent) stack =
      stack := by
  rw [List.foldl_append, foldl_resolveStep_plain h, foldl_resolveStep_parent hparent]
  apply List.drop_left'
  exact List.length_reverse

end Resolution

/-! ## The longest common prefix -/

/-- A common prefix that every other one is a prefix of. -/
structure LongestCommonPrefix (common xs ys : List α) : Prop where
  left : common <+: xs
  right : common <+: ys
  longest : ∀ other, other <+: xs → other <+: ys → other <+: common

theorem LongestCommonPrefix.cons {common xs ys : List α} (h : LongestCommonPrefix common xs ys)
    (x : α) : LongestCommonPrefix (x :: common) (x :: xs) (x :: ys) where
  left := (List.prefix_cons_inj x).mpr h.left
  right := (List.prefix_cons_inj x).mpr h.right
  longest := by
    intro other hleft hright
    cases other with
    | nil => exact List.nil_prefix
    | cons y other =>
        obtain ⟨rfl, hothers⟩ := List.cons_prefix_cons.mp hleft
        obtain ⟨-, hothers'⟩ := List.cons_prefix_cons.mp hright
        exact (List.prefix_cons_inj y).mpr (h.longest other hothers hothers')

theorem longestCommonPrefix_nil {xs ys : List α}
    (h : ∀ x ∈ xs.head?, ∀ y ∈ ys.head?, x ≠ y) : LongestCommonPrefix [] xs ys where
  left := List.nil_prefix
  right := List.nil_prefix
  longest := by
    intro other hleft hright
    cases other with
    | nil => exact List.nil_prefix
    | cons x other =>
        obtain ⟨leftRest, rfl⟩ := hleft
        obtain ⟨rightRest, rfl⟩ := hright
        exact absurd rfl (h x rfl x rfl)

end F1X.Library
