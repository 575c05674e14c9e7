import Mathlib.Data.List.Perm.Basic

/-!
# Searching a list that is reordered

A list is searched until the first hit, and what was searched may be permuted
afterwards, as when a hit is moved to the front.  The elements searched so far
are then a front of the original list, whatever the hits were.
-/

namespace F1X.Library

variable {α : Type*} {p : α → Bool}

def through (p : α → Bool) : List α → List α
  | [] => []
  | x :: xs => if p x then [x] else x :: through p xs

theorem through_isPrefix (xs : List α) : through p xs <+: xs := by
  induction xs with
  | nil => exact List.prefix_rfl
  | cons x xs ih =>
      rw [through]
      split
      · exact ⟨xs, rfl⟩
      · exact List.cons_prefix_cons.mpr ⟨rfl, ih⟩

theorem through_eq_self {xs : List α} (h : ∀ x ∈ xs, p x = false) : through p xs = xs := by
  induction xs with
  | nil => rfl
  | cons x xs ih =>
      rw [List.forall_mem_cons] at h
      rw [through, h.1, ih h.2]
      rfl

theorem through_append_of_hit {xs : List α} (h : ∃ x ∈ xs, p x = true) (ys : List α) :
    through p (xs ++ ys) = through p xs := by
  induction xs with
  | nil => simp at h
  | cons x xs ih =>
      rw [List.cons_append, through, through]
      cases hx : p x with
      | true => rfl
      | false => simpa [hx] using ih (by simpa [hx] using h)

theorem through_append_of_miss {xs : List α} (h : ∀ x ∈ xs, p x = false) (ys : List α) :
    through p (xs ++ ys) = xs ++ through p ys := by
  induction xs with
  | nil => rfl
  | cons x xs ih =>
      rw [List.forall_mem_cons] at h
      rw [List.cons_append, through, h.1, ih h.2]
      rfl

/-- `current` is `original` with its front `done` permuted. -/
def Reordered (original current done : List α) : Prop :=
  ∃ front rest, original = done ++ rest ∧ current = front ++ rest ∧ front.Perm done

namespace Reordered

variable {original current done : List α}

theorem refl (xs : List α) : Reordered xs xs [] :=
  ⟨[], xs, rfl, rfl, .nil⟩

theorem through_subset (h : Reordered original current done) (hhit : ∃ x ∈ done, p x = true) :
    through p original ⊆ done := by
  obtain ⟨front, rest, rfl, -, -⟩ := h
  rw [through_append_of_hit hhit]
  exact (through_isPrefix done).subset

/--
One more search: with what it permutes, the elements searched are still a front
of the original list, and the same as if that list had been searched.
-/
theorem search (h : Reordered original current done) {searched suffix : List α}
    (hcurrent : current = through p current ++ suffix)
    (hsearched : searched.Perm (through p current)) :
    ∃ done', Reordered original (searched ++ suffix) done' ∧
      (∀ x, x ∈ done' ↔ x ∈ done ∨ x ∈ through p current) ∧
      (∀ x, x ∈ done' ↔ x ∈ done ∨ x ∈ through p original) := by
  obtain ⟨front, rest, rfl, rfl, hperm⟩ := h
  by_cases hhit : ∃ x ∈ front, p x = true
  · have hdone : ∃ x ∈ done, p x = true := by simpa only [hperm.mem_iff] using hhit
    rw [through_append_of_hit hhit] at hcurrent hsearched ⊢
    rw [through_append_of_hit hdone]
    obtain ⟨skipped, hfront⟩ := through_isPrefix (p := p) front
    have hsplit : through p front ++ (skipped ++ rest) = through p front ++ suffix := by
      rw [← List.append_assoc, hfront, hcurrent]
    have hsuffix : skipped ++ rest = suffix := List.append_cancel_left hsplit
    refine ⟨done, ⟨searched ++ skipped, rest, rfl, ?_, ?_⟩, ?_, ?_⟩
    · rw [List.append_assoc, hsuffix]
    · have hskipped := hsearched.append_right skipped
      rw [hfront] at hskipped
      exact hskipped.trans hperm
    · intro x
      refine ⟨.inl, fun hx => hx.elim id fun hx => ?_⟩
      exact hperm.subset ((through_isPrefix front).subset hx)
    · intro x
      exact ⟨.inl, fun hx => hx.elim id fun hx => (through_isPrefix done).subset hx⟩
  · have hmiss : ∀ x ∈ front, p x = false := by simpa using hhit
    have hdone : ∀ x ∈ done, p x = false := fun x hx => hmiss x (hperm.mem_iff.mpr hx)
    rw [through_append_of_miss hmiss] at hcurrent hsearched ⊢
    rw [through_append_of_miss hdone]
    have hsplit : front ++ rest = front ++ (through p rest ++ suffix) := by
      rw [hcurrent, List.append_assoc]
    have hrest : rest = through p rest ++ suffix := List.append_cancel_left hsplit
    refine ⟨done ++ through p rest, ⟨searched, suffix, ?_, rfl, ?_⟩, ?_, ?_⟩
    · rw [List.append_assoc, ← hrest]
    · exact hsearched.trans (hperm.append_right _)
    · intro x
      simp [hperm.mem_iff]
    · intro x
      simp

end Reordered

end F1X.Library
