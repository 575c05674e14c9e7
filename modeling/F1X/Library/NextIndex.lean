import Mathlib.Data.List.Basic

/-!
# The next position with a property

Searching a list from a given position on: the position found, and what
repeating the search behind every hit enumerates.
-/

namespace F1X.Library

variable {α : Type*} {p : α → Prop} {xs : List α}

/--
`i` is the first position from `start` on whose element has the property, and
the length of the list when there is none.
-/
structure IsNext (p : α → Prop) (xs : List α) (start i : Nat) : Prop where
  start_le : start ≤ i
  le_length : i ≤ xs.length
  skipped : ∀ j, start ≤ j → j < i → ∀ x, xs[j]? = some x → ¬ p x
  found : ∀ x, xs[i]? = some x → p x

namespace IsNext

variable {start i j : Nat} {x : α}

theorem here (hget : xs[start]? = some x) (hx : p x) : IsNext p xs start start where
  start_le := Nat.le_refl _
  le_length := Nat.le_of_lt (List.getElem?_eq_some_iff.mp hget).1
  skipped := fun j hj hlt => absurd hlt (by omega)
  found := by
    intro y hy
    rw [hget] at hy
    cases hy
    exact hx

theorem atEnd : IsNext p xs xs.length xs.length where
  start_le := Nat.le_refl _
  le_length := Nat.le_refl _
  skipped := fun j hj hlt => absurd hlt (by omega)
  found := by simp

theorem skip (hget : xs[start]? = some x) (hx : ¬ p x) (h : IsNext p xs (start + 1) i) :
    IsNext p xs start i where
  start_le := by
    have hle := h.start_le
    omega
  le_length := h.le_length
  skipped := by
    intro j hj hlt y hy
    by_cases hstart : j = start
    · subst hstart
      rw [hget] at hy
      cases hy
      exact hx
    · exact h.skipped j (by omega) hlt y hy
  found := h.found

theorem not_lt (hi : IsNext p xs start i) (hj : IsNext p xs start j) : ¬ i < j := by
  intro hlt
  have hget := List.getElem?_eq_getElem (Nat.lt_of_lt_of_le hlt hj.le_length)
  exact hj.skipped i hi.start_le hlt _ hget (hi.found _ hget)

theorem unique (hi : IsNext p xs start i) (hj : IsNext p xs start j) : i = j :=
  Nat.le_antisymm (Nat.le_of_not_lt (hj.not_lt hi)) (Nat.le_of_not_lt (hi.not_lt hj))

theorem total {start : Nat} (h : start ≤ xs.length) : ∃ i, IsNext p xs start i := by
  induction hrest : xs.length - start generalizing start with
  | zero =>
      obtain rfl : start = xs.length := by omega
      exact ⟨_, atEnd⟩
  | succ rest ih =>
      have hget : xs[start]? = some xs[start] := List.getElem?_eq_getElem (by omega)
      by_cases hx : p xs[start]
      · exact ⟨start, here hget hx⟩
      · obtain ⟨i, hi⟩ := @ih (start + 1) (by omega) (by omega)
        exact ⟨i, hi.skip hget hx⟩

theorem total_all {starts : List Nat} (h : ∀ start ∈ starts, start ≤ xs.length) :
    ∃ hits, List.Forall₂ (IsNext p xs) starts hits := by
  induction starts with
  | nil => exact ⟨[], .nil⟩
  | cons start starts ih =>
      obtain ⟨hstart, hstarts⟩ := List.forall_mem_cons.mp h
      obtain ⟨hit, hhit⟩ := total hstart
      obtain ⟨hits, hhits⟩ := ih hstarts
      exact ⟨hit :: hits, .cons hhit hhits⟩

variable [DecidablePred p]

theorem filter_skipped (h : IsNext p xs start i) :
    (xs.drop start).filter (p ·) = (xs.drop i).filter (p ·) := by
  have hdrop : xs.drop start = (xs.drop start).take (i - start) ++ xs.drop i := by
    have hsplit := (List.take_append_drop (i - start) (xs.drop start)).symm
    rwa [List.drop_drop, Nat.add_sub_cancel' h.start_le] at hsplit
  have hnone : ((xs.drop start).take (i - start)).filter (p ·) = [] := by
    rw [List.filter_eq_nil_iff]
    intro x hx
    obtain ⟨k, hk, hget⟩ := List.mem_take_iff_getElem.mp hx
    rw [List.getElem_drop] at hget
    have hskip := h.skipped (start + k) (by omega) (by omega) x
      (by rw [← hget]; exact List.getElem?_eq_getElem _)
    simpa using hskip
  rw [hdrop, List.filter_append, hnone, List.nil_append]

theorem filter_hit (h : IsNext p xs start i) (hlt : i < xs.length) :
    (xs.drop start).filter (p ·) = xs[i] :: (xs.drop (i + 1)).filter (p ·) := by
  have hp : p xs[i] := h.found _ (List.getElem?_eq_getElem hlt)
  rw [h.filter_skipped, List.drop_eq_getElem_cons hlt, List.filter_cons_of_pos (by simpa)]

theorem filter_miss (h : IsNext p xs start xs.length) :
    (xs.drop start).filter (p ·) = [] := by
  rw [h.filter_skipped, List.drop_length, List.filter_nil]

theorem countP_take (h : IsNext p xs start i) (hj : start ≤ j) (hji : j ≤ i) :
    (xs.take j).countP (p ·) = (xs.take start).countP (p ·) := by
  obtain ⟨k, rfl⟩ := Nat.exists_eq_add_of_le hj
  rw [List.take_add, List.countP_append]
  have hnone : ((xs.drop start).take k).countP (p ·) = 0 := by
    rw [List.countP_eq_zero]
    intro x hx
    obtain ⟨m, hm, hget⟩ := List.mem_take_iff_getElem.mp hx
    rw [List.getElem_drop] at hget
    have hskip := h.skipped (start + m) (by omega) (by omega) x
      (by rw [← hget]; exact List.getElem?_eq_getElem _)
    simpa using hskip
  rw [hnone, Nat.add_zero]

theorem countP_take_hit (h : IsNext p xs start i) (hlt : i < xs.length) :
    (xs.take (i + 1)).countP (p ·) = (xs.take start).countP (p ·) + 1 := by
  have hp : p xs[i] := h.found _ (List.getElem?_eq_getElem hlt)
  rw [List.take_succ_eq_append_getElem hlt, List.countP_append,
    h.countP_take h.start_le (Nat.le_refl _), List.countP_singleton]
  simp [hp]

end IsNext

end F1X.Library
