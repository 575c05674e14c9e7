import Mathlib.Data.Finset.Insert
import Mathlib.Data.List.Basic

/-!
# The first element of each key

A scan that takes no two elements of one key.  An element that does not get past
the early test leaves its key free; one that fails the late test does not.
-/

namespace F1X.Library

section Scan

variable {α κ : Type*} [DecidableEq κ] (key : α → κ) (early late : α → Bool)

def firstOfKey (seen : Finset κ) : List α → List α
  | [] => []
  | x :: xs =>
      if !early x || key x ∈ seen then firstOfKey seen xs
      else if late x then x :: firstOfKey (insert (key x) seen) xs
      else firstOfKey (insert (key x) seen) xs

variable {key early late}

theorem firstOfKey_cons_skip {seen : Finset κ} {x : α} (xs : List α)
    (h : early x = true → key x ∈ seen) :
    firstOfKey key early late seen (x :: xs) = firstOfKey key early late seen xs := by
  rw [firstOfKey, if_pos]
  cases hearly : early x with
  | false => rfl
  | true => simpa using h hearly

theorem firstOfKey_cons_new {seen : Finset κ} {x : α} (xs : List α) (hearly : early x = true)
    (hseen : key x ∉ seen) :
    firstOfKey key early late seen (x :: xs) =
      (if late x then [x] else []) ++ firstOfKey key early late (insert (key x) seen) xs := by
  rw [firstOfKey, if_neg (by simp [hearly, hseen])]
  split <;> rfl

/-- What is taken is the first of its key that gets past the early test. -/
theorem mem_firstOfKey_iff {seen : Finset κ} {xs : List α} {x : α} :
    x ∈ firstOfKey key early late seen xs ↔ early x = true ∧ late x = true ∧ key x ∉ seen ∧
      ∃ front back, xs = front ++ x :: back ∧
        ∀ y ∈ front, early y = true → key y ≠ key x := by
  induction xs generalizing seen with
  | nil => simp [firstOfKey]
  | cons y ys ih =>
      have hsplit : (∃ front back, y :: ys = front ++ x :: back ∧
          ∀ z ∈ front, early z = true → key z ≠ key x) ↔ y = x ∨
          (early y = true → key y ≠ key x) ∧ ∃ front back, ys = front ++ x :: back ∧
            ∀ z ∈ front, early z = true → key z ≠ key x := by
        constructor
        · rintro ⟨front, back, heq, hfront⟩
          cases front with
          | nil => exact .inl (List.cons.inj heq).1
          | cons z front =>
              obtain ⟨rfl, htail⟩ := List.cons.inj heq
              obtain ⟨hz, hfront⟩ := List.forall_mem_cons.mp hfront
              exact .inr ⟨hz, front, back, htail, hfront⟩
        · rintro (rfl | ⟨hy, front, back, rfl, hfront⟩)
          · exact ⟨[], ys, rfl, nofun⟩
          · exact ⟨y :: front, back, rfl, List.forall_mem_cons.mpr ⟨hy, hfront⟩⟩
      rw [hsplit]
      by_cases hskip : early y = true → key y ∈ seen
      · rw [firstOfKey_cons_skip ys hskip, ih]
        grind
      · obtain ⟨hearly, hseen⟩ := Classical.not_imp.mp hskip
        rw [firstOfKey_cons_new ys hearly hseen, List.mem_append, ih]
        grind

theorem firstOfKey_pairwise (seen : Finset κ) (xs : List α) :
    (firstOfKey key early late seen xs).Pairwise fun x y => key x ≠ key y := by
  induction xs generalizing seen with
  | nil => exact List.Pairwise.nil
  | cons x xs ih =>
      by_cases hskip : early x = true → key x ∈ seen
      · rw [firstOfKey_cons_skip xs hskip]
        exact ih seen
      · obtain ⟨hearly, hseen⟩ := Classical.not_imp.mp hskip
        rw [firstOfKey_cons_new xs hearly hseen]
        split
        · refine List.pairwise_cons.mpr ⟨fun y hy => ?_, ih _⟩
          have hnot := (mem_firstOfKey_iff.mp hy).2.2.1
          exact fun heq => hnot (heq ▸ Finset.mem_insert_self _ _)
        · exact ih _

theorem firstOfKey_eq_singleton {seen : Finset κ} {xs : List α} {x : α}
    (hmem : x ∈ firstOfKey key early late seen xs)
    (hsame : ∀ y ∈ firstOfKey key early late seen xs, key y = key x) :
    firstOfKey key early late seen xs = [x] := by
  have hpairwise := @firstOfKey_pairwise _ _ _ key early late seen xs
  generalize firstOfKey key early late seen xs = taken at *
  match taken with
  | [] => cases hmem
  | [y] => rw [List.mem_singleton.mp hmem]
  | y :: z :: rest =>
      have hyz := List.rel_of_pairwise_cons hpairwise List.mem_cons_self
      rw [hsame y (by simp), hsame z (by simp)] at hyz
      exact absurd rfl hyz

/-- A handler that emits something for what is taken and remembers the keys it has seen. -/
theorem foldl_firstOfKey {σ β : Type*} {step : σ → α → σ} {seenOf : σ → Finset κ}
    {emitted : σ → List β} {emit : α → List β}
    (hskip : ∀ state x, (early x = true → key x ∈ seenOf state) → step state x = state)
    (hnew : ∀ state x, early x = true → key x ∉ seenOf state →
      seenOf (step state x) = insert (key x) (seenOf state) ∧
        emitted (step state x) = emitted state ++ if late x then emit x else [])
    (state : σ) (xs : List α) :
    emitted (xs.foldl step state) =
      emitted state ++ (firstOfKey key early late (seenOf state) xs).flatMap emit := by
  induction xs generalizing state with
  | nil => simp [firstOfKey]
  | cons x xs ih =>
      rw [List.foldl_cons, ih]
      by_cases hseen : early x = true → key x ∈ seenOf state
      · rw [hskip state x hseen, firstOfKey_cons_skip xs hseen]
      · obtain ⟨hearly, hnot⟩ := Classical.not_imp.mp hseen
        obtain ⟨hkeys, hemitted⟩ := hnew state x hearly hnot
        rw [hkeys, hemitted, firstOfKey_cons_new xs hearly hnot]
        split <;> simp

/-- Where a key belongs to one element, the order does not matter. -/
theorem mem_firstOfKey_of_injOn {xs : List α} {x : α}
    (hinj : ∀ y ∈ xs, ∀ z ∈ xs, key y = key z → y = z) :
    x ∈ firstOfKey key early late ∅ xs ↔ x ∈ xs ∧ early x = true ∧ late x = true := by
  rw [mem_firstOfKey_iff]
  constructor
  · rintro ⟨hearly, hlate, -, front, back, rfl, -⟩
    exact ⟨by simp, hearly, hlate⟩
  · rintro ⟨hmem, hearly, hlate⟩
    obtain ⟨front, back, rfl, hfront⟩ := List.eq_append_cons_of_mem hmem
    refine ⟨hearly, hlate, Finset.notMem_empty _, front, back, rfl, fun y hy _ heq => ?_⟩
    obtain rfl := hinj y (by simp [hy]) x (by simp) heq
    exact hfront hy

end Scan

end F1X.Library
