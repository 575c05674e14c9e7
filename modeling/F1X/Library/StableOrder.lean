import Mathlib.Data.List.Basic
import Mathlib.Data.List.Perm.Subperm
import Mathlib.Order.Lattice

/-!
# Stable orders

Lists ordered by a key in which elements with equal keys keep their order.
-/

namespace F1X.Library

variable {α β : Type*} [LinearOrder β] {key key' : α → β} {xs ordered : List α}

/-- `ordered` lists the elements of `xs` by key, equal keys in the order of `xs`. -/
structure StableOrder (key : α → β) (xs ordered : List α) : Prop where
  perm : ordered.Perm xs
  sorted : ordered.Pairwise fun a b => key a ≤ key b
  stable : ∀ k, ordered.filter (key · = k) = xs.filter (key · = k)

/-- Merge sort compares with `<` only, as `std::stable_sort` does. -/
theorem mergeSort_stableOrder (key : α → β) (xs : List α) :
    StableOrder key xs (xs.mergeSort fun a b => !decide (key b < key a)) := by
  have hle (a b : α) : (!decide (key b < key a)) = true ↔ key a ≤ key b := by simp
  have htrans : ∀ a b c : α, (!decide (key b < key a)) = true →
      (!decide (key c < key b)) = true → (!decide (key c < key a)) = true := by
    intro a b c hab hbc
    rw [hle] at hab hbc ⊢
    exact le_trans hab hbc
  have htotal : ∀ a b : α, (!decide (key b < key a) || !decide (key a < key b)) = true := by
    intro a b
    rw [Bool.or_eq_true, hle, hle]
    exact le_total (key a) (key b)
  have hperm := List.mergeSort_perm xs fun a b => !decide (key b < key a)
  refine ⟨hperm, ?_, fun k => ?_⟩
  · exact (List.pairwise_mergeSort htrans htotal xs).imp fun {a b} h => (hle a b).mp h
  · have hequal : (xs.filter (key · = k)).Pairwise fun a b =>
        (!decide (key b < key a)) = true := by
      refine List.pairwise_of_forall_mem_list fun a ha b hb => ?_
      rw [List.mem_filter, decide_eq_true_iff] at ha hb
      rw [hle, ha.2, hb.2]
    have hsublist := (List.sublist_mergeSort htrans htotal hequal List.filter_sublist).filter
      (key · = k)
    simp only [List.filter_filter, Bool.and_self] at hsublist
    exact (hsublist.eq_of_length (hperm.filter _).length_eq.symm).symm

namespace StableOrder

theorem congr (h : StableOrder key xs ordered) (hkey : ∀ x ∈ xs, key x = key' x) :
    StableOrder key' xs ordered where
  perm := h.perm
  sorted := by
    have hmem : ∀ x ∈ ordered, key x = key' x := fun x hx => hkey x (h.perm.mem_iff.mp hx)
    refine h.sorted.imp_of_mem fun {a b} ha hb hab => ?_
    rwa [← hmem a ha, ← hmem b hb]
  stable := by
    intro k
    have hfilter (ys : List α) (hys : ∀ x ∈ ys, x ∈ xs) :
        ys.filter (key' · = k) = ys.filter (key · = k) :=
      List.filter_congr fun x hx => by rw [hkey x (hys x hx)]
    rw [hfilter ordered fun x => h.perm.mem_iff.mp, hfilter xs fun x => id, h.stable]

theorem filter (h : StableOrder key xs ordered) (p : α → Bool) :
    StableOrder key (xs.filter p) (ordered.filter p) where
  perm := h.perm.filter p
  sorted := h.sorted.filter p
  stable := by
    intro k
    rw [List.filter_comm, h.stable k, List.filter_comm]

theorem head {best : α} {rest : List α} (h : StableOrder key xs (best :: rest)) :
    (∀ x ∈ xs, key best ≤ key x) ∧
      ∃ before after, xs = before ++ best :: after ∧ ∀ x ∈ before, key best < key x := by
  have hmin : ∀ x ∈ xs, key best ≤ key x := by
    intro x hx
    rcases List.mem_cons.mp (h.perm.mem_iff.mpr hx) with rfl | hrest
    · exact le_refl _
    · exact List.rel_of_pairwise_cons h.sorted hrest
  refine ⟨hmin, ?_⟩
  have hstable := h.stable (key best)
  rw [List.filter_cons_of_pos (by simp)] at hstable
  obtain ⟨before, after, rfl, hbefore, -, -⟩ := List.filter_eq_cons_iff.mp hstable.symm
  refine ⟨before, after, rfl, fun x hx => ?_⟩
  have hne : key x ≠ key best := by simpa using hbefore x hx
  exact lt_of_le_of_ne (hmin x (List.mem_append_left _ hx)) hne.symm

end StableOrder

/-! ## The highest elements -/

/--
`result` lists the elements of `xs` above `floor` from the highest score down, equal
scores in the order of `xs`, and leaves out others only behind the first `limit`.
-/
structure IsTop (score : α → β) (floor : β) (limit : Nat) (xs result : List α) : Prop where
  subperm : result.Subperm xs
  length_le : result.length ≤ limit
  above : ∀ x ∈ result, floor < score x
  sorted : result.Pairwise fun a b => score b ≤ score a
  stable : ∀ k, result.filter (score · = k) <+: xs.filter (score · = k)
  omitted : ∀ x ∈ xs, x ∉ result →
    score x ≤ floor ∨ (result.length = limit ∧ ∀ y ∈ result, score x ≤ score y)

theorem isTop_of_append {score : α → β} {floor : β} {limit : Nat} {front back : List α}
    (h : StableOrder (OrderDual.toDual ∘ score) xs (front ++ back))
    (hlength : front.length ≤ limit) (habove : ∀ x ∈ front, floor < score x)
    (hcut : front.length = limit ∨ ∀ x ∈ back, score x ≤ floor) :
    IsTop score floor limit xs front where
  subperm := (List.sublist_append_left front back).subperm.trans h.perm.subperm
  length_le := hlength
  above := habove
  sorted := (List.pairwise_append.mp h.sorted).1
  stable := by
    intro k
    have hstable := h.stable (OrderDual.toDual k)
    rw [List.filter_append] at hstable
    exact ⟨_, hstable⟩
  omitted := by
    intro x hx hnot
    have hback : x ∈ back :=
      (List.mem_append.mp (h.perm.mem_iff.mpr hx)).resolve_left hnot
    rcases hcut with hfull | hfloor
    · exact Or.inr ⟨hfull, fun y hy => (List.pairwise_append.mp h.sorted).2.2 y hy x hback⟩
    · exact Or.inl (hfloor x hback)

theorem IsTop.eq_nil_iff {score : α → β} {floor : β} {limit : Nat} {result : List α}
    (h : IsTop score floor limit xs result) :
    result = [] ↔ limit = 0 ∨ ∀ x ∈ xs, score x ≤ floor := by
  constructor
  · rintro rfl
    by_cases hlimit : limit = 0
    · exact Or.inl hlimit
    · refine Or.inr fun x hx => (h.omitted x hx List.not_mem_nil).resolve_right fun hfull => ?_
      exact hlimit hfull.1.symm
  · rintro (rfl | hfloor)
    · exact List.eq_nil_of_length_eq_zero (Nat.le_zero.mp h.length_le)
    · refine List.eq_nil_iff_forall_not_mem.mpr fun x hx => ?_
      exact absurd (h.above x hx) (not_lt_of_ge (hfloor x (h.subperm.subset hx)))

end F1X.Library
