import Mathlib.Data.Finset.Image
import Mathlib.Data.List.Induction

/-!
# Running intersections

An intersection computed one set at a time that starts afresh whenever nothing
is left: the empty set then stands both for "no set seen yet" and for "nothing
in common".
-/

namespace F1X.Library

variable {α β : Type*}

def common (sets : List (Finset α)) : Set α := {x | ∀ set ∈ sets, x ∈ set}

@[simp]
theorem mem_common {sets : List (Finset α)} {x : α} :
    x ∈ common sets ↔ ∀ set ∈ sets, x ∈ set :=
  Iff.rfl

theorem common_append_subset (first second : List (Finset α)) :
    common (first ++ second) ⊆ common first := by
  intro x hx set hset
  exact hx set (List.mem_append_left second hset)

/-- Every beginning has a common element. -/
def Overlapping (sets : List (Finset α)) : Prop :=
  ∀ start, start <+: sets → start ≠ [] → (common start).Nonempty

theorem Overlapping.nil : Overlapping ([] : List (Finset α)) := by
  intro start hstart hne
  exact absurd (List.prefix_nil.mp hstart) hne

theorem Overlapping.append_singleton {sets : List (Finset α)} {last : Finset α}
    (h : Overlapping sets) (hlast : (common (sets ++ [last])).Nonempty) :
    Overlapping (sets ++ [last]) := by
  intro start hstart hne
  rcases List.prefix_concat_iff.mp hstart with rfl | hbefore
  · exact hlast
  · exact h start hbefore hne

private theorem Overlapping.of_nonempty {sets : List (Finset α)} (h : (common sets).Nonempty) :
    Overlapping sets := by
  rintro start ⟨rest, rfl⟩ -
  exact h.mono (common_append_subset start rest)

/--
The sequences that split into consecutive runs, each of which has nothing in
common while all its shorter beginnings have.
-/
inductive Exhausted : List (Finset α) → Prop
  | nil : Exhausted []
  | append {before run : List (Finset α)} {last : Finset α} :
      Exhausted before → Overlapping run → common (run ++ [last]) = ∅ →
        Exhausted (before ++ (run ++ [last]))

private theorem Exhausted.common_eq_empty {sets : List (Finset α)} (h : Exhausted sets)
    (hne : sets ≠ []) : common sets = ∅ := by
  cases h with
  | nil => exact absurd rfl hne
  | append _ _ hempty =>
      rw [Set.eq_empty_iff_forall_notMem] at hempty ⊢
      intro x hx
      refine hempty x fun set hset => hx set ?_
      exact List.mem_append_right _ hset

/-- Every sequence is an exhausted one followed by the sets since the last fresh start. -/
theorem exhausted_split (sets : List (Finset α)) :
    ∃ before rest, sets = before ++ rest ∧ Exhausted before ∧ Overlapping rest := by
  induction sets using List.reverseRecOn with
  | nil => exact ⟨[], [], rfl, .nil, .nil⟩
  | append_singleton sets last ih =>
      obtain ⟨before, rest, rfl, hbefore, hrest⟩ := ih
      rcases Set.eq_empty_or_nonempty (common (rest ++ [last])) with hempty | hnonempty
      · exact ⟨before ++ (rest ++ [last]), [], by simp, .append hbefore hrest hempty, .nil⟩
      · exact ⟨before, rest ++ [last], by simp, hbefore, hrest.append_singleton hnonempty⟩

/-! ## The computation -/

section Running

variable [DecidableEq α]

/-- Intersect with the next set, or take it over when nothing is left. -/
def restart (current next : Finset α) : Finset α :=
  if current = ∅ then next else current ∩ next

def runningIntersection (sets : List (Finset α)) : Finset α :=
  sets.foldl restart ∅

@[simp]
theorem runningIntersection_nil : runningIntersection ([] : List (Finset α)) = ∅ := rfl

@[simp]
theorem runningIntersection_append_singleton (sets : List (Finset α)) (last : Finset α) :
    runningIntersection (sets ++ [last]) = restart (runningIntersection sets) last := by
  rw [runningIntersection, List.foldl_append]
  rfl

theorem exists_of_mem_runningIntersection {sets : List (Finset α)} {x : α}
    (h : x ∈ runningIntersection sets) : ∃ set ∈ sets, x ∈ set := by
  cases sets using List.reverseRecOn with
  | nil => exact absurd h (Finset.notMem_empty x)
  | append_singleton sets last =>
      rw [runningIntersection_append_singleton, restart] at h
      refine ⟨last, by simp, ?_⟩
      split_ifs at h
      · exact h
      · exact Finset.mem_of_mem_inter_right h

/-- The sets since the last fresh start determine the current intersection. -/
def Tracks (sets rest : List (Finset α)) : Prop :=
  ∀ x, x ∈ runningIntersection sets ↔ rest ≠ [] ∧ x ∈ common rest

theorem tracks_nil {sets : List (Finset α)} :
    Tracks sets [] ↔ runningIntersection sets = ∅ := by
  simp [Tracks, Finset.eq_empty_iff_forall_notMem]

theorem Tracks.next {sets rest : List (Finset α)} (htracks : Tracks sets rest)
    (hrest : Overlapping rest) (last : Finset α) (x : α) :
    x ∈ runningIntersection (sets ++ [last]) ↔ x ∈ common (rest ++ [last]) := by
  rw [runningIntersection_append_singleton, restart]
  by_cases hnil : rest = []
  · subst hnil
    rw [if_pos (tracks_nil.mp htracks)]
    simp
  · obtain ⟨y, hy⟩ := hrest rest List.prefix_rfl hnil
    have hnonempty : runningIntersection sets ≠ ∅ :=
      Finset.ne_empty_of_mem ((htracks y).mpr ⟨hnil, hy⟩)
    rw [if_neg hnonempty, Finset.mem_inter, htracks x]
    constructor
    · rintro ⟨⟨-, hx⟩, hlast⟩ set hset
      rcases List.mem_append.mp hset with hbefore | hset
      · exact hx set hbefore
      · rw [List.mem_singleton.mp hset]
        exact hlast
    · intro hx
      exact ⟨⟨hnil, common_append_subset rest [last] hx⟩, hx last (by simp)⟩

theorem Tracks.append_singleton {sets rest : List (Finset α)} (htracks : Tracks sets rest)
    (hrest : Overlapping rest) (last : Finset α) :
    Tracks (sets ++ [last]) (rest ++ [last]) := by
  intro x
  rw [htracks.next hrest last x]
  simp

theorem tracks_append {before rest : List (Finset α)}
    (hbefore : runningIntersection before = ∅) (hrest : Overlapping rest) :
    Tracks (before ++ rest) rest := by
  induction rest using List.reverseRecOn with
  | nil => simpa [tracks_nil] using hbefore
  | append_singleton rest last ih =>
      have hshorter : Overlapping rest := fun start hstart =>
        hrest start (hstart.trans (List.prefix_append rest [last]))
      rw [← List.append_assoc]
      exact (ih hshorter).append_singleton hshorter last

theorem Exhausted.runningIntersection_eq {sets : List (Finset α)} (h : Exhausted sets) :
    runningIntersection sets = ∅ := by
  induction h with
  | nil => rfl
  | append hbefore hrun hempty ih =>
      rw [Finset.eq_empty_iff_forall_notMem]
      intro x hx
      rw [← List.append_assoc, (tracks_append ih hrun).next hrun, hempty] at hx
      exact hx

/-- Exactly when the computation yields the intersection of all sets. -/
theorem runningIntersection_eq_common_iff {sets : List (Finset α)} (hne : sets ≠ []) :
    (∀ x, x ∈ runningIntersection sets ↔ x ∈ common sets) ↔
      (common sets).Nonempty ∨ Exhausted sets := by
  constructor
  · intro hexact
    obtain ⟨before, rest, rfl, hbefore, hrest⟩ := exhausted_split sets
    by_cases hnil : rest = []
    · subst hnil
      rw [List.append_nil]
      exact .inr hbefore
    · obtain ⟨x, hx⟩ := hrest rest List.prefix_rfl hnil
      have htracks := tracks_append hbefore.runningIntersection_eq hrest
      exact .inl ⟨x, (hexact x).mp ((htracks x).mpr ⟨hnil, hx⟩)⟩
  · rintro (hnonempty | hexhausted) x
    · have htracks := tracks_append runningIntersection_nil (.of_nonempty hnonempty)
      simpa [hne] using htracks x
    · simp only [hexhausted.runningIntersection_eq, hexhausted.common_eq_empty hne,
        Finset.notMem_empty, Set.mem_empty_iff_false]

theorem runningIntersection_image [DecidableEq β] {f : α → β} (hf : Function.Injective f)
    (sets : List (Finset α)) :
    runningIntersection (sets.map (Finset.image f)) =
      (runningIntersection sets).image f := by
  induction sets using List.reverseRecOn with
  | nil => rfl
  | append_singleton sets last ih =>
      rw [List.map_append, List.map_singleton, runningIntersection_append_singleton,
        runningIntersection_append_singleton, ih, restart, restart]
      by_cases hempty : runningIntersection sets = ∅
      · simp [hempty]
      · rw [if_neg hempty, if_neg (by simpa using hempty), Finset.image_inter _ _ hf]

end Running

end F1X.Library
