import F1X.Repair.PlainSearch
import F1X.Synthesis.PatchCount
import Mathlib.Data.Finset.Card

/-!
# The size of a partition

`setPartition` of `repair/Runtime.cpp` copies all patch ids of an application into
a buffer of fixed size, while the number of these ids grows with the product of
the editable nodes, the pairs of components and the parameter values.
-/

namespace F1X

open F1X.Library F1X.generator F1X.synthesis

/--
The assertion of `setPartition` holds for the ids of every application, and the
loop behind it stays inside the buffer also without the assertion.
-/
def PartitionsFit (searchSpace : List Patch) : Prop :=
  ∀ app, (getPartitionable searchSpace app).card < maxPartitionSize ∧
    ∀ ids memory, ids.Nodup → ids.toFinset = getPartitionable searchSpace app →
      (setPartition ids memory).isSome ∧ (setPartitionFrom 0 ids memory).isSome

private theorem partitionsFit_iff_card {searchSpace : List Patch} :
    PartitionsFit searchSpace ↔
      ∀ app, (getPartitionable searchSpace app).card < maxPartitionSize := by
  refine ⟨fun h app => (h app).1, fun h app => ⟨h app, fun ids memory hnodup hids => ?_⟩⟩
  have hsize : ids.length < maxPartitionSize := by
    rw [← List.toFinset_card_of_nodup hnodup, hids]
    exact h app
  have hloop := setPartitionFrom_eq ids [] memory (by simpa using hsize)
  rw [List.length_nil, overlay_nil] at hloop
  simp [setPartition_eq ids memory hsize, hloop]

private theorem card_getPartitionable {searchSpace : List Patch}
    (hdistinct : (searchSpace.map (·.id)).Nodup) (app : AppID) :
    (getPartitionable searchSpace app).card =
      searchSpace.countP fun patch => decide (patch.app.id = app) := by
  have hids : getPartitionable searchSpace app =
      ((searchSpace.filter fun patch => decide (patch.app.id = app)).map (·.id)).toFinset := by
    ext id
    simp [mem_getPartitionable, and_assoc, and_left_comm, and_comm]
  have hnodup := hdistinct.sublist ((List.filter_sublist
    (p := fun patch : Patch => decide (patch.app.id = app)) (l := searchSpace)).map (·.id))
  rw [hids, List.toFinset_card_of_nodup hnodup, List.length_map, List.countP_eq_length_filter]

private theorem countP_appended {cfg : Config} {sas : List SchemaApplication}
    (hfree : ∀ sa ∈ sas, sa.AbstractFree) {parts : List (List Patch)}
    (h : List.Forall₂ (Appended cfg) sas parts) (app : AppID) :
    (parts.flatten.countP fun patch => decide (patch.app.id = app)) =
      ((sas.filter fun sa => decide (sa.id = app)).map fun sa =>
        patchCount (cfg.paramBound sa.context) sa).sum := by
  induction h with
  | nil => rfl
  | @cons sa patches sas parts hhead _ ih =>
      obtain ⟨hfirst, hrest⟩ := List.forall_mem_cons.mp hfree
      obtain ⟨happ, hlength⟩ := hhead.patchCount hfirst
      have hpatches : (patches.countP fun patch => decide (patch.app.id = app)) =
          if sa.id = app then patchCount (cfg.paramBound sa.context) sa else 0 := by
        split_ifs with hid
        · rw [← hlength, List.countP_eq_length]
          intro patch hpatch
          simp [happ patch hpatch, hid]
        · rw [List.countP_eq_zero]
          intro patch hpatch
          simp [happ patch hpatch, hid]
      rw [List.flatten_cons, List.countP_append, hpatches, ih hrest, List.filter_cons]
      split_ifs <;> simp_all

theorem card_generateSearchSpace {cfg : Config} {fuel : Nat} {sas : List SchemaApplication}
    (hfree : ∀ sa ∈ sas, sa.AbstractFree) {codes : List DispatchCode}
    {searchSpace : List Patch}
    (h : generateSearchSpace cfg fuel sas = .ok (codes, searchSpace)) (app : AppID) :
    (getPartitionable searchSpace app).card =
      ((sas.filter fun sa => decide (sa.id = app)).map fun sa =>
        patchCount (cfg.paramBound sa.context) sa).sum := by
  have hdistinct : (searchSpace.map (·.id)).Nodup := by
    obtain ⟨patches, hpatches, segments⟩ := partitioningFunctionsFrom_segments hfree h
    rw [List.nil_append] at hpatches
    cases hpatches
    exact segments.ids_nodup
  obtain ⟨parts, rfl, happended⟩ := generateSearchSpace_appended hfree h
  rw [card_getPartitionable hdistinct, countP_appended hfree happended]

theorem filter_of_distinct {sas : List SchemaApplication} (hdistinct : (sas.map (·.id)).Nodup)
    {sa : SchemaApplication} (hmem : sa ∈ sas) :
    (sas.filter fun other => decide (other.id = sa.id)) = [sa] := by
  induction sas with
  | nil => cases hmem
  | cons first sas ih =>
      obtain ⟨hfirst, hrest⟩ := List.nodup_cons.mp hdistinct
      have hne {other : SchemaApplication} (hother : other ∈ sas) : other.id ≠ first.id :=
        fun heq => hfirst (List.mem_map.mpr ⟨other, hother, heq⟩)
      rcases List.mem_cons.mp hmem with rfl | hmem
      · have hnone : (sas.filter fun other => decide (other.id = sa.id)) = [] := by
          rw [List.filter_eq_nil_iff]
          intro other hother
          simpa using hne hother
        simp [hnone]
      · rw [List.filter_cons, if_neg (by simpa using (hne hmem).symm), ih hrest hmem]

theorem partitionsFit_iff {cfg : Config} {fuel : Nat} {sas : List SchemaApplication}
    (hfree : ∀ sa ∈ sas, sa.AbstractFree) (hdistinct : (sas.map (·.id)).Nodup)
    {codes : List DispatchCode} {searchSpace : List Patch}
    (h : generateSearchSpace cfg fuel sas = .ok (codes, searchSpace)) :
    PartitionsFit searchSpace ↔
      ∀ sa ∈ sas, patchCount (cfg.paramBound sa.context) sa < maxPartitionSize := by
  rw [partitionsFit_iff_card]
  constructor
  · intro hcard sa hmem
    simpa [card_generateSearchSpace hfree h, filter_of_distinct hdistinct hmem] using hcard sa.id
  · intro hcount app
    rw [card_generateSearchSpace hfree h]
    by_cases happ : ∃ sa ∈ sas, sa.id = app
    · obtain ⟨sa, hmem, rfl⟩ := happ
      simpa [filter_of_distinct hdistinct hmem] using hcount sa hmem
    · have hnone : (sas.filter fun sa => decide (sa.id = app)) = [] := by
        rw [List.filter_eq_nil_iff]
        intro sa hmem hid
        exact happ ⟨sa, hmem, by simpa using hid⟩
      simp [hnone, maxPartitionSize]

/-! ## A long condition -/

def numbered (i : Nat) : Expression :=
  { kind := .variable, type := .integer, op := .none, rawType := "int",
    repr := "x" ++ toString i, args := [] }

/-- `x0 < x1 && x1 < x2 && ...` with `n + 1` comparisons. -/
def increasing : Nat → Expression
  | 0 => applyBoolOperator .lt (numbered 0) (numbered 1)
  | n + 1 =>
      applyBoolOperator .and (increasing n)
        (applyBoolOperator .lt (numbered (n + 1)) (numbered (n + 2)))

/-- A condition of ten comparisons in the scope of 63 variables of type `int`. -/
def longCondition : SchemaApplication where
  id := 1
  schema := .expression
  location := ⟨0, 1, 1, 1, 1⟩
  context := .condition
  original := increasing 9
  components := (List.range 63).map numbered
  completePointeeTypes := []

theorem longCondition_abstractFree : longCondition.AbstractFree where
  original := rfl
  components := by
    intro component hmem
    obtain ⟨i, -, rfl⟩ := List.mem_map.mp hmem
    rfl

private theorem increasing_wellFormed (n : Nat) : (increasing n).WellFormed := by
  have hcomparison (n : Nat) :
      (applyBoolOperator .lt (numbered n) (numbered (n + 1))).WellFormed :=
    wellFormed_applyBoolOperator (.leaf _ _ _ _) (.leaf _ _ _ _) rfl
  induction n with
  | zero => exact hcomparison 0
  | succ n ih => exact wellFormed_applyBoolOperator ih (hcomparison (n + 1)) rfl

private theorem increasing_synthesizable (n : Nat) : (increasing n).Synthesizable := by
  have hcomparison (n : Nat) :
      (applyBoolOperator .lt (numbered n) (numbered (n + 1))).Synthesizable :=
    .binary _ _ _ rfl (by simp) (.leaf (by decide) _ _ _ _) (.leaf (by decide) _ _ _ _)
  induction n with
  | zero => exact hcomparison 0
  | succ n ih => exact .binary _ _ _ rfl (by simp) ih (hcomparison (n + 1))

private theorem longCondition_wellFormed : longCondition.WellFormed where
  original := increasing_wellFormed 9
  components := by
    intro component hmem
    obtain ⟨i, -, rfl⟩ := List.mem_map.mp hmem
    exact .leaf _ _ _ _

theorem longCondition_generated :
    ∃ fuel codes searchSpace,
      generateSearchSpace .default fuel [longCondition] = .ok (codes, searchSpace) := by
  refine generateSearchSpace_singleton .default longCondition_abstractFree
    longCondition_wellFormed ?_ (increasing_synthesizable 9)
  intro component hmem
  obtain ⟨i, -, rfl⟩ := List.mem_map.mp hmem
  exact .mk (by decide) (.inl rfl) _ _

private theorem patchCount_longCondition :
    patchCount (Config.default.paramBound longCondition.context) longCondition = 1018721 := by
  decide +kernel

theorem longCondition_overflows :
    (∀ sa ∈ [longCondition], sa.AbstractFree) ∧ ([longCondition].map (·.id)).Nodup ∧
      ∃ fuel codes searchSpace,
        generateSearchSpace .default fuel [longCondition] = .ok (codes, searchSpace) ∧
          ¬ PartitionsFit searchSpace := by
  have hfree : ∀ sa ∈ [longCondition], sa.AbstractFree := by
    simpa using longCondition_abstractFree
  obtain ⟨fuel, codes, searchSpace, h⟩ := longCondition_generated
  refine ⟨hfree, by simp, fuel, codes, searchSpace, h, fun hfit => ?_⟩
  have hcard := (hfit longCondition.id).1
  rw [card_generateSearchSpace hfree h] at hcard
  have hcount := patchCount_longCondition
  simp [hcount, maxPartitionSize] at hcard

theorem partitionsFit_iff_longCondition :
    ∃ fuel codes searchSpace,
      generateSearchSpace .default fuel [longCondition] = .ok (codes, searchSpace) ∧
        (PartitionsFit searchSpace ↔
          ∀ sa ∈ [longCondition],
            patchCount (Config.default.paramBound sa.context) sa < maxPartitionSize) := by
  obtain ⟨fuel, codes, searchSpace, h⟩ := longCondition_generated
  exact ⟨fuel, codes, searchSpace, h,
    partitionsFit_iff (by simpa using longCondition_abstractFree) (by simp) h⟩

end F1X
