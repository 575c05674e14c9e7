import F1X.Core
import F1X.Library.Names
import F1X.Library.StableOrder
import Mathlib.Algebra.Order.Ring.Rat
import Mathlib.Tactic.Linarith

/-!
# Patch prioritization

The cost function of `repair/Prioritization.cpp` and the stable sort `prioritize`
of `repair/Repair.cpp`.  Costs are exact rationals instead of `double`s.
-/

namespace F1X

open Library

def syntacticDiff (el : Patch) : ℚ :=
  let result : ℚ := el.metadata.distance
  let good : ℚ := 1 / 5
  let ok : ℚ := 1 / 10
  match el.app.schema with
  | .expression =>
      match el.metadata.rule with
      | .operator => result - good
      | .swaping => result - good
      | .simplification => result - good
      | .generalization => result - good
      | .substitution => result - good
      | .loosening => result - ok
      | .tightening => result - ok
      | _ => result
  | .ifGuard => result - good
  | _ => result

/-- The map `cost` of `repair`; a missing key reads as zero. -/
def patchCost (searchSpace : List Patch) : PatchID → ℚ :=
  assignAll (fun _ => 0) (searchSpace.map fun el => (el.id, syntacticDiff el))

def prioritize (searchSpace : List Patch) (cost : PatchID → ℚ) : List Patch :=
  searchSpace.mergeSort fun a b => !decide (cost b.id < cost a.id)

/-! ## Cost and distance -/

theorem syntacticDiff_bounds (el : Patch) :
    (el.metadata.distance : ℚ) - 1 / 5 ≤ syntacticDiff el ∧
      syntacticDiff el ≤ el.metadata.distance := by
  simp only [syntacticDiff]
  split
  · split <;> constructor <;> linarith
  · constructor <;> linarith
  · constructor <;> linarith

theorem distance_le_of_syntacticDiff_le {a b : Patch}
    (h : syntacticDiff a ≤ syntacticDiff b) :
    a.metadata.distance ≤ b.metadata.distance := by
  have ha := (syntacticDiff_bounds a).1
  have hb := (syntacticDiff_bounds b).2
  have hlt : (a.metadata.distance : ℚ) < b.metadata.distance + 1 := by linarith
  have hnat : a.metadata.distance < b.metadata.distance + 1 := by exact_mod_cast hlt
  omega

/-! ## The sorted search space -/

theorem patchCost_eq {searchSpace : List Patch} {el : Patch}
    (hids : (searchSpace.map Patch.id).Nodup) (hel : el ∈ searchSpace) :
    patchCost searchSpace el.id = syntacticDiff el := by
  have hentry : (el.id, patchCost searchSpace el.id) ∈
      searchSpace.map fun el => (el.id, syntacticDiff el) :=
    assignAll_mem _ (by simpa using ⟨el, hel, rfl⟩)
  obtain ⟨other, hother, heq⟩ := List.mem_map.mp hentry
  obtain ⟨hid, hcost⟩ := Prod.mk.inj heq
  rw [List.inj_on_of_nodup_map hids hother hel hid] at hcost
  exact hcost.symm

theorem prioritize_stableOrder {searchSpace : List Patch}
    (hids : (searchSpace.map Patch.id).Nodup) :
    StableOrder syntacticDiff searchSpace
      (prioritize searchSpace (patchCost searchSpace)) :=
  (mergeSort_stableOrder (fun el : Patch => patchCost searchSpace el.id) searchSpace).congr
    fun _ hel => patchCost_eq hids hel

end F1X
