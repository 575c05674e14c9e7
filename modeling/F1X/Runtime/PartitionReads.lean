import F1X.Runtime.Partition
import Mathlib.Data.Nat.Find
import Mathlib.Data.Finset.Image
import Mathlib.Order.Interval.Finset.Nat

/-!
# Reading a partition buffer of any contents

The program under repair can write to the shared buffer, so `getPartition` may
find anything in it.  What it returns is settled by the first terminator; the
guard against a buffer without one comes after the read and compares with `>`.
-/

namespace F1X

def IsTerminator (id : PatchID) : Prop := id = outputTerminator ∨ id = inputTerminator

instance : DecidablePred IsTerminator := fun id =>
  inferInstanceAs (Decidable (id = outputTerminator ∨ id = inputTerminator))

/-- An output terminator inside the buffer, no input terminator before it. -/
def TerminatedAt (memory : PartitionMemory) (index : Nat) : Prop :=
  index < maxPartitionSize ∧ memory index = outputTerminator ∧
    ∀ earlier < index, memory earlier ≠ inputTerminator

/-- What the partition left in the buffer is: the entries before the first output terminator. -/
noncomputable def partitionResult (memory : PartitionMemory) : Finset PatchID :=
  open Classical in
  if h : ∃ index, TerminatedAt memory index then
    (Finset.range (Nat.find h)).image memory
  else ∅

section Scan

variable {memory : PartitionMemory}

private theorem getPartitionFrom_skip {stop : Nat} (count index : Nat) (result : Finset PatchID)
    (hcount : index + count = stop) (hstop : stop ≤ maxPartitionSize)
    (hskip : ∀ i, index ≤ i → i < stop → ¬ IsTerminator (memory i)) :
    getPartitionFrom memory index result =
      getPartitionFrom memory stop (result ∪ (Finset.Ico index stop).image memory) := by
  induction count generalizing index result with
  | zero =>
      have hsame : index = stop := by omega
      rw [hsame, Finset.Ico_self, Finset.image_empty, Finset.union_empty]
  | succ count ih =>
      have hentry := hskip index (Nat.le_refl _) (by omega)
      simp only [IsTerminator, not_or] at hentry
      have hIco : Finset.Ico index stop = insert index (Finset.Ico (index + 1) stop) := by
        ext i
        simp only [Finset.mem_Ico, Finset.mem_insert]
        omega
      rw [getPartitionFrom, if_pos (by omega), if_neg hentry.1, if_neg hentry.2,
        if_neg (by omega),
        ih (index + 1) _ (by omega) (fun i hi hlt => hskip i (by omega) hlt), hIco,
        Finset.image_insert, Finset.insert_union, Finset.union_insert]

theorem getPartition_skip {stop : Nat} (hstop : stop ≤ maxPartitionSize)
    (hskip : ∀ i < stop, ¬ IsTerminator (memory i)) :
    getPartition memory =
      getPartitionFrom memory stop ((Finset.range stop).image memory) := by
  have hscan := getPartitionFrom_skip stop 0 ∅ (by omega) hstop (fun i _ => hskip i)
  rwa [Finset.empty_union, ← Finset.range_eq_Ico] at hscan

/-- Without a terminator the loop reads the entry after the last one. -/
theorem getPartition_unterminated
    (hnone : ∀ i < maxPartitionSize, ¬ IsTerminator (memory i)) :
    getPartition memory = none := by
  rw [getPartition_skip (Nat.le_refl _) hnone, getPartitionFrom, if_neg (by omega)]

private theorem partitionResult_of_output {index : Nat} (hlt : index < maxPartitionSize)
    (hentry : memory index = outputTerminator)
    (hskip : ∀ i < index, ¬ IsTerminator (memory i)) :
    partitionResult memory = (Finset.range index).image memory := by
  classical
  have hat : TerminatedAt memory index :=
    ⟨hlt, hentry, fun i hi hinput => hskip i hi (Or.inr hinput)⟩
  have hex : ∃ index, TerminatedAt memory index := ⟨index, hat⟩
  rw [partitionResult, dif_pos hex]
  congr 2
  rw [Nat.find_eq_iff]
  exact ⟨hat, fun i hi hother => hskip i hi (Or.inl hother.2.1)⟩

private theorem partitionResult_of_input {index : Nat} (hentry : memory index = inputTerminator)
    (hskip : ∀ i < index, ¬ IsTerminator (memory i)) :
    partitionResult memory = ∅ := by
  rw [partitionResult, dif_neg]
  rintro ⟨other, -, houtput, hbefore⟩
  rcases Nat.lt_trichotomy other index with hlt | heq | hgt
  · exact hskip other hlt (Or.inl houtput)
  · rw [heq, hentry] at houtput
    exact absurd houtput (by decide)
  · exact hbefore index hgt hentry

private theorem getPartition_first {index : Nat} (hlt : index < maxPartitionSize)
    (hentry : IsTerminator (memory index)) (hskip : ∀ i < index, ¬ IsTerminator (memory i)) :
    getPartition memory = some (partitionResult memory) := by
  rw [getPartition_skip (Nat.le_of_lt hlt) hskip, getPartitionFrom, if_pos hlt]
  rcases hentry with houtput | hinput
  · rw [if_pos houtput, partitionResult_of_output hlt houtput hskip]
  · rw [hinput, if_neg (by decide), if_pos rfl, partitionResult_of_input hinput hskip]

end Scan

/--
`getPartition` stays inside the buffer and returns what was left in it exactly
when some entry of the buffer is a terminator.
-/
theorem getPartition_reads_buffer_iff (memory : PartitionMemory) :
    getPartition memory = some (partitionResult memory) ↔
      ∃ index < maxPartitionSize, IsTerminator (memory index) := by
  constructor
  · intro hresult
    by_contra hnone
    push Not at hnone
    rw [getPartition_unterminated hnone] at hresult
    cases hresult
  · intro hex
    have hfirst := Nat.find_spec hex
    refine getPartition_first hfirst.1 hfirst.2 (fun i hi hterminator => ?_)
    exact Nat.find_min hex hi ⟨by omega, hterminator⟩

/-- A buffer filled with one candidate is read past its end. -/
theorem getPartition_reads_past_buffer :
    getPartition (fun _ => ⟨1, 0, 0, 0, 0⟩) = none ∧
      partitionResult (fun _ => ⟨1, 0, 0, 0, 0⟩) = ∅ := by
  constructor
  · exact getPartition_unterminated (fun _ _ => by decide)
  · have hentry : (⟨1, 0, 0, 0, 0⟩ : PatchID) ≠ outputTerminator := by decide
    rw [partitionResult, dif_neg]
    rintro ⟨index, -, houtput, -⟩
    exact hentry houtput

end F1X
