import F1X.Core
import F1X.Library.Overlay
import Mathlib.Data.Finset.Basic
import Mathlib.Data.Finset.Lattice.Lemmas

/-!
# The shared partition buffer

`Runtime::setPartition` and `Runtime::getPartition` of `repair/Runtime.cpp`.
The buffer is the shared memory object of `maxPartitionSize` entries; reading
or writing an entry at or beyond that bound is outside the mapping, so both
functions return an option.  An unordered set is iterated in an order of the
library's choosing: `setPartition` receives that order as a list.
-/

namespace F1X

open F1X.Library

def maxPartitionSize : Nat := 1000000

def inputTerminator : PatchID := ⟨0, 0, 0, 0, 0⟩
def outputTerminator : PatchID := ⟨0, 0, 0, 0, 1⟩

abbrev PartitionMemory := Nat → PatchID

def setPartitionFrom : Nat → List PatchID → PartitionMemory → Option PartitionMemory
  | index, [], memory =>
      if index < maxPartitionSize then
        some (Function.update memory index inputTerminator)
      else none
  | index, id :: ids, memory =>
      if index < maxPartitionSize then
        setPartitionFrom (index + 1) ids (Function.update memory index id)
      else none

def setPartition (ids : List PatchID) (memory : PartitionMemory) :
    Option PartitionMemory :=
  if ids.length < maxPartitionSize then setPartitionFrom 0 ids memory else none

/--
The loop of `getPartition`, from entry `index` on.  The test against the size
comes after the entry has been read, as in the source.
-/
def getPartitionFrom (memory : PartitionMemory) (index : Nat)
    (result : Finset PatchID) : Option (Finset PatchID) :=
  if index < maxPartitionSize then
    if memory index = outputTerminator then some result
    else if memory index = inputTerminator then some ∅
    else if index > maxPartitionSize then some ∅
    else getPartitionFrom memory (index + 1) (insert (memory index) result)
  else none
termination_by maxPartitionSize - index

def getPartition (memory : PartitionMemory) : Option (Finset PatchID) :=
  getPartitionFrom memory 0 ∅

theorem setPartitionFrom_eq (ids front : List PatchID) (memory : PartitionMemory)
    (hsize : front.length + ids.length < maxPartitionSize) :
    setPartitionFrom front.length ids (overlay front memory) =
      some (overlay (front ++ ids ++ [inputTerminator]) memory) := by
  induction ids generalizing front with
  | nil =>
      simp only [List.length_nil, Nat.add_zero] at hsize
      simp [setPartitionFrom, hsize, update_overlay]
  | cons id ids ih =>
      have hfront : front.length < maxPartitionSize := by omega
      have hnext := ih (front ++ [id]) (by simp at hsize ⊢; omega)
      simp only [List.length_append, List.length_singleton] at hnext
      simpa [setPartitionFrom, hfront, update_overlay] using hnext

theorem setPartition_eq (ids : List PatchID) (memory : PartitionMemory)
    (hsize : ids.length < maxPartitionSize) :
    setPartition ids memory =
      some (overlay (ids ++ [inputTerminator]) memory) := by
  have hloop := setPartitionFrom_eq ids [] memory (by simpa using hsize)
  simpa [setPartition, hsize] using hloop

theorem ne_terminator_of_base {id : PatchID} (h : id.base ≠ 0) :
    id ≠ outputTerminator ∧ id ≠ inputTerminator := by
  constructor <;>
  · rintro rfl
    exact h rfl

theorem getPartitionFrom_scan (front ids : List PatchID) (terminator : PatchID)
    (memory : PartitionMemory) (result : Finset PatchID)
    (hbase : ∀ id ∈ ids, id.base ≠ 0)
    (hsize : front.length + ids.length < maxPartitionSize) :
    getPartitionFrom (overlay (front ++ ids ++ [terminator]) memory)
        front.length result =
      getPartitionFrom (overlay (front ++ ids ++ [terminator]) memory)
        (front.length + ids.length) (result ∪ ids.toFinset) := by
  induction ids generalizing front result with
  | nil => simp
  | cons id ids ih =>
      have hentry : overlay (front ++ id :: ids ++ [terminator]) memory
          front.length = id := by
        rw [List.append_assoc, List.cons_append]
        exact overlay_append_length front id _ memory
      obtain ⟨houtput, hinput⟩ := ne_terminator_of_base (hbase id (by simp))
      have hnext := ih (front ++ [id]) (insert id result)
        (fun other hmem => hbase other (by simp [hmem]))
        (by simp at hsize ⊢; omega)
      rw [getPartitionFrom]
      simp only [List.length_append, List.length_nil, List.append_assoc,
        List.cons_append, List.nil_append, List.length_cons, Nat.zero_add] at hnext hentry hsize ⊢
      rw [if_pos (by omega), hentry, if_neg houtput, if_neg hinput,
        if_neg (by omega), hnext]
      congr 1
      · omega
      · ext other
        simp

theorem getPartition_output (ids : List PatchID) (memory : PartitionMemory)
    (hbase : ∀ id ∈ ids, id.base ≠ 0) (hsize : ids.length < maxPartitionSize) :
    getPartition (overlay (ids ++ [outputTerminator]) memory) =
      some ids.toFinset := by
  have hscan := getPartitionFrom_scan [] ids outputTerminator memory ∅ hbase
    (by simpa using hsize)
  simp only [List.length_nil, List.nil_append, Nat.zero_add,
    Finset.empty_union] at hscan
  rw [getPartition, hscan, getPartitionFrom, if_pos hsize,
    overlay_append_length, if_pos rfl]

theorem getPartition_input (ids : List PatchID) (memory : PartitionMemory)
    (hbase : ∀ id ∈ ids, id.base ≠ 0) (hsize : ids.length < maxPartitionSize) :
    getPartition (overlay (ids ++ [inputTerminator]) memory) = some ∅ := by
  have hscan := getPartitionFrom_scan [] ids inputTerminator memory ∅ hbase
    (by simpa using hsize)
  simp only [List.length_nil, List.nil_append, Nat.zero_add,
    Finset.empty_union] at hscan
  rw [getPartition, hscan, getPartitionFrom, if_pos hsize,
    overlay_append_length, if_neg (by decide), if_pos rfl]

end F1X
