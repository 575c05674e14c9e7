import F1X.Runtime.Protocol
import Mathlib.Data.List.Count

/-!
# Tests killed inside the generated function

A test timeout stops the process after any number of complete evaluations and
any number of statements of one more.  During the first evaluation the list is
still closed by the input terminator and `getPartition` rejects it; from the
second evaluation on the output terminator of the previous one is still in
place, so ids that were not compared yet are returned.
-/

namespace F1X

open F1X.Library

section Interruption

variable {V : Type*} [DecidableEq V] [Zero V] {ids : Set PatchID}

def begun (evals : List (Evaluation V ids)) (last : Evaluation V ids)
    (steps : Nat) : List (Evaluation V ids) :=
  if steps = 0 then evals else evals ++ [last]

/-- No id of the partition was told apart from the current one. -/
def SoundPartition (current : PatchID) (evals : List (Evaluation V ids))
    (partition : Finset PatchID) : Prop :=
  ∀ id ∈ partition, ∀ evaluation ∈ evals,
    evaluation.outcome id = evaluation.outcome current

def comparedAfter (steps : Nat) : Nat := (steps + 1) / 3 - 1

/--
The ids that the interrupted evaluation has not overwritten: of the ids that
survived the complete evaluations, those behind as many entries as it has
found in agreement so far.
-/
def pending (evals : List (Evaluation V ids)) (last : Evaluation V ids)
    (current : PatchID) (listed : List PatchID) (steps : Nat) : List PatchID :=
  (keptByAll evals current listed).drop
    (((keptByAll evals current listed).take (comparedAfter steps)).countP
      (last.agrees current))

/--
An interruption does no harm before any evaluation was complete, between two
evaluations, after the terminator was written, or when every pending id agrees
with the current one in the interrupted evaluation.
-/
def HarmlessInterruption (evals : List (Evaluation V ids)) (last : Evaluation V ids)
    (current : PatchID) (listed : List PatchID) (steps : Nat) : Prop :=
  evals = [] ∨ steps = 0 ∨
    3 * (keptByAll evals current listed).length + 4 ≤ steps ∨
    ∀ id ∈ pending evals last current listed steps,
      last.outcome id = last.outcome current

private theorem interrupted_holds {current : PatchID} {listed : List PatchID}
    (h : Evaluable ids current listed) (evaluation : Evaluation V ids)
    {terminator : PatchID} (hterminator : terminator.base = 0)
    {memory : PartitionMemory} (hmemory : Holds listed terminator memory)
    {steps : Nat} (hsteps : steps < 3 * listed.length + 4) :
    Holds (evaluation.kept current (listed.take (comparedAfter steps)) ++
        listed.drop ((listed.take (comparedAfter steps)).countP
          (evaluation.agrees current)))
      terminator (evaluation.after true current memory steps).memory := by
  obtain ⟨background, rfl⟩ := hmemory
  let listing := h.listing evaluation terminator hterminator background
  obtain ⟨hframe, -⟩ :=
    (listing.frameAfter_reached steps).memory_of_lt listing hsteps
  have hlength : (evaluation.kept current (listed.take (comparedAfter steps))).length =
      (listed.take (comparedAfter steps)).countP (evaluation.agrees current) :=
    List.countP_eq_length_filter.symm
  have hle : (evaluation.kept current (listed.take (comparedAfter steps))).length ≤
      listed.length :=
    (evaluation.kept_length_le _ _).trans (List.length_take_le' _ _)
  refine ⟨background, ?_⟩
  change (listing.frameAfter steps).memory = _
  rw [hframe]
  change overlay (evaluation.kept current (listed.take (comparedAfter steps)))
    (overlay (listed ++ [terminator]) background) = _
  rw [overlay_overlay_drop (by simp; omega), List.drop_append_of_le_length hle,
    hlength, ← List.append_assoc]

theorem getPartition_interrupted {current : PatchID} {listed : List PatchID}
    (h : Evaluable ids current listed) (evals : List (Evaluation V ids))
    (last : Evaluation V ids) {memory : PartitionMemory}
    (hmemory : Holds listed inputTerminator memory) {fuel : Nat}
    (hfuel : 3 * listed.length + 5 ≤ fuel) {steps : Nat}
    (hsteps : steps < 3 * (keptByAll evals current listed).length + 4) :
    getPartition (last.after true current
        (evaluations fuel current (evals.map (·.toCall)) memory) steps).memory =
      some (if evals = [] then ∅ else
        (last.kept current ((keptByAll evals current listed).take
            (comparedAfter steps)) ++
          pending evals last current listed steps).toFinset) := by
  have hkept : Evaluable ids current (keptByAll evals current listed) := h.filter _
  obtain ⟨background, hbuffer⟩ := interrupted_holds hkept last (by split <;> rfl)
    (evaluations_holds h evals rfl hmemory hfuel) hsteps
  have hmem : ∀ id ∈ last.kept current ((keptByAll evals current listed).take
      (comparedAfter steps)) ++ pending evals last current listed steps,
      id ∈ keptByAll evals current listed := by
    intro id hid
    rcases List.mem_append.mp hid with hid | hid
    · exact List.mem_of_mem_take (List.mem_of_mem_filter hid)
    · exact List.mem_of_mem_drop hid
  have hbase : ∀ id ∈ last.kept current ((keptByAll evals current listed).take
      (comparedAfter steps)) ++ pending evals last current listed steps,
      id.base ≠ 0 :=
    fun id hid => hkept.base_ne id (hmem id hid)
  have hlength : (last.kept current ((keptByAll evals current listed).take
      (comparedAfter steps)) ++ pending evals last current listed steps).length <
      maxPartitionSize := by
    refine Nat.lt_of_le_of_lt ?_ hkept.fits
    have hcount : (last.kept current ((keptByAll evals current listed).take
        (comparedAfter steps))).length =
        ((keptByAll evals current listed).take (comparedAfter steps)).countP
          (last.agrees current) :=
      List.countP_eq_length_filter.symm
    have hle := (List.countP_le_length (p := last.agrees current)
      (l := (keptByAll evals current listed).take (comparedAfter steps))).trans
        (List.length_take_le' _ _)
    simp only [List.length_append, pending, List.length_drop, hcount]
    omega
  rw [hbuffer]
  by_cases hevals : evals = []
  · rw [if_pos hevals, if_pos hevals]
    exact getPartition_input _ _ hbase hlength
  · rw [if_neg hevals, if_neg hevals]
    exact getPartition_output _ _ hbase hlength

private theorem getPartition_completed {current : PatchID} {listed : List PatchID}
    (h : Evaluable ids current listed) (evals : List (Evaluation V ids))
    (last : Evaluation V ids) {memory : PartitionMemory}
    (hmemory : Holds listed inputTerminator memory) {fuel : Nat}
    (hfuel : 3 * listed.length + 5 ≤ fuel) {steps : Nat}
    (hsteps : 3 * (keptByAll evals current listed).length + 4 ≤ steps) :
    getPartition (last.after true current
        (evaluations fuel current (evals.map (·.toCall)) memory) steps).memory =
      some (last.kept current (keptByAll evals current listed)).toFinset := by
  have hkept : Evaluable ids current (keptByAll evals current listed) := h.filter _
  obtain ⟨background, hbuffer⟩ := evaluations_holds h evals rfl hmemory hfuel
  let listing := hkept.listing last
    (if evals = [] then inputTerminator else outputTerminator)
    (by split <;> rfl) background
  obtain ⟨hframe, -, -⟩ :=
    (listing.frameAfter_reached steps).closed_of_le listing hsteps
  rw [hbuffer]
  change getPartition (listing.frameAfter steps).memory = _
  rw [hframe]
  exact getPartition_output _ _ (hkept.filter _).base_ne (hkept.filter _).fits

omit [Zero V] in
theorem outcome_eq_of_kept {evals : List (Evaluation V ids)} {last evaluation : Evaluation V ids}
    {current id : PatchID} {listed : List PatchID} (hid : id ∈ keptByAll evals current listed)
    (hlast : last.outcome id = last.outcome current) (hmem : evaluation ∈ evals ++ [last]) :
    evaluation.outcome id = evaluation.outcome current := by
  rcases List.mem_append.mp hmem with hcomplete | hbroken
  · exact (mem_keptByAll.mp hid).2 evaluation hcomplete
  · rw [List.mem_singleton.mp hbroken]
    exact hlast

/--
After a kill at any point the partition is sound exactly when the interruption
was harmless.
-/
theorem killed_partition_sound_iff (listed : List PatchID) (current : PatchID)
    (hsize : listed.length < maxPartitionSize)
    (hbase : ∀ id ∈ listed, id.base ≠ 0)
    (evals : List (Evaluation V {id | id = current ∨ id ∈ listed}))
    (last : Evaluation V {id | id = current ∨ id ∈ listed})
    (before : PartitionMemory) (fuel : Nat)
    (hfuel : 3 * listed.length + 5 ≤ fuel) (steps : Nat) :
    ∃ start partition, setPartition listed before = some start ∧
      getPartition (last.after true current
        (evaluations fuel current (evals.map (·.toCall)) start) steps).memory =
          some partition ∧
      (SoundPartition current (begun evals last steps) partition ↔
        HarmlessInterruption evals last current listed steps) := by
  obtain ⟨start, hstart, hholds⟩ := setPartition_holds before hsize
  have hevaluable : Evaluable {id | id = current ∨ id ∈ listed} current listed :=
    ⟨Or.inl rfl, fun id hid => Or.inr hid, hbase, hsize⟩
  have hkept : ∀ id ∈ keptByAll evals current listed, ∀ evaluation ∈ evals,
      evaluation.outcome id = evaluation.outcome current :=
    fun id hid => (mem_keptByAll.mp hid).2
  by_cases hsteps : steps < 3 * (keptByAll evals current listed).length + 4
  · refine ⟨start, _, hstart,
      getPartition_interrupted hevaluable evals last hholds hfuel hsteps, ?_⟩
    by_cases hevals : evals = []
    · simp [hevals, SoundPartition, HarmlessInterruption]
    rw [if_neg hevals]
    by_cases hzero : steps = 0
    · refine iff_of_true ?_ (.inr (.inl hzero))
      intro id hid evaluation hevaluation
      rw [begun, if_pos hzero] at hevaluation
      refine hkept id ?_ evaluation hevaluation
      rcases List.mem_append.mp (List.mem_toFinset.mp hid) with hid | hid
      · exact List.mem_of_mem_take (List.mem_of_mem_filter hid)
      · exact List.mem_of_mem_drop hid
    · rw [begun, if_neg hzero]
      constructor
      · intro hsound
        refine .inr (.inr (.inr fun id hid => ?_))
        exact hsound id (by simp [hid]) last (by simp)
      · intro hharmless id hid evaluation hevaluation
        have hpending : ∀ id ∈ pending evals last current listed steps,
            last.outcome id = last.outcome current := by
          rcases hharmless with h | h | h | h
          · exact absurd h hevals
          · exact absurd h hzero
          · omega
          · exact h
        rcases List.mem_append.mp (List.mem_toFinset.mp hid) with hid | hid
        · obtain ⟨hlisted, hagrees⟩ := List.mem_filter.mp hid
          refine outcome_eq_of_kept (List.mem_of_mem_take hlisted) ?_ hevaluation
          simpa [Evaluation.agrees] using hagrees
        · exact outcome_eq_of_kept (List.mem_of_mem_drop hid) (hpending id hid) hevaluation
  · have hlate := Nat.le_of_not_lt hsteps
    refine ⟨start, _, hstart,
      getPartition_completed hevaluable evals last hholds hfuel hlate, ?_⟩
    refine iff_of_true ?_ (.inr (.inr (.inl hlate)))
    intro id hid evaluation hevaluation
    obtain ⟨hlisted, hagrees⟩ := List.mem_filter.mp (List.mem_toFinset.mp hid)
    rw [begun, if_neg (by omega)] at hevaluation
    refine outcome_eq_of_kept hlisted ?_ hevaluation
    simpa [Evaluation.agrees] using hagrees

/--
Two ids agree in one complete evaluation; the second one panics in the next,
which is stopped after its first statement.  Both ids are returned.
-/
theorem killed_partition_unsound :
    ∃ start partition,
      setPartition [⟨1, 0, 0, 0, 0⟩, ⟨2, 0, 0, 0, 0⟩] (fun _ => inputTerminator) =
        some start ∧
      getPartition ((Evaluation.ofOutcome (V := Nat) Set.univ fun id =>
          if id.base = 1 then .value 0 else .panic).after true ⟨1, 0, 0, 0, 0⟩
        (evaluations 11 ⟨1, 0, 0, 0, 0⟩
          [(Evaluation.ofOutcome (V := Nat) Set.univ fun _ => .value 0).toCall]
          start) 1).memory = some partition ∧
      ¬ SoundPartition ⟨1, 0, 0, 0, 0⟩
        (begun [Evaluation.ofOutcome (V := Nat) Set.univ fun _ => .value 0]
          (Evaluation.ofOutcome _ fun id => if id.base = 1 then .value 0 else .panic) 1)
        partition := by
  obtain ⟨start, hstart, hholds⟩ :=
    @setPartition_holds [⟨1, 0, 0, 0, 0⟩, ⟨2, 0, 0, 0, 0⟩]
      (fun _ => inputTerminator) (by decide)
  have hevaluable : Evaluable (Set.univ : Set PatchID) ⟨1, 0, 0, 0, 0⟩
      [⟨1, 0, 0, 0, 0⟩, ⟨2, 0, 0, 0, 0⟩] :=
    ⟨trivial, fun _ _ => trivial, by decide, by decide⟩
  have hread := getPartition_interrupted (V := Nat) hevaluable
    [Evaluation.ofOutcome _ fun _ => .value 0]
    (Evaluation.ofOutcome _ fun id => if id.base = 1 then .value 0 else .panic)
    hholds (show 11 ≤ 11 from le_rfl) (show 1 < 10 by decide)
  refine ⟨start, _, hstart, hread, ?_⟩
  intro hsound
  have hsecond := hsound ⟨2, 0, 0, 0, 0⟩ (by decide)
    (Evaluation.ofOutcome _ fun id => if id.base = 1 then .value 0 else .panic)
    (by simp [begun])
  simp [Evaluation.ofOutcome] at hsecond

theorem killed_partition_sound_iff_between :
    ∃ start partition,
      setPartition [⟨1, 0, 0, 0, 0⟩, ⟨2, 0, 0, 0, 0⟩] (fun _ => inputTerminator) =
        some start ∧
      getPartition ((Evaluation.ofOutcome (V := Nat)
          {id | id = ⟨1, 0, 0, 0, 0⟩ ∨ id ∈ [⟨1, 0, 0, 0, 0⟩, ⟨2, 0, 0, 0, 0⟩]} fun id =>
            if id.base = 1 then .value 0 else .panic).after true ⟨1, 0, 0, 0, 0⟩
        (evaluations 11 ⟨1, 0, 0, 0, 0⟩
          [(Evaluation.ofOutcome (V := Nat)
          {id | id = ⟨1, 0, 0, 0, 0⟩ ∨ id ∈ [⟨1, 0, 0, 0, 0⟩, ⟨2, 0, 0, 0, 0⟩]}
          fun _ => .value 0).toCall]
          start) 0).memory = some partition ∧
      SoundPartition ⟨1, 0, 0, 0, 0⟩
        [Evaluation.ofOutcome (V := Nat)
          {id | id = ⟨1, 0, 0, 0, 0⟩ ∨ id ∈ [⟨1, 0, 0, 0, 0⟩, ⟨2, 0, 0, 0, 0⟩]}
          fun _ => .value 0] partition := by
  obtain ⟨start, partition, hstart, hpartition, hiff⟩ :=
    killed_partition_sound_iff (V := Nat) [⟨1, 0, 0, 0, 0⟩, ⟨2, 0, 0, 0, 0⟩]
      ⟨1, 0, 0, 0, 0⟩ (by decide) (by decide)
      [Evaluation.ofOutcome _ fun _ => .value 0]
      (Evaluation.ofOutcome _ fun id => if id.base = 1 then .value 0 else .panic)
      (fun _ => inputTerminator) 11 (by decide) 0
  exact ⟨start, partition, hstart, hpartition, hiff.mpr (.inr (.inl rfl))⟩

end Interruption

end F1X
