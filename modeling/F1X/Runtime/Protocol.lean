import F1X.Runtime.GeneratedFunction
import Mathlib.Algebra.GroupWithZero.Nat
import Mathlib.Data.Set.Basic
import Mathlib.Data.List.TakeDrop

/-!
# The partition buffer protocol

One evaluation reads the list of ids that lies in front of the buffer, keeps
the ids that agree with the current candidate, and closes them with the output
terminator.  `Reached` describes the frame after every number of statements;
`step_reached` shows that every statement keeps it.  The facts about finished
calls, about sequences of calls and about interrupted calls all follow from it.
-/

namespace F1X

open F1X.Library

variable {V : Type*}

/-- A call in which every id of `ids` has a definite outcome. -/
structure Evaluation (V : Type*) (ids : Set PatchID) extends Call V where
  outcome : PatchID → Outcome V
  gives : ∀ id ∈ ids, ∀ locals : Locals V, locals.currentPanic = false →
    ∃ after, dispatch id locals = some after ∧ after.outcome = outcome id

def Evaluation.ofOutcome [Zero V] (ids : Set PatchID) (outcome : PatchID → Outcome V) :
    Evaluation V ids where
  dispatch id locals :=
    match outcome id with
    | .panic => some { locals with currentPanic := true }
    | .value result => some { locals with baseValue := result }
  uninitialized := ⟨0, 0, 0, false⟩
  outcome := outcome
  gives id _ locals hcalm := by
    cases houtcome : outcome id with
    | panic => exact ⟨_, rfl, by simp [Locals.outcome]⟩
    | value result => exact ⟨_, rfl, by simp [Locals.outcome, hcalm]⟩

/-- Every store hits an entry that was loaded before (latest access first). -/
def StoresLoaded : List Access → Prop
  | [] => True
  | .load _ :: earlier => StoresLoaded earlier
  | .store index :: earlier => .load index ∈ earlier ∧ StoresLoaded earlier

/-- No access lies outside the mapping, and nothing unread is overwritten. -/
structure SafeAccesses (accesses : List Access) : Prop where
  bounded : ∀ access ∈ accesses, access.index < maxPartitionSize
  storesLoaded : StoresLoaded accesses

theorem SafeAccesses.load {accesses : List Access} (h : SafeAccesses accesses)
    {index : Nat} (hindex : index < maxPartitionSize) :
    SafeAccesses (.load index :: accesses) := by
  refine ⟨?_, h.storesLoaded⟩
  intro access hmem
  rcases List.mem_cons.mp hmem with rfl | hmem
  · exact hindex
  · exact h.bounded access hmem

theorem SafeAccesses.store {accesses : List Access} (h : SafeAccesses accesses)
    {index : Nat} (hloaded : .load index ∈ accesses) :
    SafeAccesses (.store index :: accesses) := by
  refine ⟨?_, hloaded, h.storesLoaded⟩
  intro access hmem
  rcases List.mem_cons.mp hmem with rfl | hmem
  · exact h.bounded (.load index) hloaded
  · exact h.bounded access hmem

section Agreement

variable [DecidableEq V] {ids : Set PatchID}

def Evaluation.agrees (evaluation : Evaluation V ids) (current id : PatchID) : Bool :=
  evaluation.outcome id = evaluation.outcome current

def Evaluation.kept (evaluation : Evaluation V ids) (current : PatchID)
    (listed : List PatchID) : List PatchID :=
  listed.filter (evaluation.agrees current)

theorem Evaluation.kept_length_le (evaluation : Evaluation V ids)
    (current : PatchID) (listed : List PatchID) :
    (evaluation.kept current listed).length ≤ listed.length :=
  List.length_filter_le _ _

end Agreement

/--
What one evaluation starts from: fewer ids than fit, each with a nonzero base,
closed in the buffer by either terminator.
-/
structure Listing (V : Type*) (ids : Set PatchID) where
  evaluation : Evaluation V ids
  current : PatchID
  listed : List PatchID
  terminator : PatchID
  background : PartitionMemory
  current_mem : current ∈ ids
  listed_mem : ∀ id ∈ listed, id ∈ ids
  base_ne : ∀ id ∈ listed, id.base ≠ 0
  terminator_base : terminator.base = 0
  fits : listed.length < maxPartitionSize

namespace Listing

variable {ids : Set PatchID}

def memory (listing : Listing V ids) : PartitionMemory :=
  overlay (listing.listed ++ [listing.terminator]) listing.background

def passId (listing : Listing V ids) (pass : Nat) : PatchID :=
  ((listing.current :: listing.listed)[pass]?).getD listing.current

private theorem passId_mem (listing : Listing V ids) (pass : Nat) :
    listing.passId pass ∈ ids := by
  unfold passId
  cases hget : (listing.current :: listing.listed)[pass]? with
  | none => exact listing.current_mem
  | some id =>
      rcases List.mem_cons.mp (List.mem_of_getElem? hget) with rfl | hmem
      · exact listing.current_mem
      · exact listing.listed_mem _ hmem

variable [DecidableEq V]

def keptOf (listing : Listing V ids) (count : Nat) : List PatchID :=
  listing.evaluation.kept listing.current (listing.listed.take count)

@[simp] theorem keptOf_zero (listing : Listing V ids) : listing.keptOf 0 = [] := by
  simp [keptOf, Evaluation.kept]

theorem keptOf_length_le (listing : Listing V ids) (count : Nat) :
    (listing.keptOf count).length ≤ count := by
  apply (listing.evaluation.kept_length_le _ _).trans
  simp

private theorem keptOf_succ (listing : Listing V ids) {count : Nat}
    (h : count < listing.listed.length) :
    listing.keptOf (count + 1) =
      if listing.evaluation.agrees listing.current (listing.passId (count + 1)) then
        listing.keptOf count ++ [listing.passId (count + 1)]
      else listing.keptOf count := by
  have hid : listing.passId (count + 1) = listing.listed[count] := by
    simp [passId, h]
  rw [hid, keptOf, keptOf, List.take_add_one, List.getElem?_eq_getElem h]
  simp only [Evaluation.kept, Option.toList_some, List.filter_append]
  split <;> simp_all

private theorem keptOf_length (listing : Listing V ids) :
    listing.keptOf listing.listed.length =
      listing.evaluation.kept listing.current listing.listed := by
  simp [keptOf]

structure Common (listing : Listing V ids) (count : Nat) (frame : Frame V) : Prop where
  memory : frame.memory = overlay (listing.keptOf count) listing.memory
  output : frame.outputIndex = (listing.keptOf count).length
  loaded : ∀ index < frame.inputIndex, .load index ∈ frame.accesses
  safe : SafeAccesses frame.accesses

def Initialized (listing : Listing V ids) (frame : Frame V) : Prop :=
  frame.outputInitialized = true ∧
    frame.outputOutcome = listing.evaluation.outcome listing.current

def InitializedAfterFirst (listing : Listing V ids) (pass : Nat)
    (frame : Frame V) : Prop :=
  if pass = 0 then frame.outputInitialized = false else listing.Initialized frame

/--
The frame after a number of statements.  Every pass takes three of them: at
the label of pass `pass` the ids before it have been compared, the current id
being number zero.
-/
inductive Reached (listing : Listing V ids) : Nat → Frame V → Prop
  | label {frame : Frame V} (pass : Nat) (hpass : pass ≤ listing.listed.length)
      (point : frame.point = .label) (id : frame.id = listing.passId pass)
      (input : frame.inputIndex = pass) (common : listing.Common (pass - 1) frame)
      (first : listing.InitializedAfterFirst pass frame) :
      Reached listing (3 * pass) frame
  | compare {frame : Frame V} (pass : Nat) (hpass : pass ≤ listing.listed.length)
      (point : frame.point = .compare) (id : frame.id = listing.passId pass)
      (input : frame.inputIndex = pass) (common : listing.Common (pass - 1) frame)
      (first : listing.InitializedAfterFirst pass frame)
      (outcome : frame.locals.outcome =
        listing.evaluation.outcome (listing.passId pass)) :
      Reached listing (3 * pass + 1) frame
  | advance {frame : Frame V} (pass : Nat) (hpass : pass ≤ listing.listed.length)
      (point : frame.point = .advance) (input : frame.inputIndex = pass)
      (common : listing.Common pass frame) (initialized : listing.Initialized frame) :
      Reached listing (3 * pass + 2) frame
  | terminate {frame : Frame V} (point : frame.point = .terminate)
      (input : .load listing.listed.length ∈ frame.accesses)
      (loaded : frame.inputIndex = listing.listed.length)
      (common : listing.Common listing.listed.length frame)
      (initialized : listing.Initialized frame) :
      Reached listing (3 * listing.listed.length + 3) frame
  | closed {frame : Frame V} (extra : Nat)
      (point : (extra = 0 ∧ frame.point = .leave) ∨
        (0 < extra ∧ frame.result =
          some (listing.evaluation.outcome listing.current)))
      (memory : frame.memory =
        overlay (listing.keptOf listing.listed.length ++ [outputTerminator])
          listing.memory)
      (safe : SafeAccesses frame.accesses)
      (initialized : listing.Initialized frame) :
      Reached listing (3 * listing.listed.length + 4 + extra) frame

private theorem step_label (listing : Listing V ids) {frame : Frame V} (pass : Nat)
    (hpass : pass ≤ listing.listed.length) (point : frame.point = .label)
    (id : frame.id = listing.passId pass) (input : frame.inputIndex = pass)
    (common : listing.Common (pass - 1) frame)
    (first : listing.InitializedAfterFirst pass frame) :
    Reached listing (3 * pass + 1)
      (step true listing.evaluation.dispatch frame) := by
  obtain ⟨locals, hdispatch, houtcome⟩ :=
    listing.evaluation.gives (listing.passId pass) (listing.passId_mem pass)
      frame.locals.calm rfl
  rw [← id] at hdispatch
  rw [step_label_some _ _ point hdispatch]
  exact .compare pass hpass rfl id input
    ⟨common.memory, common.output, common.loaded, common.safe⟩ first houtcome

private theorem step_compare_first (listing : Listing V ids) {frame : Frame V}
    (point : frame.point = .compare) (input : frame.inputIndex = 0)
    (common : listing.Common 0 frame)
    (first : frame.outputInitialized = false)
    (outcome : frame.locals.outcome =
      listing.evaluation.outcome (listing.passId 0)) :
    Reached listing 2 (step true listing.evaluation.dispatch frame) := by
  rw [step_compare_initial _ _ point first]
  refine .advance 0 (Nat.zero_le _) rfl input
    ⟨common.memory, common.output, common.loaded, common.safe⟩ ⟨rfl, ?_⟩
  have hcurrent : listing.passId 0 = listing.current := by simp [passId]
  rw [hcurrent] at outcome
  simpa [Frame.outputOutcome, Locals.outcome] using outcome

private theorem step_compare_next (listing : Listing V ids) {frame : Frame V} (pass : Nat)
    (hpass : pass + 1 ≤ listing.listed.length) (point : frame.point = .compare)
    (id : frame.id = listing.passId (pass + 1))
    (input : frame.inputIndex = pass + 1) (common : listing.Common pass frame)
    (initialized : listing.Initialized frame)
    (outcome : frame.locals.outcome =
      listing.evaluation.outcome (listing.passId (pass + 1))) :
    Reached listing (3 * (pass + 1) + 2)
      (step true listing.evaluation.dispatch frame) := by
  have hkept := listing.keptOf_succ hpass
  by_cases h : listing.evaluation.outcome listing.current =
      listing.evaluation.outcome (listing.passId (pass + 1))
  · have hwrite : frame.outputIndex ≤ pass := by
      rw [common.output]
      exact listing.keptOf_length_le pass
    have hbound : frame.outputIndex < maxPartitionSize := by
      have := listing.fits
      omega
    have hsame : frame.outputOutcome = frame.locals.outcome := by
      rw [initialized.2, outcome, h]
    rw [if_pos (by simp [Evaluation.agrees, h])] at hkept
    rw [step_compare_same _ point initialized.1 hsame hbound]
    refine .advance (pass + 1) hpass rfl input ⟨?_, ?_, ?_, ?_⟩ initialized
    · simp only [common.memory, common.output, id, hkept, update_overlay]
    · simp [common.output, hkept]
    · intro index hindex
      exact List.mem_cons_of_mem _ (common.loaded index hindex)
    · exact common.safe.store (common.loaded _ (by omega))
  · have hother : frame.outputOutcome ≠ frame.locals.outcome := by
      rwa [initialized.2, outcome]
    rw [if_neg (by simpa [Evaluation.agrees] using Ne.symm h)] at hkept
    rw [step_compare_other _ _ point initialized.1 hother]
    exact .advance (pass + 1) hpass rfl input
      ⟨hkept ▸ common.memory, hkept ▸ common.output, common.loaded, common.safe⟩
      initialized

/-- The read cursor is never behind the write cursor, so it sees the old list. -/
theorem memory_at_input (listing : Listing V ids) {frame : Frame V} {pass : Nat}
    (common : listing.Common pass frame) :
    frame.memory pass = listing.memory pass := by
  rw [common.memory]
  exact overlay_of_le (listing.keptOf_length_le pass)

private theorem step_advance_next (listing : Listing V ids) {frame : Frame V} (pass : Nat)
    (hpass : pass < listing.listed.length) (point : frame.point = .advance)
    (input : frame.inputIndex = pass) (common : listing.Common pass frame)
    (initialized : listing.Initialized frame) :
    Reached listing (3 * (pass + 1))
      (step true listing.evaluation.dispatch frame) := by
  have hentry : frame.memory frame.inputIndex = listing.passId (pass + 1) := by
    rw [input, listing.memory_at_input common, memory,
      overlay_of_lt (by simp; omega), List.getElem_append_left hpass]
    simp [passId, hpass]
  have hbase : (listing.passId (pass + 1)).base ≠ 0 := by
    apply listing.base_ne _
    simp [passId, hpass]
  have hbound : pass < maxPartitionSize := hpass.trans listing.fits
  rw [step_advance_entry _ point (by rwa [input]) (by rwa [hentry]), hentry, input]
  refine .label (pass + 1) hpass rfl rfl rfl
    ⟨common.memory, common.output, ?_, common.safe.load hbound⟩ ?_
  · intro index hindex
    rcases Nat.lt_succ_iff_lt_or_eq.mp hindex with hlt | rfl
    · exact List.mem_cons_of_mem _ (common.loaded index (by omega))
    · exact List.mem_cons_self
  · rw [InitializedAfterFirst, if_neg (Nat.succ_ne_zero pass)]
    exact initialized

private theorem step_advance_last (listing : Listing V ids) {frame : Frame V}
    (point : frame.point = .advance) (input : frame.inputIndex = listing.listed.length)
    (common : listing.Common listing.listed.length frame)
    (initialized : listing.Initialized frame) :
    Reached listing (3 * listing.listed.length + 3)
      (step true listing.evaluation.dispatch frame) := by
  have hentry : frame.memory frame.inputIndex = listing.terminator := by
    rw [input, listing.memory_at_input common, memory]
    exact overlay_append_length _ _ _ _
  rw [step_advance_end _ point (input ▸ listing.fits) (hentry ▸ listing.terminator_base), input]
  refine .terminate rfl List.mem_cons_self rfl
    ⟨common.memory, common.output, ?_, common.safe.load listing.fits⟩ initialized
  intro index hindex
  exact List.mem_cons_of_mem _ (common.loaded index (by rwa [input]))

/-- The terminator may fall on the entry whose zero base ended the loop. -/
theorem step_terminate (listing : Listing V ids) {frame : Frame V}
    (point : frame.point = .terminate)
    (input : .load listing.listed.length ∈ frame.accesses)
    (loaded : frame.inputIndex = listing.listed.length)
    (common : listing.Common listing.listed.length frame)
    (initialized : listing.Initialized frame) :
    Reached listing (3 * listing.listed.length + 4)
      (step true listing.evaluation.dispatch frame) := by
  have hwrite : frame.outputIndex ≤ listing.listed.length := by
    rw [common.output]
    exact listing.keptOf_length_le _
  have hbound : frame.outputIndex < maxPartitionSize :=
    Nat.lt_of_le_of_lt hwrite listing.fits
  have hloaded : .load frame.outputIndex ∈ frame.accesses := by
    rcases Nat.lt_or_eq_of_le hwrite with hlt | heq
    · exact common.loaded _ (loaded ▸ hlt)
    · exact heq ▸ input
  rw [step_terminate_eq _ _ point hbound]
  refine .closed 0 (.inl ⟨rfl, rfl⟩) ?_ (common.safe.store hloaded) initialized
  simp only [common.memory, common.output, update_overlay]

private theorem step_leave (listing : Listing V ids) {frame : Frame V}
    (point : frame.point = .leave) (memory : frame.memory =
      overlay (listing.keptOf listing.listed.length ++ [outputTerminator])
        listing.memory)
    (safe : SafeAccesses frame.accesses)
    (initialized : listing.Initialized frame) :
    Reached listing (3 * listing.listed.length + 4 + 1)
      (step true listing.evaluation.dispatch frame) := by
  have hout := initialized.2
  rw [step_leave_eq _ _ point]
  refine .closed 1 (.inr ⟨Nat.one_pos, ?_⟩) memory safe initialized
  cases hpanic : frame.outputPanic with
  | true => simpa [Frame.outputOutcome, Frame.result, hpanic] using hout
  | false => simpa [Frame.outputOutcome, Frame.result, hpanic] using hout

/-- One statement leads from one described frame to the next. -/
theorem step_reached (listing : Listing V ids) {steps : Nat} {frame : Frame V}
    (h : Reached listing steps frame) :
    Reached listing (steps + 1) (step true listing.evaluation.dispatch frame) := by
  cases h with
  | label pass hpass point id input common first =>
      exact listing.step_label pass hpass point id input common first
  | compare pass hpass point id input common first outcome =>
      cases pass with
      | zero =>
          exact listing.step_compare_first point input common
            (by simpa [InitializedAfterFirst] using first) outcome
      | succ pass =>
          exact listing.step_compare_next pass hpass point id input common
            (by simpa [InitializedAfterFirst] using first) outcome
  | advance pass hpass point input common initialized =>
      rcases Nat.lt_or_eq_of_le hpass with hlt | rfl
      · exact listing.step_advance_next pass hlt point input common initialized
      · exact listing.step_advance_last point input common initialized
  | terminate point input loaded common initialized =>
      exact listing.step_terminate point input loaded common initialized
  | closed extra point memory safe initialized =>
      rcases point with ⟨rfl, hleave⟩ | ⟨hextra, hresult⟩
      · exact listing.step_leave hleave memory safe initialized
      · have hfinished : frame.finished = true := by
          cases hpoint : frame.point <;>
            simp_all [Frame.result, Frame.finished]
        rw [step_finished _ _ hfinished]
        exact .closed (extra + 1) (.inr ⟨Nat.succ_pos _, hresult⟩) memory safe
          initialized

theorem Reached.closed_of_le (listing : Listing V ids) {steps : Nat} {frame : Frame V}
    (h : Reached listing steps frame)
    (hsteps : 3 * listing.listed.length + 4 ≤ steps) :
    frame.memory =
        overlay (listing.evaluation.kept listing.current listing.listed ++
          [outputTerminator]) listing.memory ∧
      SafeAccesses frame.accesses ∧
      (3 * listing.listed.length + 5 ≤ steps →
        frame.result = some (listing.evaluation.outcome listing.current)) := by
  cases h with
  | label pass hpass | compare pass hpass | advance pass hpass => omega
  | terminate => omega
  | closed extra point memory safe initialized =>
      refine ⟨?_, safe, ?_⟩
      · rw [memory, listing.keptOf_length]
      · intro hlate
        rcases point with ⟨rfl, -⟩ | ⟨-, hresult⟩
        · omega
        · exact hresult

theorem Reached.memory_of_lt (listing : Listing V ids) {steps : Nat} {frame : Frame V}
    (h : Reached listing steps frame)
    (hsteps : steps < 3 * listing.listed.length + 4) :
    frame.memory = overlay (listing.keptOf ((steps + 1) / 3 - 1)) listing.memory ∧
      SafeAccesses frame.accesses := by
  cases h with
  | label pass hpass point id input common first =>
      have hcount : (3 * pass + 1) / 3 - 1 = pass - 1 := by omega
      rw [hcount]
      exact ⟨common.memory, common.safe⟩
  | compare pass hpass point id input common first outcome =>
      have hcount : (3 * pass + 1 + 1) / 3 - 1 = pass - 1 := by omega
      rw [hcount]
      exact ⟨common.memory, common.safe⟩
  | advance pass hpass point input common initialized =>
      have hcount : (3 * pass + 2 + 1) / 3 - 1 = pass := by omega
      rw [hcount]
      exact ⟨common.memory, common.safe⟩
  | terminate point input loaded common initialized =>
      have hcount : (3 * listing.listed.length + 3 + 1) / 3 - 1 =
          listing.listed.length := by omega
      rw [hcount]
      exact ⟨common.memory, common.safe⟩
  | closed extra => omega

variable [Zero V]

def frameAfter (listing : Listing V ids) (steps : Nat) : Frame V :=
  listing.evaluation.after true listing.current listing.memory steps

private theorem enter_reached (listing : Listing V ids) :
    Reached listing 0
      (listing.evaluation.enter listing.current listing.memory) := by
  have hcommon : listing.Common (0 - 1)
      (listing.evaluation.enter listing.current listing.memory) := by
    refine ⟨by simp [Call.enter], by simp [Call.enter], ?_, ?_⟩
    · intro index hindex
      simp [Call.enter] at hindex
    · exact ⟨by simp [Call.enter], trivial⟩
  have hlabel : Reached listing (3 * 0)
      (listing.evaluation.enter listing.current listing.memory) :=
    .label 0 (Nat.zero_le _) rfl (by simp [passId, Call.enter]) rfl hcommon
      (by simp [InitializedAfterFirst, Call.enter])
  simpa using hlabel

/-- The run lemma: the description holds after every number of statements. -/
theorem frameAfter_reached (listing : Listing V ids) (steps : Nat) :
    Reached listing steps (listing.frameAfter steps) := by
  induction steps with
  | zero => exact listing.enter_reached
  | succ steps ih =>
      rw [frameAfter, Call.after, Function.iterate_succ_apply']
      exact listing.step_reached ih

end Listing

/-! ## Sequences of evaluations -/

def Holds (listed : List PatchID) (terminator : PatchID)
    (memory : PartitionMemory) : Prop :=
  ∃ background, memory = overlay (listed ++ [terminator]) background

theorem setPartition_holds {ids : List PatchID} (memory : PartitionMemory)
    (hsize : ids.length < maxPartitionSize) :
    ∃ after, setPartition ids memory = some after ∧
      Holds ids inputTerminator after :=
  ⟨_, setPartition_eq ids memory hsize, memory, rfl⟩

section Evaluations

variable [DecidableEq V] [Zero V] {ids : Set PatchID}

def keptByAll (evals : List (Evaluation V ids)) (current : PatchID)
    (listed : List PatchID) : List PatchID :=
  listed.filter fun id => evals.all (Evaluation.agrees · current id)

omit [Zero V] in
private theorem keptByAll_cons (evaluation : Evaluation V ids)
    (evals : List (Evaluation V ids)) (current : PatchID) (listed : List PatchID) :
    keptByAll evals current (evaluation.kept current listed) =
      keptByAll (evaluation :: evals) current listed := by
  simp only [keptByAll, Evaluation.kept, List.filter_filter, List.all_cons]
  congr 1
  funext id
  exact Bool.and_comm _ _

omit [Zero V] in
theorem mem_keptByAll {evals : List (Evaluation V ids)} {current id : PatchID}
    {listed : List PatchID} :
    id ∈ keptByAll evals current listed ↔
      id ∈ listed ∧ ∀ evaluation ∈ evals,
        evaluation.outcome id = evaluation.outcome current := by
  simp [keptByAll, Evaluation.agrees]

structure Evaluable (ids : Set PatchID) (current : PatchID)
    (listed : List PatchID) : Prop where
  current_mem : current ∈ ids
  listed_mem : ∀ id ∈ listed, id ∈ ids
  base_ne : ∀ id ∈ listed, id.base ≠ 0
  fits : listed.length < maxPartitionSize

omit [DecidableEq V] [Zero V] in
theorem Evaluable.filter {current : PatchID} {listed : List PatchID}
    (h : Evaluable ids current listed) (keep : PatchID → Bool) :
    Evaluable ids current (listed.filter keep) where
  current_mem := h.current_mem
  listed_mem id hid := h.listed_mem id (List.mem_of_mem_filter hid)
  base_ne id hid := h.base_ne id (List.mem_of_mem_filter hid)
  fits := Nat.lt_of_le_of_lt (List.length_filter_le _ _) h.fits

def Evaluable.listing {current : PatchID} {listed : List PatchID}
    (h : Evaluable ids current listed) (evaluation : Evaluation V ids)
    (terminator : PatchID) (hterminator : terminator.base = 0)
    (background : PartitionMemory) : Listing V ids where
  evaluation := evaluation
  current := current
  listed := listed
  terminator := terminator
  background := background
  current_mem := h.current_mem
  listed_mem := h.listed_mem
  base_ne := h.base_ne
  terminator_base := hterminator
  fits := h.fits

theorem evaluation_spec {current : PatchID} {listed : List PatchID}
    (h : Evaluable ids current listed) (evaluation : Evaluation V ids)
    {terminator : PatchID} (hterminator : terminator.base = 0)
    {memory : PartitionMemory} (hmemory : Holds listed terminator memory)
    {fuel : Nat} (hfuel : 3 * listed.length + 5 ≤ fuel) :
    (evaluation.after true current memory fuel).result =
        some (evaluation.outcome current) ∧
      SafeAccesses (evaluation.after true current memory fuel).accesses ∧
      Holds (evaluation.kept current listed) outputTerminator
        (evaluation.after true current memory fuel).memory := by
  obtain ⟨background, rfl⟩ := hmemory
  let listing := h.listing evaluation terminator hterminator background
  obtain ⟨hmemory, hsafe, hresult⟩ :=
    (listing.frameAfter_reached fuel).closed_of_le listing (by
      change 3 * listed.length + 4 ≤ fuel
      omega)
  exact ⟨hresult hfuel, hsafe, listing.memory, hmemory⟩

theorem evaluations_holds {current : PatchID} {listed : List PatchID}
    (h : Evaluable ids current listed) (evals : List (Evaluation V ids))
    {terminator : PatchID} (hterminator : terminator.base = 0)
    {memory : PartitionMemory} (hmemory : Holds listed terminator memory)
    {fuel : Nat} (hfuel : 3 * listed.length + 5 ≤ fuel) :
    Holds (keptByAll evals current listed)
      (if evals = [] then terminator else outputTerminator)
      (evaluations fuel current (evals.map (·.toCall)) memory) := by
  induction evals generalizing listed terminator memory with
  | nil => simpa [keptByAll, evaluations] using hmemory
  | cons evaluation evals ih =>
      obtain ⟨-, -, hafter⟩ :=
        evaluation_spec h evaluation hterminator hmemory hfuel
      have hlength := evaluation.kept_length_le current listed
      have hkept : Evaluable ids current (evaluation.kept current listed) := h.filter _
      have hrest := ih hkept rfl hafter (by omega)
      rw [keptByAll_cons] at hrest
      simpa [evaluations] using hrest

/--
The protocol is exact.  Started on any ids that `setPartition` accepts, every
evaluation ends within its fuel with the outcome of the current id, stays
inside the mapping and overwrites only entries it has read; `getPartition` then
returns the ids that no evaluation told apart from the current one, and nothing
when the location was never reached.
-/
theorem partition_protocol_exact (listed : List PatchID) (current : PatchID)
    (hsize : listed.length < maxPartitionSize)
    (hbase : ∀ id ∈ listed, id.base ≠ 0)
    (evals : List (Evaluation V {id | id = current ∨ id ∈ listed}))
    (before : PartitionMemory) (fuel : Nat)
    (hfuel : 3 * listed.length + 5 ≤ fuel) :
    ∃ start, setPartition listed before = some start ∧
      (∀ earlier evaluation later, evals = earlier ++ evaluation :: later →
        (evaluation.after true current
            (evaluations fuel current (earlier.map (·.toCall)) start) fuel).result =
          some (evaluation.outcome current) ∧
        SafeAccesses (evaluation.after true current
          (evaluations fuel current (earlier.map (·.toCall)) start) fuel).accesses) ∧
      ∃ partition,
        getPartition (evaluations fuel current (evals.map (·.toCall)) start) =
          some partition ∧
        (∀ id, id ∈ partition ↔ evals ≠ [] ∧ id ∈ listed ∧
          ∀ evaluation ∈ evals, evaluation.outcome id = evaluation.outcome current) ∧
        (current ∈ listed → evals ≠ [] → current ∈ partition) := by
  obtain ⟨start, hstart, hholds⟩ := setPartition_holds before hsize
  have hevaluable : Evaluable {id | id = current ∨ id ∈ listed} current listed :=
    ⟨Or.inl rfl, fun id hid => Or.inr hid, hbase, hsize⟩
  refine ⟨start, hstart, ?_, ?_⟩
  · rintro earlier evaluation later rfl
    have hprefix := evaluations_holds hevaluable earlier rfl hholds hfuel
    have hlength : (keptByAll earlier current listed).length ≤ listed.length :=
      List.length_filter_le _ _
    obtain ⟨hresult, hsafe, -⟩ := evaluation_spec (hevaluable.filter _) evaluation
      (by split <;> rfl) hprefix (by
        change 3 * (keptByAll earlier current listed).length + 5 ≤ fuel
        omega)
    exact ⟨hresult, hsafe⟩
  · obtain ⟨background, hmemory⟩ :=
      evaluations_holds hevaluable evals rfl hholds hfuel
    have hkept := hevaluable.filter
      (fun id => evals.all (Evaluation.agrees · current id))
    rw [hmemory]
    by_cases hevals : evals = []
    · rw [if_pos hevals]
      refine ⟨∅, getPartition_input _ _ hkept.base_ne hkept.fits, ?_, ?_⟩
      · simp [hevals]
      · intro _ hne
        exact absurd hevals hne
    · rw [if_neg hevals]
      refine ⟨_, getPartition_output _ _ hkept.base_ne hkept.fits, ?_, ?_⟩
      · intro id
        rw [List.mem_toFinset]
        exact mem_keptByAll.trans ⟨fun h => ⟨hevals, h⟩, fun h => h.2⟩
      · intro hcurrent _
        rw [List.mem_toFinset]
        exact mem_keptByAll.mpr ⟨hcurrent, fun _ _ => rfl⟩

theorem partition_protocol_exact_two_ids :
    ∃ start partition,
      setPartition [⟨1, 0, 0, 0, 0⟩, ⟨2, 0, 0, 0, 0⟩] (fun _ => outputTerminator) =
        some start ∧
      getPartition (evaluations 11 ⟨1, 0, 0, 0, 0⟩
        [(Evaluation.ofOutcome (V := Nat) Set.univ fun id =>
          if id.base = 1 then .value 7 else .panic).toCall] start) = some partition ∧
      ⟨1, 0, 0, 0, 0⟩ ∈ partition ∧ ⟨2, 0, 0, 0, 0⟩ ∉ partition := by
  obtain ⟨start, hstart, -, partition, hpartition, hmem, -⟩ :=
    partition_protocol_exact (V := Nat) [⟨1, 0, 0, 0, 0⟩, ⟨2, 0, 0, 0, 0⟩]
      ⟨1, 0, 0, 0, 0⟩ (by decide) (by decide)
      [Evaluation.ofOutcome _ fun id => if id.base = 1 then .value 7 else .panic]
      (fun _ => outputTerminator) 11 (by decide)
  refine ⟨start, partition, hstart, hpartition, (hmem _).mpr ?_, ?_⟩
  · simp
  · rw [hmem]
    simp [Evaluation.ofOutcome]

end Evaluations

end F1X
