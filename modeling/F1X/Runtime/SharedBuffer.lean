import F1X.Runtime.Protocol
import Mathlib.Data.List.Sublists

/-!
# The shared memory object between runs

The constructor of `Runtime` and the code of `generator::runtimeLoader` open
the partition by the name `PARTITION_FILE_NAME` with the effective user id
behind it, while every other intermediate file lies in the data directory of
the run.  All processes of a user therefore work on one object, and a generated
function also evaluates the ids that another process has written.
-/

namespace F1X

open F1X.Library

/-! ## A call on a list of any ids -/

section Foreign

variable {V : Type*}

/-- The ids kept among the first `count` lie over the list that was there. -/
def KeepsSome (listed : List PatchID) (start : PartitionMemory) (count : Nat)
    (frame : Frame V) : Prop :=
  ∃ kept, kept.Sublist (listed.take count) ∧ frame.memory = overlay kept start ∧
    frame.outputIndex = kept.length

/-- The frames of a call whose dispatch may do anything with the ids it meets. -/
inductive Filtering (listed : List PatchID) (start : PartitionMemory) : Frame V → Prop
  | pass {frame : Frame V} (count : Nat) (hcount : count ≤ listed.length)
      (point : frame.point = .label ∨ frame.point = .compare)
      (input : frame.inputIndex = count)
      (id : ∀ previous, count = previous + 1 → listed[previous]? = some frame.id)
      (first : frame.outputInitialized = decide (count ≠ 0))
      (keeps : KeepsSome listed start (count - 1) frame) : Filtering listed start frame
  | advance {frame : Frame V} (count : Nat) (hcount : count ≤ listed.length)
      (point : frame.point = .advance) (input : frame.inputIndex = count)
      (initialized : frame.outputInitialized = true)
      (keeps : KeepsSome listed start count frame) : Filtering listed start frame
  | terminate {frame : Frame V} (point : frame.point = .terminate)
      (keeps : KeepsSome listed start listed.length frame) : Filtering listed start frame
  | closed {frame : Frame V}
      (point : frame.point = .leave ∨ frame.finished = true)
      (kept : List PatchID) (hkept : kept.Sublist listed)
      (memory : frame.memory = overlay (kept ++ [outputTerminator]) start) :
      Filtering listed start frame
  | stuck {frame : Frame V} (point : frame.point = .trapped) : Filtering listed start frame

theorem KeepsSome.index_le {listed : List PatchID} {start : PartitionMemory} {count : Nat}
    {frame : Frame V} (h : KeepsSome listed start count frame) :
    frame.outputIndex ≤ count := by
  obtain ⟨kept, hkept, -, hindex⟩ := h
  have hlength := hkept.length_le
  rw [List.length_take] at hlength
  omega

theorem KeepsSome.memory_at {listed : List PatchID} {start : PartitionMemory}
    {count : Nat} {frame : Frame V} (h : KeepsSome listed start count frame) :
    frame.memory count = start count := by
  obtain ⟨kept, hkept, hmemory, hindex⟩ := h
  have hlength := hkept.length_le
  rw [List.length_take] at hlength
  rw [hmemory]
  exact overlay_of_le (by omega)

theorem KeepsSome.mono {listed : List PatchID} {start : PartitionMemory}
    {count next : Nat} {frame : Frame V} (h : KeepsSome listed start count frame)
    (hnext : count ≤ next) : KeepsSome listed start next frame := by
  obtain ⟨kept, hkept, hmemory, hindex⟩ := h
  have htake : (listed.take count).Sublist (listed.take next) :=
    (List.take_prefix_take_left hnext).sublist
  exact ⟨kept, hkept.trans htake, hmemory, hindex⟩

theorem KeepsSome.push {listed : List PatchID} {start : PartitionMemory}
    {count : Nat} {frame next : Frame V} (h : KeepsSome listed start count frame)
    (hid : listed[count]? = some frame.id)
    (hmemory : next.memory = Function.update frame.memory frame.outputIndex frame.id)
    (hindex : next.outputIndex = frame.outputIndex + 1) :
    KeepsSome listed start (count + 1) next := by
  obtain ⟨kept, hkept, hkeptMemory, hkeptIndex⟩ := h
  refine ⟨kept ++ [frame.id], ?_, ?_, ?_⟩
  · rw [List.take_add_one, hid]
    exact hkept.append (List.Sublist.refl _)
  · rw [hmemory, hkeptMemory, hkeptIndex, update_overlay]
  · rw [hindex, hkeptIndex]
    simp

variable [DecidableEq V] {listed : List PatchID} {terminator : PatchID}
  {start : PartitionMemory}

private theorem step_filtering_label (dispatch : Dispatch V) {frame : Frame V} (count : Nat)
    (hcount : count ≤ listed.length) (point : frame.point = .label)
    (input : frame.inputIndex = count)
    (id : ∀ previous, count = previous + 1 → listed[previous]? = some frame.id)
    (first : frame.outputInitialized = decide (count ≠ 0))
    (keeps : KeepsSome listed start (count - 1) frame) :
    Filtering listed start (step true dispatch frame) := by
  cases hdispatch : dispatch frame.id frame.locals.calm with
  | none =>
      rw [step_label_none _ _ point hdispatch]
      exact .stuck rfl
  | some locals =>
      rw [step_label_some _ _ point hdispatch]
      exact .pass count hcount (.inr rfl) input id first keeps

private theorem step_filtering_first (dispatch : Dispatch V) {frame : Frame V}
    (point : frame.point = .compare) (input : frame.inputIndex = 0)
    (first : frame.outputInitialized = false)
    (keeps : KeepsSome listed start 0 frame) :
    Filtering listed start (step true dispatch frame) := by
  rw [step_compare_initial _ _ point first]
  exact .advance 0 (Nat.zero_le _) rfl input rfl keeps

private theorem step_filtering_next (dispatch : Dispatch V) {frame : Frame V} (count : Nat)
    (hcount : count + 1 ≤ listed.length) (hfits : listed.length < maxPartitionSize)
    (point : frame.point = .compare) (input : frame.inputIndex = count + 1)
    (id : listed[count]? = some frame.id) (first : frame.outputInitialized = true)
    (keeps : KeepsSome listed start count frame) :
    Filtering listed start (step true dispatch frame) := by
  have hwrite := keeps.index_le
  have hbound : frame.outputIndex < maxPartitionSize := by omega
  by_cases hequal : frame.outputOutcome = frame.locals.outcome
  · rw [step_compare_same _ point first hequal hbound]
    exact .advance (count + 1) hcount rfl input first (keeps.push id rfl rfl)
  · rw [step_compare_other _ _ point first hequal]
    exact .advance (count + 1) hcount rfl input first (keeps.mono (Nat.le_succ count))

private theorem step_filtering_advance (dispatch : Dispatch V) {frame : Frame V} (count : Nat)
    (hcount : count ≤ listed.length) (hfits : listed.length < maxPartitionSize)
    (hbase : ∀ id ∈ listed, id.base ≠ 0) (hterminator : terminator.base = 0)
    (hstart : ∃ background, start = overlay (listed ++ [terminator]) background)
    (point : frame.point = .advance) (input : frame.inputIndex = count)
    (initialized : frame.outputInitialized = true)
    (keeps : KeepsSome listed start count frame) :
    Filtering listed start (step true dispatch frame) := by
  obtain ⟨background, hstart⟩ := hstart
  have hbound : count < maxPartitionSize := Nat.lt_of_le_of_lt hcount hfits
  rcases Nat.lt_or_eq_of_le hcount with hlt | rfl
  · have hentry : frame.memory frame.inputIndex = listed[count] := by
      rw [input, keeps.memory_at, hstart, overlay_of_lt (by simp; omega),
        List.getElem_append_left hlt]
    have hlisted := hbase _ (List.getElem_mem hlt)
    rw [step_advance_entry _ point (by rwa [input]) (by rwa [hentry]), hentry, input]
    refine .pass (count + 1) hlt (.inl rfl) rfl ?_ ?_ keeps
    · intro previous hprevious
      obtain rfl : count = previous := by omega
      exact List.getElem?_eq_getElem hlt
    · simpa using initialized
  · have hentry : frame.memory frame.inputIndex = terminator := by
      rw [input, keeps.memory_at, hstart]
      exact overlay_append_length _ _ _ _
    rw [step_advance_end _ point (by rwa [input]) (by rwa [hentry]), input]
    exact .terminate rfl keeps

private theorem step_filtering_terminate (dispatch : Dispatch V) {frame : Frame V}
    (hfits : listed.length < maxPartitionSize) (point : frame.point = .terminate)
    (keeps : KeepsSome listed start listed.length frame) :
    Filtering listed start (step true dispatch frame) := by
  have hwrite := keeps.index_le
  have hbound : frame.outputIndex < maxPartitionSize := by omega
  obtain ⟨kept, hkept, hmemory, hindex⟩ := keeps
  rw [List.take_length] at hkept
  rw [step_terminate_eq _ _ point hbound]
  refine .closed (.inl rfl) kept hkept ?_
  simp only [hmemory, hindex, update_overlay]

private theorem step_filtering_closed (dispatch : Dispatch V) {frame : Frame V}
    (point : frame.point = .leave ∨ frame.finished = true) (kept : List PatchID)
    (hkept : kept.Sublist listed)
    (memory : frame.memory = overlay (kept ++ [outputTerminator]) start) :
    Filtering listed start (step true dispatch frame) := by
  rcases point with hleave | hfinished
  · rw [step_leave_eq _ _ hleave]
    refine .closed (.inr ?_) kept hkept memory
    cases hpanic : frame.outputPanic <;> simp [Frame.finished]
  · rw [step_finished _ _ hfinished]
    exact .closed (.inr hfinished) kept hkept memory

private theorem step_filtering (dispatch : Dispatch V) {frame : Frame V}
    (hfits : listed.length < maxPartitionSize) (hbase : ∀ id ∈ listed, id.base ≠ 0)
    (hterminator : terminator.base = 0)
    (hstart : ∃ background, start = overlay (listed ++ [terminator]) background)
    (h : Filtering listed start frame) :
    Filtering listed start (step true dispatch frame) := by
  cases h with
  | pass count hcount point input id first keeps =>
      rcases point with hlabel | hcompare
      · exact step_filtering_label dispatch count hcount hlabel input id first keeps
      · cases count with
        | zero =>
            exact step_filtering_first dispatch hcompare input (by simpa using first) keeps
        | succ count =>
            exact step_filtering_next dispatch count hcount hfits hcompare input
              (id count rfl) (by simpa using first) keeps
  | advance count hcount point input initialized keeps =>
      exact step_filtering_advance dispatch count hcount hfits hbase hterminator hstart
        point input initialized keeps
  | terminate point keeps => exact step_filtering_terminate dispatch hfits point keeps
  | closed point kept hkept memory =>
      exact step_filtering_closed dispatch point kept hkept memory
  | stuck point =>
      rw [step_trapped _ _ point]
      exact .stuck point

/--
Whatever a call does with the ids it finds, once it is finished the buffer holds
some of them in their old order, closed by the output terminator.
-/
theorem Call.after_holds [Zero V] (call : Call V) (current : PatchID)
    {memory : PartitionMemory} (hmemory : Holds listed terminator memory)
    (hfits : listed.length < maxPartitionSize) (hbase : ∀ id ∈ listed, id.base ≠ 0)
    (hterminator : terminator.base = 0) {fuel : Nat} {outcome : Outcome V}
    (hresult : (call.after true current memory fuel).result = some outcome) :
    ∃ kept, kept.Sublist listed ∧
      Holds kept outputTerminator (call.after true current memory fuel).memory := by
  have hrun : ∀ steps, Filtering listed memory (call.after true current memory steps) := by
    intro steps
    induction steps with
    | zero =>
        refine .pass 0 (Nat.zero_le _) (.inl rfl) rfl ?_ rfl ?_
        · intro previous hprevious
          omega
        · exact ⟨[], List.nil_sublist _, by simp [Call.after, Call.enter], rfl⟩
    | succ steps ih =>
        rw [Call.after, Function.iterate_succ_apply']
        exact step_filtering call.dispatch hfits hbase hterminator hmemory ih
  have hfinished := finished_of_result hresult
  cases hrun fuel with
  | pass count hcount point => rcases point with h | h <;> simp [Frame.finished, h] at hfinished
  | advance count hcount point => simp [Frame.finished, point] at hfinished
  | terminate point => simp [Frame.finished, point] at hfinished
  | closed point kept hkept hafter => exact ⟨kept, hkept, memory, hafter⟩
  | stuck point => simp [Frame.finished, point] at hfinished

end Foreign

/-! ## Processes and their steps -/

def partitionFileName : String := "/f1x_partition"

def realPartitionFileName (euid : Nat) : String :=
  partitionFileName ++ "_" ++ toString euid

/-- A process between its `setPartition` and its `getPartition`. -/
structure Round (V : Type*) (own : Set PatchID) where
  ids : List PatchID
  current : PatchID
  evaluations : List (Evaluation V own)

def Round.Agreed {V : Type*} {own : Set PatchID} (round : Round V own) (id : PatchID) :
    Prop :=
  id ∈ round.ids ∧
    ∀ evaluation ∈ round.evaluations,
      evaluation.outcome id = evaluation.outcome round.current

/--
The shared memory objects and the processes; `own process` are the ids that the
generated function of the process dispatches on.  `lastWriter` and `evaluated`
are ghost state: who wrote the object by `setPartition` last, and whether any
evaluation has run on it since.
-/
structure Session (Process V : Type*) (own : Process → Set PatchID) where
  object : String → PartitionMemory
  round : (process : Process) → Option (Round V (own process))
  lastWriter : String → Option Process
  evaluated : String → Bool

inductive Action {Process : Type*} (V : Type*) (own : Process → Set PatchID) where
  | setPartition (process : Process) (ids : List PatchID) (current : PatchID)
  | evaluate (process : Process) (evaluation : Evaluation V (own process))
  | getPartition (process : Process) (partition : Finset PatchID)

section Processes

variable {Process V : Type*} [DecidableEq Process] [DecidableEq V] [Zero V]
  {own : Process → Set PatchID} (euid : Process → Nat)

namespace Session

def file (process : Process) : String := realPartitionFileName (euid process)

def Fresh (session : Session Process V own) : Prop :=
  (∀ process, session.round process = none) ∧ ∀ name, session.lastWriter name = none

def wrote (session : Session Process V own) (process : Process) (ids : List PatchID)
    (current : PatchID) (memory : PartitionMemory) : Session Process V own where
  object := Function.update session.object (file euid process) memory
  round := Function.update session.round process (some ⟨ids, current, []⟩)
  lastWriter := Function.update session.lastWriter (file euid process) (some process)
  evaluated := Function.update session.evaluated (file euid process) false

def ran (session : Session Process V own) (process : Process)
    (round : Round V (own process)) (evaluation : Evaluation V (own process))
    (memory : PartitionMemory) : Session Process V own where
  object := Function.update session.object (file euid process) memory
  round := Function.update session.round process
    (some { round with evaluations := evaluation :: round.evaluations })
  lastWriter := session.lastWriter
  evaluated := Function.update session.evaluated (file euid process) true

def closed (session : Session Process V own) (process : Process) :
    Session Process V own :=
  { session with round := Function.update session.round process none }

inductive Step : Session Process V own → Action V own → Session Process V own → Prop
  | setPartition {session : Session Process V own} {process : Process}
      {ids : List PatchID} {current : PatchID} {memory : PartitionMemory}
      (idle : session.round process = none)
      (hids : Evaluable (own process) current ids)
      (set : F1X.setPartition ids (session.object (file euid process)) = some memory) :
      Step session (.setPartition process ids current)
        (session.wrote euid process ids current memory)
  | evaluate {session : Session Process V own} {process : Process}
      {round : Round V (own process)} {evaluation : Evaluation V (own process)}
      {fuel : Nat} {outcome : Outcome V}
      (running : session.round process = some round)
      (complete : (evaluation.after true round.current
        (session.object (file euid process)) fuel).result = some outcome) :
      Step session (.evaluate process evaluation)
        (session.ran euid process round evaluation
          (evaluation.after true round.current
            (session.object (file euid process)) fuel).memory)
  | getPartition {session : Session Process V own} {process : Process}
      {round : Round V (own process)} {partition : Finset PatchID}
      (running : session.round process = some round)
      (got : F1X.getPartition (session.object (file euid process)) = some partition) :
      Step session (.getPartition process partition) (session.closed process)

/-- A run together with the session each of its actions was taken in. -/
inductive Run (start : Session Process V own) :
    List (Session Process V own × Action V own) → Session Process V own → Prop
  | refl : Run start [] start
  | tail {steps : List (Session Process V own × Action V own)}
      {session after : Session Process V own} {action : Action V own}
      (run : Run start steps session) (step : Step euid session action after) :
      Run start (steps ++ [(session, action)]) after

/-- What `getPartition` returns was set and not told apart by the own test run. -/
def Unmixed (session : Session Process V own) : Action V own → Prop
  | .getPartition process partition =>
      ∀ round, session.round process = some round → ∀ id ∈ partition, round.Agreed id
  | _ => True

/--
A process reads the partition only if no other process has set the object since
it did itself, or if nothing at all has been evaluated since the last set.
-/
def Undisturbed (session : Session Process V own) : Action V own → Prop
  | .getPartition process _ =>
      session.lastWriter (file euid process) = some process ∨
        session.evaluated (file euid process) = false
  | _ => True

def terminator (session : Session Process V own) (name : String) : PatchID :=
  if session.evaluated name then outputTerminator else inputTerminator

/-- What the object `name` holds when `process` was the last to set it. -/
structure Holding (session : Session Process V own) (name : String)
    (process : Process) : Prop where
  named : name = file euid process
  held : ∃ listed, Holds listed (session.terminator name) (session.object name) ∧
    listed.length < maxPartitionSize ∧ (∀ id ∈ listed, id.base ≠ 0) ∧
    ∀ round, session.round process = some round → ∀ id ∈ listed, round.Agreed id

structure Consistent (session : Session Process V own) : Prop where
  written : ∀ process round, session.round process = some round →
    session.lastWriter (file euid process) ≠ none ∧
      Evaluable (own process) round.current round.ids
  holding : ∀ name process, session.lastWriter name = some process →
    session.Holding euid name process

variable {euid} {session after : Session Process V own} {process : Process}

omit [DecidableEq Process] [DecidableEq V] [Zero V] in
@[simp] theorem terminator_base (name : String) : (session.terminator name).base = 0 := by
  unfold terminator
  split <;> rfl

omit [DecidableEq Process] [DecidableEq V] [Zero V] in
theorem Fresh.consistent (h : session.Fresh) : session.Consistent euid where
  written process round hround := by
    rw [h.1 process] at hround
    cases hround
  holding name process hwriter := by
    rw [h.2 name] at hwriter
    cases hwriter

omit [DecidableEq V] [Zero V] in
theorem Consistent.wrote {ids : List PatchID} {current : PatchID}
    {memory : PartitionMemory} (h : session.Consistent euid)
    (hids : Evaluable (own process) current ids)
    (hset : F1X.setPartition ids (session.object (file euid process)) = some memory) :
    (session.wrote euid process ids current memory).Consistent euid where
  written other round hround := by
    by_cases hother : other = process
    · subst hother
      obtain rfl : _ = round := by simpa [Session.wrote] using hround
      exact ⟨by simp [Session.wrote], hids⟩
    · have hround : session.round other = some round := by
        simpa [Session.wrote, hother] using hround
      obtain ⟨hwriter, hevaluable⟩ := h.written other round hround
      refine ⟨?_, hevaluable⟩
      by_cases hfile : file euid other = file euid process
      · simp [Session.wrote, hfile]
      · simpa [Session.wrote, hfile] using hwriter
  holding name writer hwriter := by
    by_cases hname : name = file euid process
    · subst hname
      obtain rfl : process = writer := by simpa [Session.wrote] using hwriter
      refine ⟨rfl, ids, ?_, hids.fits, hids.base_ne, ?_⟩
      · rw [setPartition_eq _ _ hids.fits] at hset
        simp only [Session.wrote, terminator, Function.update_self, Option.some_inj] at hset ⊢
        exact ⟨_, hset.symm⟩
      · intro round hround id hid
        obtain rfl : _ = round := by simpa [Session.wrote] using hround
        exact ⟨hid, by simp⟩
    · have hwriter : session.lastWriter name = some writer := by
        simpa [Session.wrote, hname] using hwriter
      obtain ⟨rfl, listed, hholds, hfits, hbase, hagreed⟩ := h.holding name writer hwriter
      have hother : writer ≠ process := fun heq => hname (heq ▸ rfl)
      refine ⟨rfl, listed, ?_, hfits, hbase, ?_⟩
      · simpa [Session.wrote, terminator, hname] using hholds
      · simpa [Session.wrote, hother] using hagreed

private theorem Holding.ranOwn {round : Round V (own process)}
    {evaluation : Evaluation V (own process)} {fuel : Nat} {outcome : Outcome V}
    (h : session.Holding euid (file euid process) process)
    (hround : session.round process = some round)
    (hevaluable : Evaluable (own process) round.current round.ids)
    (hresult : (evaluation.after true round.current
      (session.object (file euid process)) fuel).result = some outcome) :
    (session.ran euid process round evaluation (evaluation.after true round.current
      (session.object (file euid process)) fuel).memory).Holding euid
        (file euid process) process := by
  obtain ⟨-, listed, hholds, hfits, hbase, hagreed⟩ := h
  have hlisted : Evaluable (own process) round.current listed :=
    ⟨hevaluable.current_mem,
      fun id hid => hevaluable.listed_mem id (hagreed round hround id hid).1, hbase, hfits⟩
  have hkept := (evaluation_spec hlisted evaluation (terminator_base _) hholds
    (Nat.le_max_right fuel _)).2.2
  rw [evaluation.after_finished hresult (Nat.le_max_left fuel _)] at hkept
  refine ⟨rfl, evaluation.kept round.current listed, ?_,
    (hlisted.filter _).fits, (hlisted.filter _).base_ne, ?_⟩
  · simpa [ran, terminator] using hkept
  · intro next hnext id hid
    obtain rfl : _ = next := by simpa [ran] using hnext
    obtain ⟨hmem, hagrees⟩ := List.mem_filter.mp hid
    obtain ⟨hset, hevaluations⟩ := hagreed round hround id hmem
    refine ⟨hset, ?_⟩
    intro other hother
    rcases List.mem_cons.mp hother with rfl | hother
    · simpa [Evaluation.agrees] using hagrees
    · exact hevaluations other hother

private theorem Holding.ranForeign {writer : Process} {round : Round V (own process)}
    {evaluation : Evaluation V (own process)} {fuel : Nat} {outcome : Outcome V}
    (h : session.Holding euid (file euid process) writer) (hother : writer ≠ process)
    (hresult : (evaluation.after true round.current
      (session.object (file euid process)) fuel).result = some outcome) :
    (session.ran euid process round evaluation (evaluation.after true round.current
      (session.object (file euid process)) fuel).memory).Holding euid
        (file euid process) writer := by
  obtain ⟨hfile, listed, hholds, hfits, hbase, hagreed⟩ := h
  obtain ⟨kept, hkept, hafter⟩ := evaluation.after_holds round.current hholds hfits hbase
    (terminator_base _) hresult
  refine ⟨hfile, kept, ?_, Nat.lt_of_le_of_lt hkept.length_le hfits,
    fun id hid => hbase id (hkept.subset hid), ?_⟩
  · simpa [ran, terminator] using hafter
  · intro next hnext id hid
    have hnext : session.round writer = some next := by simpa [ran, hother] using hnext
    exact hagreed next hnext id (hkept.subset hid)

theorem Consistent.ran {round : Round V (own process)}
    {evaluation : Evaluation V (own process)} {fuel : Nat} {outcome : Outcome V}
    (h : session.Consistent euid) (hround : session.round process = some round)
    (hresult : (evaluation.after true round.current
      (session.object (file euid process)) fuel).result = some outcome) :
    (session.ran euid process round evaluation (evaluation.after true round.current
      (session.object (file euid process)) fuel).memory).Consistent euid where
  written other next hnext := by
    by_cases hother : other = process
    · subst hother
      obtain rfl : _ = next := by simpa [Session.ran] using hnext
      exact h.written other round hround
    · exact h.written other next (by simpa [Session.ran, hother] using hnext)
  holding name writer hwriter := by
    have hwriter : session.lastWriter name = some writer := hwriter
    have hheld := h.holding name writer hwriter
    by_cases hname : name = file euid process
    · subst hname
      by_cases hother : writer = process
      · subst hother
        exact hheld.ranOwn hround (h.written writer round hround).2 hresult
      · exact hheld.ranForeign hother hresult
    · obtain ⟨rfl, listed, hholds, hfits, hbase, hagreed⟩ := hheld
      have hother : writer ≠ process := fun heq => hname (heq ▸ rfl)
      refine ⟨rfl, listed, ?_, hfits, hbase, ?_⟩
      · simpa [Session.ran, terminator, hname] using hholds
      · simpa [Session.ran, hother] using hagreed

omit [DecidableEq V] [Zero V] in
theorem Consistent.closed (h : session.Consistent euid) (process : Process) :
    (session.closed process).Consistent euid where
  written other next hnext := by
    by_cases hother : other = process
    · subst hother
      simp [Session.closed] at hnext
    · exact h.written other next (by simpa [Session.closed, hother] using hnext)
  holding name writer hwriter := by
    obtain ⟨hfile, listed, hholds, hfits, hbase, hagreed⟩ := h.holding name writer hwriter
    refine ⟨hfile, listed, hholds, hfits, hbase, ?_⟩
    intro next hnext
    by_cases hother : writer = process
    · subst hother
      simp [Session.closed] at hnext
    · exact hagreed next (by simpa [Session.closed, hother] using hnext)

theorem Consistent.step {action : Action V own} (h : session.Consistent euid)
    (hstep : Step euid session action after) : after.Consistent euid := by
  cases hstep with
  | setPartition idle hids hset => exact h.wrote hids hset
  | evaluate running complete => exact h.ran running complete
  | getPartition running got => exact h.closed _

theorem Run.consistent {steps : List (Session Process V own × Action V own)}
    (hrun : Run euid session steps after) (h : session.Consistent euid) :
    after.Consistent euid := by
  induction hrun with
  | refl => exact h
  | tail _ hstep ih => exact ih.step hstep

omit [DecidableEq Process] [DecidableEq V] [Zero V] in
theorem Holding.got {name : String} {partition : Finset PatchID}
    (h : session.Holding euid name process)
    (hgot : F1X.getPartition (session.object name) = some partition) :
    (session.evaluated name = false → partition = ∅) ∧
      ∀ round, session.round process = some round → ∀ id ∈ partition, round.Agreed id := by
  obtain ⟨-, listed, ⟨background, hmemory⟩, hfits, hbase, hagreed⟩ := h
  rw [hmemory, terminator] at hgot
  cases hevaluated : session.evaluated name with
  | false =>
      rw [hevaluated, if_neg (by simp), getPartition_input _ _ hbase hfits] at hgot
      obtain rfl : ∅ = partition := Option.some_inj.mp hgot
      simp
  | true =>
      rw [hevaluated, if_pos rfl, getPartition_output _ _ hbase hfits] at hgot
      obtain rfl : listed.toFinset = partition := Option.some_inj.mp hgot
      refine ⟨by simp, ?_⟩
      intro round hround id hid
      exact hagreed round hround id (List.mem_toFinset.mp hid)

private theorem Step.unmixed {action : Action V own} (h : session.Consistent euid)
    (hstep : Step euid session action after)
    (hundisturbed : session.Undisturbed euid action) : session.Unmixed action := by
  cases hstep with
  | setPartition | evaluate => trivial
  | @getPartition process _ partition running got =>
      obtain ⟨writer, hwriter⟩ :=
        Option.ne_none_iff_exists'.mp (h.written process _ running).1
      have hheld := (h.holding _ writer hwriter).got got
      rcases hundisturbed with hown | hcalm
      · obtain rfl : writer = process := Option.some_inj.mp (hwriter.symm.trans hown)
        exact hheld.2
      · intro round _ id hid
        rw [hheld.1 hcalm] at hid
        simp at hid

/--
Processes that share their objects, in any interleaving of their steps: a
`getPartition` that meets the condition returns only ids that its process has
set last, and that no evaluation of its own test run has told apart from its
current candidate.
-/
theorem partitions_unmixed {start final : Session Process V own}
    {steps : List (Session Process V own × Action V own)}
    (hfresh : start.Fresh) (hrun : Run euid start steps final) :
    ∀ step ∈ steps, step.1.Undisturbed euid step.2 → step.1.Unmixed step.2 := by
  induction hrun with
  | refl => simp
  | @tail steps session after action run step ih =>
      intro taken htaken hundisturbed
      rcases List.mem_append.mp htaken with hearlier | hlast
      · exact ih taken hearlier hundisturbed
      · obtain rfl := List.mem_singleton.mp hlast
        exact step.unmixed (run.consistent hfresh.consistent) hundisturbed

end Session

end Processes

namespace Session

/-- Two processes of one user, with candidates numbered from the same range. -/
def twoRuns : Session Bool Nat fun _ => Set.univ where
  object _ := fun _ => inputTerminator
  round _ := none
  lastWriter _ := none
  evaluated _ := false

def sameUser : Bool → Nat := fun _ => 1000

def firstId : PatchID := ⟨1, 0, 0, 0, 0⟩
def secondId : PatchID := ⟨2, 0, 0, 0, 0⟩

def sameValue : Evaluation Nat Set.univ := .ofOutcome _ fun _ => .value 7

theorem evaluable_single {current id : PatchID} (hbase : id.base ≠ 0) :
    Evaluable Set.univ current [id] where
  current_mem := trivial
  listed_mem _ _ := trivial
  base_ne := by simpa using hbase
  fits := (by decide : 1 < maxPartitionSize)

private theorem sameValue_got (current : PatchID) {id : PatchID} (hbase : id.base ≠ 0)
    {memory : PartitionMemory} (hmemory : Holds [id] inputTerminator memory) :
    (sameValue.after true current memory 8).result = some (.value 7) ∧
      F1X.getPartition (sameValue.after true current memory 8).memory = some {id} := by
  have hevaluable : Evaluable Set.univ current [id] := evaluable_single hbase
  obtain ⟨hresult, -, background, hafter⟩ :=
    evaluation_spec hevaluable sameValue rfl hmemory (Nat.le_refl 8)
  have hkept : sameValue.kept current [id] = [id] := by
    simp [Evaluation.kept, Evaluation.agrees, sameValue, Evaluation.ofOutcome]
  refine ⟨hresult, ?_⟩
  rw [hafter, hkept, getPartition_output [id] background hevaluable.base_ne hevaluable.fits]
  simp

def ownId (process : Bool) : PatchID := if process then secondId else firstId

theorem twoRuns_run (process : Bool) :
    ∃ steps session final, Run sameUser twoRuns steps final ∧
      (session, .getPartition process {secondId}) ∈ steps ∧
      session.lastWriter (file sameUser process) = some true ∧
      ∃ round, session.round process = some round ∧ round.ids = [ownId process] := by
  have hfirst : Evaluable Set.univ firstId [firstId] := evaluable_single (by decide)
  have hsecond : Evaluable Set.univ secondId [secondId] := evaluable_single (by decide)
  obtain ⟨written, hset, -⟩ := setPartition_holds
    (twoRuns.object (file sameUser false)) hfirst.fits
  have hfirstStep : Step sameUser twoRuns _ _ := .setPartition rfl hfirst hset
  let afterFirst := twoRuns.wrote sameUser false [firstId] firstId written
  obtain ⟨rewritten, hreset, hholds⟩ := setPartition_holds
    (afterFirst.object (file sameUser true)) hsecond.fits
  have hsecondStep : Step sameUser afterFirst _ _ := .setPartition rfl hsecond hreset
  let both := afterFirst.wrote sameUser true [secondId] secondId rewritten
  have hobject : both.object (file sameUser process) = rewritten := by
    simp [both, Session.wrote, file, sameUser]
  have hround : both.round process = some ⟨[ownId process], ownId process, []⟩ := by
    cases process <;> simp [both, afterFirst, Session.wrote, ownId]
  have hholds : Holds [secondId] inputTerminator (both.object (file sameUser process)) :=
    hobject.symm ▸ hholds
  obtain ⟨hresult, hgot⟩ := sameValue_got (ownId process) (by decide) hholds
  have hevaluate : Step sameUser both _ _ := .evaluate hround hresult
  let evaluated := both.ran sameUser process ⟨[ownId process], ownId process, []⟩ sameValue
    (sameValue.after true (ownId process) (both.object (file sameUser process)) 8).memory
  have hrunning : evaluated.round process =
      some ⟨[ownId process], ownId process, [sameValue]⟩ := by
    simp [evaluated, Session.ran]
  have hget : Step sameUser evaluated (.getPartition process {secondId}) _ :=
    .getPartition hrunning (by simpa [evaluated, Session.ran] using hgot)
  refine ⟨_, _, _, .tail (.tail (.tail (.tail .refl hfirstStep) hsecondStep) hevaluate) hget,
    List.mem_append_right _ (List.mem_singleton.mpr rfl), ?_, ?_⟩
  · simp [Session.ran, both, Session.wrote, file, sameUser]
  · exact ⟨_, hrunning, rfl⟩

theorem twoRuns_fresh : twoRuns.Fresh := ⟨fun _ => rfl, fun _ => rfl⟩

theorem partitions_unmixed_lastWriter :
    ∃ steps session final, Run sameUser twoRuns steps final ∧
      (session, .getPartition true {secondId}) ∈ steps ∧
      session.Unmixed (.getPartition true {secondId}) := by
  obtain ⟨steps, session, final, hrun, hstep, hwriter, -⟩ := twoRuns_run true
  exact ⟨steps, session, final, hrun, hstep,
    partitions_unmixed twoRuns_fresh hrun _ hstep (.inl hwriter)⟩

/-- The first process takes the id of the second for one of its own. -/
theorem partitions_mixed :
    ¬ ∀ {steps : List (Session Bool Nat (fun _ => Set.univ) × Action Nat fun _ => Set.univ)}
        {start final : Session Bool Nat fun _ => Set.univ},
      start.Fresh → Run sameUser start steps final →
        ∀ step ∈ steps, step.1.Unmixed step.2 := by
  intro hunmixed
  obtain ⟨steps, session, final, hrun, hstep, -, round, hround, hids⟩ := twoRuns_run false
  have hagreed := hunmixed twoRuns_fresh hrun _ hstep round hround secondId (by simp)
  have hmem : secondId ∈ [ownId false] := hids ▸ hagreed.1
  exact absurd hmem (by decide)

end Session

end F1X
