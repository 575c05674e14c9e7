import F1X.Runtime.Partition
import Mathlib.Logic.Function.Iterate

/-!
# The generated function of a location

The body that `generator::partitioningFunctions` emits around the candidate
dispatch: a `goto` loop that evaluates the current candidate first and then
every id of the shared buffer, keeps the ids that agree with the current one,
and closes the kept list with the output terminator.  One transition is one
statement with at most one access to the buffer that can change it; a test
timeout may stop the process after any number of transitions.
-/

namespace F1X

inductive Outcome (V : Type*) where
  | panic
  | value (result : V)
  deriving DecidableEq, Repr

/-- The locals that the emitted dispatch reads and writes. -/
structure Locals (V : Type*) where
  baseValue : V
  bool2Value : V
  paramValue : V
  currentPanic : Bool

namespace Locals

variable {V : Type*}

def outcome (locals : Locals V) : Outcome V :=
  if locals.currentPanic then .panic else .value locals.baseValue

def calm (locals : Locals V) : Locals V := { locals with currentPanic := false }

end Locals

/-- The emitted dispatch; `none` when the evaluation of a candidate traps. -/
abbrev Dispatch (V : Type*) := PatchID → Locals V → Option (Locals V)

inductive Access where
  | load (index : Nat)
  | store (index : Nat)
  deriving DecidableEq, Repr

def Access.index : Access → Nat
  | .load index | .store index => index

/-- Program points; the last four are final. -/
inductive ProgramPoint where
  | label
  | compare
  | advance
  | terminate
  | leave
  | returned
  | aborted
  | trapped
  | outOfBounds
  deriving DecidableEq, Repr

/--
The frame of one call together with the shared buffer.  `accesses` is ghost
state: the buffer accesses made so far, latest first.
-/
structure Frame (V : Type*) where
  point : ProgramPoint
  id : PatchID
  locals : Locals V
  outputValue : V
  outputInitialized : Bool
  inputIndex : Nat
  outputIndex : Nat
  outputPanic : Bool
  memory : PartitionMemory
  accesses : List Access

namespace Frame

variable {V : Type*}

def outputOutcome (frame : Frame V) : Outcome V :=
  if frame.outputPanic then .panic else .value frame.outputValue

def store (frame : Frame V) (entry : PatchID) (next : Frame V → Frame V) :
    Frame V :=
  if frame.outputIndex < maxPartitionSize then
    next { frame with
      memory := Function.update frame.memory frame.outputIndex entry
      accesses := .store frame.outputIndex :: frame.accesses }
  else { frame with point := .outOfBounds }

def load (frame : Frame V) (next : PatchID → Frame V → Frame V) : Frame V :=
  if frame.inputIndex < maxPartitionSize then
    next (frame.memory frame.inputIndex) { frame with
      accesses := .load frame.inputIndex :: frame.accesses }
  else { frame with point := .outOfBounds }

def finished (frame : Frame V) : Bool :=
  frame.point = .returned || frame.point = .aborted

def result (frame : Frame V) : Option (Outcome V) :=
  match frame.point with
  | .returned => some (.value frame.outputValue)
  | .aborted => some .panic
  | _ => none

end Frame

section Step

variable {V : Type*} [DecidableEq V]

/--
One statement of the generated function.  `valueTEQ` is the configuration flag
under which the buffer code is emitted; without it `__f1xids` stays null.
-/
def step (valueTEQ : Bool) (dispatch : Dispatch V) (frame : Frame V) : Frame V :=
  match frame.point with
  | .label =>
      match dispatch frame.id frame.locals.calm with
      | none => { frame with point := .trapped }
      | some locals => { frame with point := .compare, locals := locals }
  | .compare =>
      if !frame.outputInitialized then
        { frame with
          point := .advance
          outputPanic := frame.locals.currentPanic
          outputValue := frame.locals.baseValue
          outputInitialized := true }
      else if (frame.outputPanic && frame.locals.currentPanic) ||
          (!frame.outputPanic && !frame.locals.currentPanic &&
            frame.outputValue == frame.locals.baseValue) then
        if valueTEQ then
          frame.store frame.id fun stored =>
            { stored with point := .advance, outputIndex := stored.outputIndex + 1 }
        else { frame with point := .advance }
      else { frame with point := .advance }
  | .advance =>
      if valueTEQ then
        frame.load fun entry loaded =>
          if entry.base ≠ 0 then
            { loaded with
              point := .label
              id := entry
              inputIndex := loaded.inputIndex + 1 }
          else { loaded with point := .terminate }
      else { frame with point := .leave }
  | .terminate =>
      frame.store outputTerminator fun stored => { stored with point := .leave }
  | .leave =>
      if frame.outputPanic then { frame with point := .aborted }
      else { frame with point := .returned }
  | .returned | .aborted | .trapped | .outOfBounds => frame

structure Call (V : Type*) where
  dispatch : Dispatch V
  uninitialized : Locals V

def Call.enter (call : Call V) [Zero V] (current : PatchID)
    (memory : PartitionMemory) : Frame V :=
  { point := .label
    id := current
    locals := call.uninitialized
    outputValue := 0
    outputInitialized := false
    inputIndex := 0
    outputIndex := 0
    outputPanic := false
    memory := memory
    accesses := [] }

def Call.after [Zero V] (valueTEQ : Bool) (call : Call V) (current : PatchID)
    (memory : PartitionMemory) (steps : Nat) : Frame V :=
  (step valueTEQ call.dispatch)^[steps] (call.enter current memory)

def evaluations [Zero V] (fuel : Nat) (current : PatchID) :
    List (Call V) → PartitionMemory → PartitionMemory
  | [], memory => memory
  | call :: calls, memory =>
      evaluations fuel current calls (call.after true current memory fuel).memory

theorem outcome_eq_iff (frame : Frame V) :
    ((frame.outputPanic && frame.locals.currentPanic) ||
        (!frame.outputPanic && !frame.locals.currentPanic &&
          frame.outputValue == frame.locals.baseValue)) = true ↔
      frame.outputOutcome = frame.locals.outcome := by
  cases hout : frame.outputPanic <;> cases hcur : frame.locals.currentPanic <;>
    simp [Frame.outputOutcome, Locals.outcome, hout, hcur]

/-! ## One statement at each point -/

section Equations

variable (valueTEQ : Bool) (dispatch : Dispatch V) {frame : Frame V}

theorem step_label_none (point : frame.point = .label)
    (h : dispatch frame.id frame.locals.calm = none) :
    step valueTEQ dispatch frame = { frame with point := .trapped } := by
  simp [step, point, h]

theorem step_label_some (point : frame.point = .label) {locals : Locals V}
    (h : dispatch frame.id frame.locals.calm = some locals) :
    step valueTEQ dispatch frame = { frame with point := .compare, locals := locals } := by
  simp [step, point, h]

theorem step_compare_initial (point : frame.point = .compare)
    (first : frame.outputInitialized = false) :
    step valueTEQ dispatch frame =
      { frame with
        point := .advance
        outputPanic := frame.locals.currentPanic
        outputValue := frame.locals.baseValue
        outputInitialized := true } := by
  simp [step, point, first]

theorem step_compare_same (point : frame.point = .compare)
    (initialized : frame.outputInitialized = true)
    (hsame : frame.outputOutcome = frame.locals.outcome)
    (hbound : frame.outputIndex < maxPartitionSize) :
    step true dispatch frame =
      { frame with
        point := .advance
        outputIndex := frame.outputIndex + 1
        memory := Function.update frame.memory frame.outputIndex frame.id
        accesses := .store frame.outputIndex :: frame.accesses } := by
  simp only [step, point, initialized, (outcome_eq_iff frame).mpr hsame, Frame.store, hbound]
  simp

theorem step_compare_other (point : frame.point = .compare)
    (initialized : frame.outputInitialized = true)
    (hother : frame.outputOutcome ≠ frame.locals.outcome) :
    step valueTEQ dispatch frame = { frame with point := .advance } := by
  simp only [step, point, initialized]
  rw [if_neg (by simp), if_neg (mt (outcome_eq_iff frame).mp hother)]

theorem step_advance_entry (point : frame.point = .advance)
    (hbound : frame.inputIndex < maxPartitionSize)
    (hbase : (frame.memory frame.inputIndex).base ≠ 0) :
    step true dispatch frame =
      { frame with
        point := .label
        id := frame.memory frame.inputIndex
        inputIndex := frame.inputIndex + 1
        accesses := .load frame.inputIndex :: frame.accesses } := by
  simp [step, point, Frame.load, hbound, hbase]

theorem step_advance_end (point : frame.point = .advance)
    (hbound : frame.inputIndex < maxPartitionSize)
    (hbase : (frame.memory frame.inputIndex).base = 0) :
    step true dispatch frame =
      { frame with
        point := .terminate
        accesses := .load frame.inputIndex :: frame.accesses } := by
  simp [step, point, Frame.load, hbound, hbase]

theorem step_terminate_eq (point : frame.point = .terminate)
    (hbound : frame.outputIndex < maxPartitionSize) :
    step valueTEQ dispatch frame =
      { frame with
        point := .leave
        memory := Function.update frame.memory frame.outputIndex outputTerminator
        accesses := .store frame.outputIndex :: frame.accesses } := by
  simp [step, point, Frame.store, hbound]

theorem step_leave_eq (point : frame.point = .leave) :
    step valueTEQ dispatch frame =
      { frame with point := if frame.outputPanic then .aborted else .returned } := by
  cases hpanic : frame.outputPanic <;> simp [step, point, hpanic]

theorem step_trapped (point : frame.point = .trapped) :
    step valueTEQ dispatch frame = frame := by
  simp [step, point]

end Equations

@[simp] theorem step_finished (valueTEQ : Bool) (dispatch : Dispatch V)
    {frame : Frame V} (h : frame.finished = true) :
    step valueTEQ dispatch frame = frame := by
  simp only [Frame.finished, Bool.or_eq_true, decide_eq_true_eq] at h
  rcases h with h | h <;> simp [step, h]

omit [DecidableEq V] in
theorem finished_of_result {frame : Frame V} {outcome : Outcome V}
    (h : frame.result = some outcome) : frame.finished = true := by
  unfold Frame.result at h
  split at h
  · rename_i hpoint
    simp [Frame.finished, hpoint]
  · rename_i hpoint
    simp [Frame.finished, hpoint]
  · cases h

theorem Call.after_finished [Zero V] {valueTEQ : Bool} {call : Call V} {current : PatchID}
    {memory : PartitionMemory} {steps fuel : Nat} {outcome : Outcome V}
    (h : (call.after valueTEQ current memory steps).result = some outcome)
    (hfuel : steps ≤ fuel) :
    call.after valueTEQ current memory fuel = call.after valueTEQ current memory steps := by
  obtain ⟨extra, rfl⟩ := Nat.exists_eq_add_of_le hfuel
  have hfixed := step_finished valueTEQ call.dispatch (finished_of_result h)
  rw [Call.after, Nat.add_comm, Function.iterate_add_apply]
  exact Function.iterate_fixed hfixed extra

end Step

end F1X
