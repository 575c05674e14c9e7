import F1X.Library.CGrammar
import F1X.Library.LP64

/-!
# Execution of parsed expressions on a machine with 32-bit `int`

Arithmetic wraps and shift counts are masked, so that only a division traps: by
zero, or of the least value of a signed type by -1.  Operands have the type of
the variable they name; the branches of a conditional expression are converted
to their common type.
-/

namespace F1X.Library

/-! ## Operations -/

namespace Wrapping

def castType : CastTarget → IntType
  | .long => .long
  | .unsignedInt => .unsignedInt
  -- an address is a number of this type
  | .unsignedLong | .pointer => .unsignedLong

def unary (op : UnaryOp) (number : CInt) : CInt :=
  match op with
  | .plain => number
  | .neg => .wrap number.type (-number.value)
  | .not => .ofBool (number.value = 0)
  | .bitNot => .wrap number.type (-number.value - 1)
  | .cast target => .convert (castType target) number

/-- The type in which an operation is carried out. -/
def operationType (op : BinaryOp) (first second : IntType) : IntType :=
  match op with
  | .shl | .shr => first
  | _ => IntType.common first second

def arithmetic (op : BinaryOp) (type : IntType) (first second : Int) : Int :=
  match op with
  | .add => first + second
  | .sub => first - second
  | .mul => first * second
  | .div => first.tdiv second
  | .mod => first.tmod second
  | .bitAnd => first.land second
  | .bitOr => first.lor second
  | .bitXor => first.xor second
  | .shl => first * 2 ^ (second % type.width).toNat
  | .shr => first / 2 ^ (second % type.width).toNat
  | _ => 0

/-- The value of an operation that does not trap; a connective has its right operand left. -/
def binary (op : BinaryOp) (number other : CInt) : CInt :=
  let type := operationType op number.type other.type
  if op = .logAnd ∨ op = .logOr then .ofBool (other.value ≠ 0)
  else if op.isComparison then
    .ofBool (op.holds (CInt.convert type number).value (CInt.convert type other).value)
  else if op = .shl ∨ op = .shr then
    .wrap type (arithmetic op type number.value other.value)
  else
    .wrap type
      (arithmetic op type (CInt.convert type number).value (CInt.convert type other).value)

/-- The quotient is one more than the largest value of its type. -/
def Overflows (number other : CInt) : Prop :=
  let type := IntType.common number.type other.type
  type.isSigned = true ∧ (CInt.convert type number).value = type.least ∧
    (CInt.convert type other).value = -1

instance (number other : CInt) : Decidable (Overflows number other) :=
  inferInstanceAs (Decidable (_ ∧ _ ∧ _))

def Traps (op : BinaryOp) (number other : CInt) : Prop :=
  op.IsDivision ∧
    ((CInt.convert (IntType.common number.type other.type) other).value = 0 ∨
      Overflows number other)

instance (op : BinaryOp) : Decidable op.IsDivision :=
  inferInstanceAs (Decidable (_ ∨ _))

instance (op : BinaryOp) (number other : CInt) : Decidable (Traps op number other) :=
  inferInstanceAs (Decidable (_ ∧ _))

end Wrapping

namespace CTree

open Wrapping

/-- The static type of an expression, `declared` being that of its operands. -/
def typeWith (declared : String → IntType) : CTree → IntType
  | .operand text => declared text
  | .number _ | .name _ => .int
  | .unary op arg =>
      match op with
      | .not => .int
      | .cast target => castType target
      | _ => arg.typeWith declared
  | .binary op left right =>
      if op.isBoolean then .int
      else operationType op (left.typeWith declared) (right.typeWith declared)
  | .conditional _ first second =>
      IntType.common (first.typeWith declared) (second.typeWith declared)
  | .assign _ _ rest => rest.typeWith declared

/-- `none` is a trap.  The variable of an assignment is a flag that no operand names. -/
def execute (read : String → CInt) : CTree → Option CInt
  | .operand text => some (read text)
  | .number text => some (.wrap .int (Nat.ofDigitChars 10 text.toList 0))
  | .name text => some (.ofBool (text = "true"))
  | .unary op arg => (arg.execute read).map (Wrapping.unary op)
  | .binary op left right => do
      let number ← left.execute read
      match LP64.decided op number with
      | some result => some result
      | none => do
          let other ← right.execute read
          if Traps op number other then none else some (Wrapping.binary op number other)
  | .conditional condition first second => do
      let test ← condition.execute read
      let type := (CTree.conditional condition first second).typeWith fun text => (read text).type
      if test.value ≠ 0 then (first.execute read).map (CInt.convert type)
      else (second.execute read).map (CInt.convert type)
  | .assign _ value rest => do
      let _ ← value.execute read
      rest.execute read

end CTree

/-! ## Rules -/

/-- A tree traps unless `safe`, and has the value if it does not trap. -/
structure Executes (read : String → CInt) (tree : CTree) (value : CInt) (safe : Prop) :
    Prop where
  type : tree.typeWith (fun text => (read text).type) = value.type
  runs : safe → tree.execute read = some value
  traps : ¬safe → tree.execute read = none

namespace Executes

open Wrapping

variable {read : String → CInt} {tree left right arg first second : CTree}
  {value number other : CInt} {safe leftSafe rightSafe : Prop}

theorem iff (h : Executes read tree value safe) {other : Prop} (hiff : safe ↔ other) :
    Executes read tree value other := by
  cases propext hiff
  exact h

theorem execute_ne_none (h : Executes read tree value safe) :
    tree.execute read ≠ none ↔ safe := by
  constructor
  · intro hne
    by_contra hunsafe
    exact hne (h.traps hunsafe)
  · intro hsafe hnone
    rw [h.runs hsafe] at hnone
    cases hnone

theorem operand (read : String → CInt) (text : String) :
    Executes read (.operand text) (read text) True :=
  ⟨rfl, fun _ => rfl, fun h => absurd trivial h⟩

theorem unary (op : UnaryOp) (h : Executes read arg value safe) :
    Executes read (.unary op arg) (Wrapping.unary op value) safe := by
  constructor
  · cases op with
    | plain | neg | bitNot => exact h.type
    | not | cast => rfl
  · intro hsafe
    simp [CTree.execute, h.runs hsafe]
  · intro hunsafe
    simp [CTree.execute, h.traps hunsafe]

private theorem type_binary {op : BinaryOp} :
    (Wrapping.binary op number other).type =
      if op.isBoolean then .int else operationType op number.type other.type := by
  cases op <;> rfl

private theorem type_decided {op : BinaryOp} {result : CInt}
    (h : LP64.decided op number = some result) : op.isBoolean = true ∧ result.type = .int := by
  cases op <;> simp [LP64.decided] at h
  · exact ⟨rfl, by rw [← h.2]; rfl⟩
  · exact ⟨rfl, by rw [← h.2]; rfl⟩

/-- The right operand of a connective is executed only if the left one does not decide. -/
theorem binary (op : BinaryOp) (hleft : Executes read left number leftSafe)
    (hright : Executes read right other rightSafe) :
    Executes read (.binary op left right)
      ((LP64.decided op number).getD (Wrapping.binary op number other))
      (leftSafe ∧ (LP64.decided op number = none → rightSafe ∧ ¬Traps op number other)) := by
  constructor
  · rw [CTree.typeWith, hleft.type, hright.type]
    cases hdecided : LP64.decided op number with
    | none => exact type_binary.symm
    | some result =>
        obtain ⟨hboolean, hint⟩ := type_decided hdecided
        rw [if_pos hboolean]
        exact hint.symm
  · rintro ⟨hleftSafe, hrest⟩
    cases hdecided : LP64.decided op number with
    | none =>
        obtain ⟨hrightSafe, htraps⟩ := hrest hdecided
        simp [CTree.execute, hleft.runs hleftSafe, hdecided, hright.runs hrightSafe, htraps]
    | some result => simp [CTree.execute, hleft.runs hleftSafe, hdecided]
  · intro hunsafe
    by_cases hleftSafe : leftSafe
    · obtain ⟨hdecided, hrest⟩ : LP64.decided op number = none ∧
          (rightSafe → Traps op number other) := by
        simpa [hleftSafe] using hunsafe
      by_cases hrightSafe : rightSafe
      · simp [CTree.execute, hleft.runs hleftSafe, hdecided, hright.runs hrightSafe,
          hrest hrightSafe]
      · simp [CTree.execute, hleft.runs hleftSafe, hdecided, hright.traps hrightSafe]
    · simp [CTree.execute, hleft.traps hleftSafe]

theorem total (op : BinaryOp) (hop : ¬op.IsDivision)
    (hleft : Executes read left number leftSafe) (hright : Executes read right other rightSafe) :
    Executes read (.binary op left right)
      ((LP64.decided op number).getD (Wrapping.binary op number other))
      (leftSafe ∧ (LP64.decided op number = none → rightSafe)) := by
  have htraps : ¬Traps op number other := fun h => hop h.1
  exact (hleft.binary op hright).iff (by simp [htraps])

theorem conditional {condition : CTree} {test : CInt} {testSafe : Prop}
    (hcondition : Executes read condition test testSafe)
    (hfirst : Executes read first number leftSafe)
    (hsecond : Executes read second other rightSafe) :
    Executes read (.conditional condition first second)
      (CInt.convert (IntType.common number.type other.type)
        (if test.value ≠ 0 then number else other))
      (testSafe ∧ if test.value ≠ 0 then leftSafe else rightSafe) := by
  have htype : (CTree.conditional condition first second).typeWith
      (fun text => (read text).type) = IntType.common number.type other.type := by
    rw [CTree.typeWith, hfirst.type, hsecond.type]
  constructor
  · exact htype
  · rintro ⟨htest, hbranch⟩
    by_cases hvalue : test.value ≠ 0
    · rw [if_pos hvalue] at hbranch
      simp [CTree.execute, hcondition.runs htest, hvalue, hfirst.runs hbranch, htype]
    · rw [if_neg hvalue] at hbranch
      simp [CTree.execute, hcondition.runs htest, hvalue, hsecond.runs hbranch, htype]
  · intro hunsafe
    by_cases htest : testSafe
    · by_cases hvalue : test.value ≠ 0
      · have hbranch : ¬leftSafe := by simpa [htest, hvalue] using hunsafe
        simp [CTree.execute, hcondition.runs htest, hvalue, hfirst.traps hbranch]
      · have hbranch : ¬rightSafe := by simpa [htest, hvalue] using hunsafe
        simp [CTree.execute, hcondition.runs htest, hvalue, hsecond.traps hbranch]
    · simp [CTree.execute, hcondition.traps htest]

theorem assign {variable_ : String} (hvalue : Executes read first number True)
    (hrest : Executes read second other safe) :
    Executes read (.assign variable_ first second) other safe := by
  constructor
  · exact hrest.type
  · intro hsafe
    simp [CTree.execute, hvalue.runs trivial, hrest.runs hsafe]
  · intro hunsafe
    simp [CTree.execute, hvalue.runs trivial, hrest.traps hunsafe]

theorem zero (read : String → CInt) : Executes read (.number "0") (.ofBool false) True := by
  refine ⟨rfl, fun _ => congrArg some ?_, fun h => absurd trivial h⟩
  decide

private theorem nonzero (other : CInt) :
    (Wrapping.binary .ne other (.ofBool false)).value ≠ 0 ↔ other.value ≠ 0 := by
  have hzero : (CInt.convert other.type (.ofBool false)).value = 0 := other.type.wrap_zero
  have hother : (CInt.convert other.type other).value = other.value :=
    CInt.convert_value other.inRange
  have htype : IntType.common other.type (CInt.ofBool false).type = other.type :=
    other.type.common_int
  simp [Wrapping.binary, operationType, htype, hzero, hother, BinaryOp.isComparison,
    BinaryOp.holds, CInt.ofBool_value, ofBool_eq_zero]

theorem guardedDivision {op : BinaryOp} (hop : op.IsDivision) {panic : CTree}
    (hleft : Executes read left number leftSafe) (hright : Executes read right other rightSafe)
    (hpanic : Executes read panic (.ofBool false) True) :
    Executes read
      (.conditional (.binary .ne right (.number "0")) (.binary op left right) panic)
      (if other.value = 0 then .wrap (IntType.common number.type other.type) 0
        else Wrapping.binary op number other)
      (rightSafe ∧ (other.value ≠ 0 → leftSafe ∧ ¬Overflows number other)) := by
  have hdecided : LP64.decided op number = none := by
    rcases hop with rfl | rfl <;> rfl
  have htype : (Wrapping.binary op number other).type =
      IntType.common number.type other.type := by
    rcases hop with rfl | rfl <;> rfl
  have htest := hright.total .ne (by rintro (h | h) <;> cases h) (zero read)
  have hchoice := htest.conditional (hleft.binary op hright) hpanic
  have hcondition : ((LP64.decided .ne other).getD
      (Wrapping.binary .ne other (.ofBool false))).value ≠ 0 ↔ other.value ≠ 0 :=
    nonzero other
  simp only [hcondition, hdecided, Option.getD_none, htype,
    show (CInt.ofBool false).type = .int from rfl, IntType.common_int] at hchoice
  by_cases hzero : other.value = 0
  · simp only [hzero, ne_eq, not_true_eq_false, if_true, if_false, false_imp_iff] at hchoice ⊢
    exact hchoice.iff (by simp)
  · have htraps : Traps op number other ↔ Overflows number other := by
      simp [Traps, hop, CInt.convert_common_eq_zero, hzero]
    rw [if_pos hzero, if_pos hzero, ← htype, CInt.convert_self] at hchoice
    rw [if_neg hzero]
    exact hchoice.iff (by simp [hzero, htraps]; tauto)

end Executes

end F1X.Library
