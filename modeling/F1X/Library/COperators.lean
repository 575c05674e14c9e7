import F1X.Library.GuardedTerm
import Mathlib.Data.Int.Bitwise

/-!
# The operators of C expressions

Operators by their text, the laws of a C machine that a translation relies on,
and the machine of the mathematical integers.
-/

namespace F1X.Library

inductive CastTarget where
  | long
  | unsignedInt
  | unsignedLong
  | pointer
  deriving DecidableEq, Repr

/-- `plain` is the operator with no text. -/
inductive UnaryOp where
  | plain
  | neg
  | not
  | bitNot
  | cast (target : CastTarget)
  deriving DecidableEq, Repr

inductive BinaryOp where
  | eq | ne | lt | le | gt | ge
  | logOr | logAnd
  | add | sub | mul | div | mod
  | bitAnd | bitOr | bitXor | shl | shr
  deriving DecidableEq, Repr

def UnaryOp.ofText (text : String) : Option UnaryOp :=
  if text = "" then some .plain
  else if text = "-" then some .neg
  else if text = "!" then some .not
  else if text = "~" then some .bitNot
  else if text = "(long)" then some (.cast .long)
  else if text = "(unsigned)" then some (.cast .unsignedInt)
  else if text = "(unsigned long)" then some (.cast .unsignedLong)
  else if text = "(void*)" then some (.cast .pointer)
  else none

def BinaryOp.ofText (text : String) : Option BinaryOp :=
  if text = "==" then some .eq
  else if text = "!=" then some .ne
  else if text = "<" then some .lt
  else if text = "<=" then some .le
  else if text = ">" then some .gt
  else if text = ">=" then some .ge
  else if text = "||" then some .logOr
  else if text = "&&" then some .logAnd
  else if text = "+" then some .add
  else if text = "-" then some .sub
  else if text = "*" then some .mul
  else if text = "/" then some .div
  else if text = "%" then some .mod
  else if text = "&" then some .bitAnd
  else if text = "|" then some .bitOr
  else if text = "^" then some .bitXor
  else if text = "<<" then some .shl
  else if text = ">>" then some .shr
  else none

namespace BinaryOp

def IsDivision (op : BinaryOp) : Prop := op = .div ∨ op = .mod

def isBoolean : BinaryOp → Bool
  | .eq | .ne | .lt | .le | .gt | .ge | .logOr | .logAnd => true
  | _ => false

def isComparison : BinaryOp → Bool
  | .eq | .ne | .lt | .le | .gt | .ge => true
  | _ => false

def holds (op : BinaryOp) (first second : Int) : Bool :=
  match op with
  | .eq => first = second
  | .ne => first ≠ second
  | .lt => first < second
  | .le => first ≤ second
  | .gt => first > second
  | .ge => first ≥ second
  | _ => false

end BinaryOp

/-- How a machine reads the literals, the variables and the conversions of C. -/
structure CMachine (V : Type*) extends Machine UnaryOp BinaryOp V where
  /-- The literal of a type with a given text. -/
  literal : String → String → V
  /-- A number stored in a variable of the parameter type. -/
  param : Nat → V
  /-- A number stored in a variable of type `int` as 0 or 1. -/
  flag : Bool → V
  /-- A value stored in a variable of a given type. -/
  convert : String → V → V

namespace CMachine

variable {V : Type*}

def zero (machine : CMachine V) : V := machine.literal "int" "0"

def nonZero (machine : CMachine V) (value : V) : V :=
  (machine.binary .ne value machine.zero).getD value

/-- What guarding a division and hoisting a condition rely on. -/
structure Lawful (machine : CMachine V) : Prop where
  decided : ∀ op value, op.IsDivision → machine.decided op value = none
  test : ∀ value, machine.decided .ne value = none ∧
    machine.binary .ne value machine.zero = some (machine.nonZero value)
  divide : ∀ op value other, op.IsDivision →
    machine.truth (machine.nonZero other) = false → machine.binary op value other = none
  truth_flag : ∀ b, machine.truth (machine.flag b) = b

/-- Nothing but a division by zero is undefined. -/
structure Total (machine : CMachine V) : Prop where
  unary : ∀ op value, machine.unary op value ≠ none
  binary : ∀ op value other, ¬op.IsDivision → machine.binary op value other ≠ none
  divide : ∀ op value other, op.IsDivision →
    machine.truth (machine.nonZero other) = true → machine.binary op value other ≠ none

/-- Comparisons and connectives yield what a variable of type `bool` can hold. -/
structure Boolean (machine : CMachine V) : Prop where
  decided : ∀ op value result, op.isBoolean = true →
    machine.decided op value = some result → machine.flag (machine.truth result) = result
  binary : ∀ op value other result, op.isBoolean = true →
    machine.binary op value other = some result →
      machine.flag (machine.truth result) = result

theorem Boolean.eval {machine : CMachine V} (h : machine.Boolean) {A : Type*}
    {env : A → Result V} {op : BinaryOp} (hop : op.isBoolean = true)
    {left right : Term A UnaryOp BinaryOp} {result : V} {raised : Bool}
    (heval : (Term.binary op left right).eval machine.toMachine env =
      some (result, raised)) : machine.flag (machine.truth result) = result := by
  rcases Term.eval_binary_eq_some heval with ⟨value, hdecided⟩ | ⟨value, other, hbinary⟩
  · exact h.decided op value result hop hdecided
  · exact h.binary op value other result hop hbinary

end CMachine

/-! ## Mathematical integers -/

def ofBool (b : Bool) : Int := if b then 1 else 0

namespace Integers

def unary (op : UnaryOp) (value : Int) : Int :=
  match op with
  | .plain | .cast _ => value
  | .neg => -value
  | .not => ofBool (value = 0)
  | .bitNot => -value - 1

def decided (op : BinaryOp) (value : Int) : Option Int :=
  match op with
  | .logAnd => if value = 0 then some 0 else none
  | .logOr => if value = 0 then none else some 1
  | _ => none

def binary (op : BinaryOp) (value other : Int) : Option Int :=
  match op with
  | .eq | .ne | .lt | .le | .gt | .ge => some (ofBool (op.holds value other))
  | .logAnd | .logOr => some (ofBool (other ≠ 0))
  | .add => some (value + other)
  | .sub => some (value - other)
  | .mul => some (value * other)
  | .div => if other = 0 then none else some (value.tdiv other)
  | .mod => if other = 0 then none else some (value.tmod other)
  | .bitAnd => some (value.land other)
  | .bitOr => some (value.lor other)
  | .bitXor => some (value.xor other)
  | .shl => some (value * 2 ^ other.toNat)
  | .shr => some (value / 2 ^ other.toNat)

end Integers

/-- Only the meaning of literals is left open. -/
def integers (literal : String → String → Int) : CMachine Int where
  unary op value := some (Integers.unary op value)
  decided := Integers.decided
  binary := Integers.binary
  truth value := value ≠ 0
  dummy := 0
  literal := literal
  param n := n
  flag := ofBool
  convert _ value := value

theorem ofBool_eq_zero (b : Bool) : ofBool b = 0 ↔ b = false := by
  cases b <;> decide

theorem integers_nonZero {literal : String → String → Int}
    (hzero : literal "int" "0" = 0) (value : Int) :
    (integers literal).truth ((integers literal).nonZero value) = decide (value ≠ 0) := by
  simp [integers, CMachine.nonZero, CMachine.zero, Integers.binary, hzero, ofBool_eq_zero,
    BinaryOp.holds]

theorem integers_lawful {literal : String → String → Int}
    (hzero : literal "int" "0" = 0) : (integers literal).Lawful where
  decided op value hop := by
    rcases hop with rfl | rfl <;> rfl
  test value := ⟨rfl, rfl⟩
  divide op value other hop htruth := by
    rw [integers_nonZero hzero, decide_eq_false_iff_not, not_not] at htruth
    rcases hop with rfl | rfl <;> simp [integers, Integers.binary, htruth]
  truth_flag b := by simp [integers, ofBool_eq_zero]

private theorem integers_flag {literal : String → String → Int} (b : Bool) :
    (integers literal).flag ((integers literal).truth (ofBool b)) = ofBool b := by
  cases b <;> rfl

theorem integers_boolean {literal : String → String → Int} :
    (integers literal).Boolean where
  decided op value result hop h := by
    cases op <;> simp [integers, Integers.decided] at h
    all_goals
      rw [← h.2]
      rfl
  binary op value other result hop h := by
    cases op <;> simp only [BinaryOp.isBoolean, Bool.false_eq_true] at hop
    all_goals
      obtain rfl := Option.some.inj h
      exact integers_flag _

theorem integers_total {literal : String → String → Int}
    (hzero : literal "int" "0" = 0) : (integers literal).Total where
  unary op value := by simp [integers]
  binary op value other hop := by
    cases op <;> simp_all [integers, Integers.binary, BinaryOp.IsDivision]
  divide op value other hop htruth := by
    rw [integers_nonZero hzero, decide_eq_true_eq] at htruth
    rcases hop with rfl | rfl <;> simp [integers, Integers.binary, htruth]

end F1X.Library
