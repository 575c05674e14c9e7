import F1X.Library.COperators

/-!
# Integer types of the LP64 data model

Values of the promoted integer types, the usual arithmetic conversions, and the
machine in which signed overflow is undefined and unsigned arithmetic wraps.
-/

namespace F1X.Library

/-- The integer types of rank at least `int`. -/
inductive IntType where
  | int
  | unsignedInt
  | long
  | unsignedLong
  | longLong
  | unsignedLongLong
  deriving DecidableEq, Repr

namespace IntType

def isSigned : IntType → Bool
  | .int | .long | .longLong => true
  | .unsignedInt | .unsignedLong | .unsignedLongLong => false

def rank : IntType → Nat
  | .int | .unsignedInt => 0
  | .long | .unsignedLong => 1
  | .longLong | .unsignedLongLong => 2

def width : IntType → Nat
  | .int | .unsignedInt => 32
  | .long | .unsignedLong | .longLong | .unsignedLongLong => 64

def toUnsigned : IntType → IntType
  | .int | .unsignedInt => .unsignedInt
  | .long | .unsignedLong => .unsignedLong
  | .longLong | .unsignedLongLong => .unsignedLongLong

/-- The least value of a type, and the number of its values. -/
def least : IntType → Int
  | .int => -2147483648
  | .long | .longLong => -9223372036854775808
  | .unsignedInt | .unsignedLong | .unsignedLongLong => 0

def size : IntType → Int
  | .int | .unsignedInt => 4294967296
  | .long | .unsignedLong | .longLong | .unsignedLongLong => 18446744073709551616

def Contains (type : IntType) (value : Int) : Prop :=
  type.least ≤ value ∧ value < type.least + type.size

instance (type : IntType) (value : Int) : Decidable (type.Contains value) :=
  inferInstanceAs (Decidable (_ ∧ _))

/-- The value of the type that is congruent to a number. -/
def wrap (type : IntType) (value : Int) : Int :=
  (value - type.least) % type.size + type.least

theorem size_pos (type : IntType) : 0 < type.size := by
  cases type <;> decide

theorem contains_wrap (type : IntType) (value : Int) : type.Contains (type.wrap value) := by
  have hnonneg := Int.emod_nonneg (value - type.least) (Int.ne_of_gt type.size_pos)
  have hlt := Int.emod_lt_of_pos (value - type.least) type.size_pos
  simp only [Contains, wrap]
  omega

theorem wrap_of_contains {type : IntType} {value : Int} (h : type.Contains value) :
    type.wrap value = value := by
  obtain ⟨hleast, hlt⟩ := h
  rw [wrap, Int.emod_eq_of_lt (by omega) (by omega)]
  omega

theorem wrap_zero (type : IntType) : type.wrap 0 = 0 := by
  cases type <;> decide

def common (first second : IntType) : IntType :=
  if first.isSigned = second.isSigned then
    if first.rank < second.rank then second else first
  else
    let (signed, unsigned) := if first.isSigned then (first, second) else (second, first)
    if signed.rank ≤ unsigned.rank then unsigned
    else if unsigned.width < signed.width then signed
    else signed.toUnsigned

theorem common_int (type : IntType) : common type .int = type := by
  cases type <;> rfl

end IntType

structure CInt where
  type : IntType
  value : Int
  inRange : type.Contains value
  deriving DecidableEq, Repr

namespace CInt

def wrap (type : IntType) (value : Int) : CInt := ⟨type, _, type.contains_wrap value⟩

def convert (type : IntType) (number : CInt) : CInt := wrap type number.value

/-- The result of an operation: wrapped if unsigned, undefined on a signed overflow. -/
def checked (type : IntType) (value : Int) : Option CInt :=
  if h : type.Contains value then some ⟨type, value, h⟩
  else if type.isSigned then none
  else some (wrap type value)

def ofBool (b : Bool) : CInt := ⟨.int, Library.ofBool b, by cases b <;> decide⟩

theorem ofBool_inj {b c : Bool} : ofBool b = ofBool c ↔ b = c := by
  cases b <;> cases c <;> decide

theorem ofBool_value (b : Bool) : (ofBool b).value = Library.ofBool b := rfl

theorem convert_value {type : IntType} {number : CInt} (h : type.Contains number.value) :
    (convert type number).value = number.value :=
  IntType.wrap_of_contains h

end CInt

/-! ## Conversions -/

namespace IntType

private theorem wrap_eq_zero_iff {type : IntType} {value : Int} (hlow : -type.size < value)
    (hhigh : value < type.size) : type.wrap value = 0 ↔ value = 0 := by
  cases type <;> simp only [wrap, size, least] at * <;> omega

private theorem size_le_common (first second : IntType) :
    second.size ≤ (common first second).size := by
  cases first <;> cases second <;> decide

private theorem Contains.lt_size {type : IntType} {value : Int} (h : type.Contains value) :
    -type.size < value ∧ value < type.size := by
  obtain ⟨hlow, hhigh⟩ := h
  cases type <;> simp only [size, least] at * <;> omega

end IntType

namespace CInt

theorem convert_self (number : CInt) : CInt.convert number.type number = number := by
  obtain ⟨type, value, inRange⟩ := number
  simp [CInt.convert, CInt.wrap, IntType.wrap_of_contains inRange]

/-- A nonzero divisor stays one in the type of the division. -/
theorem convert_common_eq_zero (number other : CInt) :
    (CInt.convert (IntType.common number.type other.type) other).value = 0 ↔
      other.value = 0 := by
  have hsize := IntType.size_le_common number.type other.type
  obtain ⟨hlow, hhigh⟩ := other.inRange.lt_size
  exact IntType.wrap_eq_zero_iff (by omega) (by omega)

end CInt

/-! ## The machine -/

namespace LP64

def unary (op : UnaryOp) (number : CInt) : Option CInt :=
  match op with
  | .plain => some number
  | .neg => CInt.checked number.type (-number.value)
  | .not => some (.ofBool (number.value = 0))
  | .bitNot => some (.wrap number.type (-number.value - 1))
  | .cast .long => some (.convert .long number)
  | .cast .unsignedInt => some (.convert .unsignedInt number)
  | .cast .unsignedLong => some (.convert .unsignedLong number)
  -- pointers are no integers
  | .cast .pointer => none

def decided (op : BinaryOp) (number : CInt) : Option CInt :=
  match op with
  | .logAnd => if number.value = 0 then some (.ofBool false) else none
  | .logOr => if number.value = 0 then none else some (.ofBool true)
  | _ => none

def arithmetic (op : BinaryOp) (type : IntType) (first second : Int) : Option CInt :=
  match op with
  | .eq | .ne | .lt | .le | .gt | .ge => some (.ofBool (op.holds first second))
  | .add => CInt.checked type (first + second)
  | .sub => CInt.checked type (first - second)
  | .mul => CInt.checked type (first * second)
  | .div => if second = 0 then none else CInt.checked type (first.tdiv second)
  | .mod =>
      -- the remainder is defined where the quotient is
      if second = 0 ∨ ¬type.Contains (first.tdiv second) then none
      else some (.wrap type (first.tmod second))
  | .bitAnd => some (.wrap type (first.land second))
  | .bitOr => some (.wrap type (first.lor second))
  | .bitXor => some (.wrap type (first.xor second))
  | .logOr | .logAnd | .shl | .shr => none

def shift (op : BinaryOp) (number : CInt) (count : Int) : Option CInt :=
  if count < 0 ∨ number.type.width ≤ count then none
  else match op with
    | .shl =>
        if number.value < 0 then none
        else CInt.checked number.type (number.value * 2 ^ count.toNat)
    | .shr => some (.wrap number.type (number.value / 2 ^ count.toNat))
    | _ => none

def binary (op : BinaryOp) (number other : CInt) : Option CInt :=
  match op with
  | .logAnd | .logOr => some (.ofBool (other.value ≠ 0))
  | .shl | .shr => shift op number other.value
  | op =>
      let type := IntType.common number.type other.type
      arithmetic op type (CInt.convert type number).value (CInt.convert type other).value

/-- How a variable of a builtin type stores a number: its promoted type, width and sign. -/
def storage (rawType : String) : Option (IntType × Nat × Bool) :=
  if rawType = "char" then some (.int, 8, true)
  else if rawType = "unsigned char" then some (.int, 8, false)
  else if rawType = "short" then some (.int, 16, true)
  else if rawType = "unsigned short" then some (.int, 16, false)
  else if rawType = "int" ∨ rawType = "wchar_t" then some (.int, 32, true)
  else if rawType = "unsigned int" then some (.unsignedInt, 32, false)
  else if rawType = "long" then some (.long, 64, true)
  else if rawType = "unsigned long" then some (.unsignedLong, 64, false)
  else if rawType = "long long" then some (.longLong, 64, true)
  else if rawType = "unsigned long long" then some (.unsignedLongLong, 64, false)
  else none

def store (rawType : String) (number : CInt) : CInt :=
  match storage rawType with
  | none => number
  | some (type, width, true) => .wrap type (number.value.bmod (2 ^ width))
  | some (type, width, false) => .wrap type (number.value % 2 ^ width)

end LP64

def lp64 (literal : String → String → CInt) : CMachine CInt where
  unary := LP64.unary
  decided := LP64.decided
  binary := LP64.binary
  truth number := number.value ≠ 0
  dummy := .ofBool false
  literal := literal
  param n := .wrap .unsignedLong n
  flag := .ofBool
  convert := LP64.store

section Laws

variable {literal : String → String → CInt} (hzero : literal "int" "0" = .ofBool false)

include hzero in
private theorem lp64_nonZero (number : CInt) :
    (lp64 literal).truth ((lp64 literal).nonZero number) = decide (number.value ≠ 0) := by
  have hvalue : (CInt.convert number.type number).value = number.value :=
    CInt.convert_value number.inRange
  have hother : (CInt.convert number.type (.ofBool false)).value = 0 := number.type.wrap_zero
  have hne : (lp64 literal).binary .ne number (lp64 literal).zero =
      some (.ofBool (number.value ≠ 0)) := by
    simp only [lp64, CMachine.zero, hzero, LP64.binary]
    rw [show (CInt.ofBool false).type = .int from rfl, IntType.common_int, hvalue, hother]
    rfl
  rw [CMachine.nonZero, hne]
  simp [lp64, CInt.ofBool_value, ofBool_eq_zero]

include hzero in
theorem lp64_lawful : (lp64 literal).Lawful where
  decided op number hop := by
    rcases hop with rfl | rfl <;> rfl
  test number := ⟨rfl, rfl⟩
  divide op number other hop htruth := by
    rw [lp64_nonZero hzero, decide_eq_false_iff_not, not_not] at htruth
    have hconvert : ∀ type, (CInt.convert type other).value = 0 := by
      intro type
      rw [CInt.convert, htruth]
      exact type.wrap_zero
    rcases hop with rfl | rfl <;>
      simp [lp64, LP64.binary, LP64.arithmetic, hconvert]
  truth_flag b := by simp [lp64, CInt.ofBool_value, ofBool_eq_zero]

private theorem lp64_flag (b : Bool) :
    (lp64 literal).flag ((lp64 literal).truth (CInt.ofBool b)) = CInt.ofBool b := by
  cases b <;> rfl

theorem lp64_boolean : (lp64 literal).Boolean where
  decided op number result hop h := by
    cases op <;> simp [lp64, LP64.decided] at h
    all_goals
      rw [← h.2]
      rfl
  binary op number other result hop h := by
    cases op <;> simp only [BinaryOp.isBoolean, Bool.false_eq_true] at hop
    all_goals
      obtain rfl := Option.some.inj h
      exact lp64_flag _

end Laws

/-! ## Comparisons with a small constant -/

section Comparisons

variable {op : BinaryOp} (hop : op.isComparison = true) (number : CInt) {n : Nat}
  (hn : n < 2147483648)

include hop in
theorem LP64.binary_comparison (other : CInt) :
    LP64.binary op number other = some (.ofBool (op.holds
      (CInt.convert (IntType.common number.type other.type) number).value
      (CInt.convert (IntType.common number.type other.type) other).value)) := by
  cases op <;> first | rfl | cases hop

include hn in
theorem CInt.wrap_small (type : IntType) : (CInt.wrap type n).value = n := by
  apply IntType.wrap_of_contains
  cases type <;> simp [IntType.Contains, IntType.least, IntType.size] <;> omega

include hop hn in
private theorem compare_int :
    LP64.binary op number (.wrap .int n) = some (.ofBool (op.holds number.value n)) := by
  rw [LP64.binary_comparison hop, show (CInt.wrap .int n).type = .int from rfl,
    IntType.common_int, CInt.convert_value number.inRange, CInt.convert,
    CInt.wrap_small hn, CInt.wrap_small hn]

include hop hn in
private theorem compare_unsignedLong :
    LP64.binary op number (.wrap .unsignedLong n) =
      some (.ofBool (op.holds (number.value % 18446744073709551616) n)) := by
  have hcommon : IntType.common number.type .unsignedLong = .unsignedLong ∨
      IntType.common number.type .unsignedLong = .unsignedLongLong := by
    cases number.type <;> decide
  rw [LP64.binary_comparison hop, show (CInt.wrap .unsignedLong n).type = .unsignedLong from rfl,
    CInt.convert, CInt.convert, CInt.wrap_small hn, CInt.wrap_small hn]
  rcases hcommon with h | h <;>
    simp [h, CInt.wrap, IntType.wrap, IntType.least, IntType.size]

include hop hn in
/-- The type of a small constant matters for the order of negative numbers only. -/
theorem compare_agree :
    LP64.binary op number (.wrap .unsignedLong n) = LP64.binary op number (.wrap .int n) ↔
      0 ≤ number.value ∨ op = .eq ∨ op = .ne := by
  have hrange : -9223372036854775808 ≤ number.value ∧
      number.value < 18446744073709551616 := by
    have h := number.inRange
    revert h
    cases number.type <;> simp [IntType.Contains, IntType.least, IntType.size] <;> omega
  rw [compare_unsignedLong hop number hn, compare_int hop number hn, Option.some.injEq,
    CInt.ofBool_inj]
  by_cases hsign : 0 ≤ number.value
  · rw [Int.emod_eq_of_lt hsign hrange.2]
    simp [hsign]
  · have hwrap : number.value % 18446744073709551616 =
        number.value + 18446744073709551616 := by omega
    rw [hwrap]
    cases op <;> simp only [BinaryOp.isComparison, Bool.false_eq_true] at hop <;>
      simp [BinaryOp.holds] <;> omega

end Comparisons

end F1X.Library
