import F1X.Library.LowBits

/-!
# Operands read as 64 bit unsigned numbers

An operand is read twice, once as a number of its type and once as a 64 bit
unsigned number with the same low bits.  The second reading drags the operator
to a 64 bit unsigned type; the low bits of its result are then the same exactly
under a condition on the types and signs of its operands.
-/

namespace F1X.Library

/-! ## Two readings of a number -/

/--
A number and its second reading.  A wide one is a 64 bit unsigned number with
the same low bits; any other is the same number.
-/
def Alike (w : Nat) (wide : Bool) (number retyped : CInt) : Prop :=
  if wide then retyped.type.isLongest = true ∧ retyped.value ≡ number.value [ZMOD 2 ^ w]
  else retyped = number

namespace Alike

variable {w : Nat} {wide : Bool} {number retyped : CInt}

theorem wrap (h : Alike w wide number retyped) (hw : w ≤ 64) {type : IntType}
    (htype : type.isLongest = true) :
    type.wrap retyped.value ≡ number.value [ZMOD 2 ^ w] := by
  have hwrap : type.wrap retyped.value ≡ retyped.value [ZMOD 2 ^ w] := by
    rw [IntType.wrap_longest htype]
    exact (Int.mod_modEq _ _).of_dvd (pow_dvd_pow 2 hw)
  cases wide with
  | false =>
      obtain rfl : retyped = number := h
      exact hwrap
  | true => exact hwrap.trans h.2

theorem wrap_eq (h : Alike 64 wide number retyped) {type : IntType}
    (htype : type.isLongest = true) :
    type.wrap retyped.value = number.value % 2 ^ 64 := by
  have hmod := h.wrap (le_refl 64) htype
  rw [IntType.wrap_longest htype] at hmod ⊢
  rw [← hmod.eq, Int.emod_emod_of_dvd _ (dvd_refl _)]

theorem modEq (h : Alike w wide number retyped) :
    retyped.value ≡ number.value [ZMOD 2 ^ w] := by
  cases wide with
  | false =>
      obtain rfl : retyped = number := h
      rfl
  | true => exact h.2

theorem value_eq_zero (h : Alike 64 wide number retyped) :
    retyped.value = 0 ↔ number.value = 0 := by
  cases wide with
  | false =>
      obtain rfl : retyped = number := h
      rfl
  | true =>
      obtain ⟨hlongest, hmod⟩ := h
      have hbounds := number.bounds
      have hrange := CInt.bounds_of_isLongest hlongest
      have hvalue := hmod.eq
      omega

theorem value_of_nonneg (h : Alike 64 wide number retyped) (hnonneg : 0 ≤ number.value) :
    retyped.value = number.value := by
  cases wide with
  | false =>
      obtain rfl : retyped = number := h
      rfl
  | true =>
      obtain ⟨hlongest, hmod⟩ := h
      have hbounds := number.bounds
      have hrange := CInt.bounds_of_isLongest hlongest
      have hvalue := hmod.eq
      omega

end Alike

/-! ## Operators that keep the low bits -/

/-- Whether a unary operator makes the same low bits of both readings of a wide number. -/
def UnaryKept (w : Nat) (op : UnaryOp) (number : CInt) : Prop :=
  match op with
  | .neg | .bitNot => Unreduced w number.type (Integers.unary op number.value)
  | .plain | .not | .cast _ => True

/-- Whether a binary operator does, in the types and signs of its operands. -/
def BinaryKept (w : Nat) (op : BinaryOp) (first second : CInt) : Prop :=
  let type := IntType.common first.type second.type
  match op with
  | .add | .sub | .mul | .bitAnd | .bitOr | .bitXor =>
      Unreduced w type (op.exact first.value second.value)
  | .shl => Unreduced w first.type (op.exact first.value second.value)
  | .shr => 0 ≤ first.value ∨ w + second.value ≤ 64
  | .div | .mod =>
      type.isLongest = true ∨ (0 ≤ first.value ∧ 0 ≤ second.value) ∨
        -- the unsigned quotient of 64 bits has the low bits of the one in the type
        op.exact (first.value % 2 ^ 64) (second.value % 2 ^ 64) ≡
          op.exact (type.wrap first.value) (type.wrap second.value) [ZMOD 2 ^ w]
  | .eq | .ne | .lt | .le | .gt | .ge =>
      type.isLongest = true ∨ (first.value < 0 ↔ second.value < 0) ∨
        -- a negative number is the greater one as an unsigned number
        op.holds (type.wrap first.value) (type.wrap second.value) =
          op.holds second.value first.value
  | .logOr | .logAnd => True

def UnaryOp.isWide (op : UnaryOp) (arg : Bool) : Bool :=
  match op with
  | .plain | .neg | .bitNot => arg
  | .not | .cast _ => false

/-- Whether a wide operand takes part in the operation. -/
def BinaryOp.meets (op : BinaryOp) (left right : Bool) : Bool :=
  match op with
  | .shl | .shr => left
  | _ => left || right

def BinaryOp.isWide (op : BinaryOp) (left right : Bool) : Bool :=
  !op.isBoolean && op.meets left right

/-- The low bits of an operand that the low bits of a result depend on. -/
def UnaryOp.demand (op : UnaryOp) (w : Nat) : Nat :=
  match op with
  | .plain | .neg | .bitNot => w
  | .cast .unsignedInt => 32
  | .not | .cast _ => 64

def BinaryOp.demandLeft (op : BinaryOp) (w : Nat) : Nat :=
  if op = .shl ∨ op.modular.isSome then w else 64

def BinaryOp.demandRight (op : BinaryOp) (w : Nat) : Nat :=
  if op.modular.isSome then w else 64

/-! ## One operator -/

section Steps

variable {w : Nat} (hw : w ≤ 32 ∨ w = 64)

include hw in
theorem alike_iff_unreduced {type : IntType} {exact : Int} {result retyped : CInt}
    (hresult : result.Reduces type exact)
    (hbounds : type = .unsignedInt → exact.natAbs ≤ 18446744065119617025)
    (hwide : retyped.type.isLongest = true)
    (hretyped : retyped.value ≡ exact [ZMOD 2 ^ w]) :
    Alike w true result retyped ↔ Unreduced w type exact := by
  rw [← unreduced_iff hw hresult hbounds]
  exact ⟨fun h => hretyped.symm.trans h.2, fun h => ⟨hwide, hretyped.trans h⟩⟩

theorem Alike.common_isLongest {left right : Bool} (hmeets : (left || right) = true)
    {v v' : Nat} {first second first' second' : CInt} (hfirst : Alike v left first first')
    (hsecond : Alike v' right second second') :
    (IntType.common first'.type second'.type).isLongest = true := by
  apply IntType.common_isLongest
  cases left with
  | true => exact .inl hfirst.1
  | false =>
      obtain rfl : right = true := hmeets
      exact .inr hsecond.1

include hw in
private theorem modular_alike {op : BinaryOp} {f : Int → Int → Int} (h : op.modular = some f)
    {left right : Bool} (hmeets : (left || right) = true)
    {first second first' second' result : CInt} (hfirst : Alike w left first first')
    (hsecond : Alike w right second second')
    (hresult : LP64.binary op first second = some result) :
    ∃ retyped, LP64.binary op first' second' = some retyped ∧
      (Alike w true result retyped ↔ BinaryKept w op first second) := by
  have hlongest := hfirst.common_isLongest hmeets hsecond
  have hkept : BinaryKept w op first second =
      Unreduced w (IntType.common first.type second.type) (f first.value second.value) := by
    cases op <;> simp only [BinaryOp.modular, Option.some.injEq, reduceCtorEq] at h <;>
      subst h <;> rfl
  obtain ⟨retyped, hretyped⟩ := LP64.arithmetic_isSome h
    (IntType.isSigned_of_isLongest hlongest) _ _
  have hreduces := LP64.arithmetic_reduces h (IntType.contains_wrap _ first'.value)
    (IntType.contains_wrap _ second'.value) hretyped
  refine ⟨retyped, (LP64.binary_modular h _ _).trans hretyped, ?_⟩
  rw [hkept]
  apply alike_iff_unreduced hw (LP64.binary_reduces h hresult)
  · intro hcommon
    exact BinaryOp.modular_bounded h
      (IntType.bounds_of_common_unsignedInt hcommon (.inl first.inRange))
      (IntType.bounds_of_common_unsignedInt hcommon (.inr second.inRange))
  · rw [hreduces.type_eq]
    exact hlongest
  · have hlow := (IntType.size_longest hlongest ▸ hreduces.modEq).of_dvd
      (pow_dvd_pow 2 (by omega : w ≤ 64))
    exact hlow.trans (BinaryOp.modular_modEq h (hfirst.wrap (by omega) hlongest)
      (hsecond.wrap (by omega) hlongest))

include hw in
theorem unary_alike {op : UnaryOp} {wide : Bool} {number retyped result : CInt}
    (h : Alike (op.demand w) wide number retyped) (hresult : LP64.unary op number = some result) :
    ∃ retypedResult, LP64.unary op retyped = some retypedResult ∧
      (Alike w (op.isWide wide) result retypedResult ↔
        (wide = true → UnaryKept w op number)) := by
  cases wide with
  | false =>
      obtain rfl : retyped = number := h
      have hplain : op.isWide false = false := by cases op <;> rfl
      exact ⟨result, hresult, by simp [hplain, Alike]⟩
  | true =>
      simp only [forall_const]
      obtain ⟨hlongest, hmod⟩ := h
      have hunsigned := IntType.isSigned_of_isLongest hlongest
      have hlow : (2 : Int) ^ w ∣ retyped.type.size := by
        rw [IntType.size_longest hlongest]
        exact pow_dvd_pow 2 (by omega)
      cases op with
      | plain =>
          cases hresult
          exact ⟨retyped, rfl, fun _ => trivial, fun _ => ⟨hlongest, hmod⟩⟩
      | neg =>
          obtain ⟨retypedResult, hretyped⟩ := CInt.checked_isSome hunsigned (-retyped.value)
          have hreduces := CInt.reduces_checked hretyped
          refine ⟨retypedResult, hretyped, alike_iff_unreduced hw
            (CInt.reduces_checked hresult) ?_ (hreduces.type_eq ▸ hlongest)
            ((hreduces.modEq.of_dvd hlow).trans hmod.neg)⟩
          intro htype
          have hbounds := CInt.bounds_of_unsignedInt htype
          show (-number.value).natAbs ≤ _
          omega
      | not =>
          cases hresult
          refine ⟨_, rfl, fun _ => trivial, fun _ => ?_⟩
          have halike : Alike 64 true number retyped := ⟨hlongest, hmod⟩
          show CInt.ofBool _ = CInt.ofBool _
          simp only [halike.value_eq_zero]
      | bitNot =>
          cases hresult
          refine ⟨_, rfl, alike_iff_unreduced hw
            (CInt.reduces_wrap fun hsigned => number.contains_complement hsigned) ?_ hlongest
            (((retyped.type.wrap_modEq _).of_dvd hlow).trans (hmod.neg.sub_right 1))⟩
          intro htype
          have hbounds := CInt.bounds_of_unsignedInt htype
          show (-number.value - 1).natAbs ≤ _
          omega
      | cast target =>
          cases target with
          | pointer => cases hresult
          | long | unsignedLong | unsignedInt =>
              cases hresult
              exact ⟨_, rfl, fun _ => trivial, fun _ => CInt.wrap_congr hmod⟩

theorem Alike.shift_right {op : BinaryOp} {wide : Bool} {number other retyped result : CInt}
    (h : Alike 64 wide other retyped)
    (hresult : LP64.shift op number other.value = some result) :
    LP64.shift op number retyped.value = some result := by
  rwa [h.value_of_nonneg (LP64.shift_count hresult).1]

theorem CInt.width_of_isLongest {number : CInt} (h : number.type.isLongest = true) :
    number.type.width = 64 := by
  cases htype : number.type <;> first | rfl | simp [htype, IntType.isLongest] at h

private theorem shl_bounds {number : CInt} {count : Int} (htype : number.type = .unsignedInt)
    (hcount : 0 ≤ count ∧ count < number.type.width) :
    (number.value * 2 ^ count.toNat).natAbs ≤ 18446744065119617025 := by
  have hvalue : number.value.natAbs ≤ 4294967295 := by
    have hbounds := CInt.bounds_of_unsignedInt htype
    omega
  have hpower : (2 : Int) ^ count.toNat ≤ 2 ^ 31 := by
    rw [htype] at hcount
    exact pow_le_pow_right₀ (by omega) (by simp [IntType.width] at hcount; omega)
  have hpos : (0 : Int) < 2 ^ count.toNat := pow_pos (by omega) _
  rw [Int.natAbs_mul]
  exact (Nat.mul_le_mul hvalue (by omega : _ ≤ 2147483648)).trans (by decide)

include hw in
private theorem shl_alike {number retyped result : CInt} {count : Int}
    (h : Alike w true number retyped) (hresult : LP64.shift .shl number count = some result) :
    ∃ retypedResult, LP64.shift .shl retyped count = some retypedResult ∧
      (Alike w true result retypedResult ↔
        Unreduced w number.type (number.value * 2 ^ count.toNat)) := by
  obtain ⟨hlongest, hmod⟩ := h
  have hcount := LP64.shift_count hresult
  have hwidth := CInt.width_of_isLongest hlongest
  have hcount' : count < retyped.type.width := by
    have : number.type.width ≤ 64 := by cases number.type <;> decide
    omega
  rw [LP64.shl_of_count hcount] at hresult
  rw [LP64.shl_of_count ⟨hcount.1, hcount'⟩,
    if_neg (by have := CInt.bounds_of_isLongest hlongest; omega)]
  split at hresult
  · cases hresult
  · obtain ⟨retypedResult, hretyped⟩ := CInt.checked_isSome
      (IntType.isSigned_of_isLongest hlongest) (retyped.value * 2 ^ count.toNat)
    have hreduces := CInt.reduces_checked hretyped
    refine ⟨retypedResult, hretyped, alike_iff_unreduced hw (CInt.reduces_checked hresult)
      (fun htype => shl_bounds htype hcount) (hreduces.type_eq ▸ hlongest)
      ((hreduces.modEq.of_dvd ?_).trans (hmod.mul_right _))⟩
    rw [IntType.size_longest hlongest]
    exact pow_dvd_pow 2 (by omega)

theorem CInt.contains_ediv (number : CInt) {power : Int} (hpower : 0 < power) :
    number.type.Contains (number.value / power) := by
  have hrange := number.inRange
  have hleast : number.type.least ≤ 0 := by cases number.type <;> decide
  have hend : 0 ≤ number.type.least + number.type.size := by cases number.type <;> decide
  by_cases hsign : 0 ≤ number.value
  · have hnonneg := Int.ediv_nonneg hsign hpower.le
    have hle := Int.ediv_le_self power hsign
    exact ⟨by omega, lt_of_le_of_lt hle hrange.2⟩
  · have hneg : number.value / power < 0 := Int.ediv_lt_of_lt_mul hpower (by omega)
    have hle : number.value ≤ number.value / power := by
      rw [Int.le_ediv_iff_mul_le hpower]
      have := mul_le_mul_of_nonpos_left (by omega : 1 ≤ power) (by omega : number.value ≤ 0)
      omega
    exact ⟨le_trans hrange.1 hle, by omega⟩

private theorem shr_alike {number retyped result : CInt} {count : Int}
    (h : Alike 64 true number retyped) (hresult : LP64.shift .shr number count = some result) :
    ∃ retypedResult, LP64.shift .shr retyped count = some retypedResult ∧
      (Alike w true result retypedResult ↔ 0 ≤ number.value ∨ w + count ≤ 64) := by
  have hcount := LP64.shift_count hresult
  have hwidth := CInt.width_of_isLongest h.1
  have hcount' : count < retyped.type.width := by
    have : number.type.width ≤ 64 := by cases number.type <;> decide
    omega
  have hpower : (0 : Int) < 2 ^ count.toNat := pow_pos (by omega) _
  rw [LP64.shr_of_count hcount] at hresult
  cases hresult
  refine ⟨_, LP64.shr_of_count ⟨hcount.1, hcount'⟩, ?_⟩
  have hvalue := IntType.wrap_of_contains (number.contains_ediv hpower)
  have hvalue' := IntType.wrap_of_contains (retyped.contains_ediv hpower)
  simp only [Alike, if_true, CInt.wrap, hvalue, hvalue']
  by_cases hsign : 0 ≤ number.value
  · simp [hsign, h.value_of_nonneg hsign, h.1]
  · have hretyped : retyped.value = number.value + 2 ^ (64 - count.toNat) * 2 ^ count.toNat := by
      rw [← pow_add, Nat.sub_add_cancel (by omega)]
      have hbounds := number.bounds
      have hbounds' := CInt.bounds_of_isLongest h.1
      have hmod := h.2.eq
      omega
    rw [hretyped, Int.add_mul_ediv_right _ _ hpower.ne', Int.add_modEq_left_iff,
      pow_dvd_pow_iff (by decide) (by rw [Int.isUnit_iff]; decide)]
    simp only [h.1, hsign, true_and, false_or]
    omega

/-- Where both operands are non-negative, neither type changes them. -/
theorem wrap_common_of_nonneg {first second : CInt} (hfirst : 0 ≤ first.value)
    (hsecond : 0 ≤ second.value) :
    (first.type.common second.type).wrap first.value = first.value % 2 ^ 64 ∧
      (first.type.common second.type).wrap second.value = second.value % 2 ^ 64 := by
  have hbounds := first.bounds
  have hbounds' := second.bounds
  constructor
  · rw [IntType.wrap_of_contains (IntType.contains_common_of_nonneg hfirst (.inl first.inRange))]
    omega
  · rw [IntType.wrap_of_contains (IntType.contains_common_of_nonneg hsecond (.inr second.inRange))]
    omega

theorem division_alike {op : BinaryOp} (hop : op.IsDivision)
    {left right : Bool} (hmeets : (left || right) = true)
    {first second first' second' result : CInt} (hfirst : Alike 64 left first first')
    (hsecond : Alike 64 right second second')
    (hresult : LP64.binary op first second = some result) :
    ∃ retyped, LP64.binary op first' second' = some retyped ∧
      (Alike w true result retyped ↔ BinaryKept w op first second) := by
  have hlongest := hfirst.common_isLongest hmeets hsecond
  rw [LP64.binary_division hop] at hresult
  obtain ⟨hzero, -, hvalue⟩ := LP64.arithmetic_division hop
    (IntType.contains_wrap _ first.value) (IntType.contains_wrap _ second.value) hresult
  have hnonzero : (first'.type.common second'.type).wrap second'.value ≠ 0 := by
    rw [hsecond.wrap_eq hlongest]
    have hother := mt (CInt.convert_common_eq_zero first second).mpr hzero
    have hbounds := second.bounds
    omega
  obtain ⟨retyped, hretyped⟩ := LP64.arithmetic_division_isSome hop
    (IntType.isSigned_of_isLongest hlongest) (IntType.contains_wrap _ first'.value)
    (IntType.contains_wrap _ second'.value) hnonzero
  obtain ⟨-, htype', hvalue'⟩ := LP64.arithmetic_division hop
    (IntType.contains_wrap _ first'.value) (IntType.contains_wrap _ second'.value) hretyped
  rw [hfirst.wrap_eq hlongest, hsecond.wrap_eq hlongest] at hvalue'
  refine ⟨retyped, (LP64.binary_division hop _ _).trans hretyped, ?_⟩
  have hkept : BinaryKept w op first second ↔
      op.exact (first.value % 2 ^ 64) (second.value % 2 ^ 64) ≡ result.value [ZMOD 2 ^ w] := by
    rw [hvalue]
    refine Iff.trans (b := _ ∨ _ ∨ _) (by rcases hop with rfl | rfl <;> rfl)
      ⟨?_, fun h => .inr (.inr h)⟩
    rintro (htype | ⟨hsign, hsign'⟩ | h)
    · rw [IntType.wrap_longest htype, IntType.wrap_longest htype]
    · obtain ⟨heq, heq'⟩ := wrap_common_of_nonneg hsign hsign'
      rw [heq, heq']
    · exact h
  rw [hkept, Alike, if_pos rfl, htype', hvalue']
  exact and_iff_right hlongest

private theorem short_bounds {first second : CInt}
    (hshort : (first.type.common second.type).isLongest = false) :
    (first.value < 9223372036854775808 ∧ second.value < 9223372036854775808) ∧
      (first.value < 0 → second.value < 0 →
        (first.type.common second.type).isSigned = true) := by
  have hfirst := first.inRange
  have hsecond := second.inRange
  revert hfirst hsecond hshort
  cases first.type <;> cases second.type <;>
    simp [IntType.common, IntType.isSigned, IntType.isLongest, IntType.rank, IntType.width,
      IntType.toUnsigned, IntType.Contains, IntType.least, IntType.size] <;> omega

theorem BinaryOp.holds_congr (op : BinaryOp) {first second first' second' : Int}
    (hlt : first < second ↔ first' < second') (heq : first = second ↔ first' = second') :
    op.holds first second = op.holds first' second' := by
  cases op <;> simp only [BinaryOp.holds, decide_eq_decide] <;> omega

/-- As unsigned numbers of 64 bits, negative numbers are the greatest. -/
theorem holds_unsigned (op : BinaryOp) {first second : CInt}
    (hshort : (first.type.common second.type).isLongest = false) :
    op.holds (first.value % 2 ^ 64) (second.value % 2 ^ 64) =
      if (first.value < 0 ↔ second.value < 0) then
        op.holds ((first.type.common second.type).wrap first.value)
          ((first.type.common second.type).wrap second.value)
      else op.holds second.value first.value := by
  obtain ⟨hhigh, hsigned⟩ := short_bounds hshort
  have hbounds := first.bounds
  have hbounds' := second.bounds
  by_cases hfirst : first.value < 0 <;> by_cases hsecond : second.value < 0
  · have hsigned := hsigned hfirst hsecond
    rw [if_pos (by simp [hfirst, hsecond]),
      IntType.wrap_of_contains (IntType.contains_common hsigned (.inl first.inRange)),
      IntType.wrap_of_contains (IntType.contains_common hsigned (.inr second.inRange))]
    exact BinaryOp.holds_congr op (by omega) (by omega)
  · rw [if_neg (by simp [hfirst, hsecond])]
    exact BinaryOp.holds_congr op (by omega) (by omega)
  · rw [if_neg (by simp [hfirst, hsecond])]
    exact BinaryOp.holds_congr op (by omega) (by omega)
  · obtain ⟨heq, heq'⟩ := wrap_common_of_nonneg (not_lt.mp hfirst) (not_lt.mp hsecond)
    rw [if_pos (by simp [hfirst, hsecond]), heq, heq']

private theorem binaryKept_comparison {op : BinaryOp} (hop : op.isComparison = true)
    {first second : CInt} :
    BinaryKept w op first second ↔
      (first.type.common second.type).isLongest = true ∨
        (first.value < 0 ↔ second.value < 0) ∨
          op.holds ((first.type.common second.type).wrap first.value)
              ((first.type.common second.type).wrap second.value) =
            op.holds second.value first.value := by
  cases op <;> first | rfl | cases hop

private theorem comparison_alike {op : BinaryOp} (hop : op.isComparison = true)
    {left right : Bool} (hmeets : (left || right) = true)
    {first second first' second' result : CInt} (hfirst : Alike 64 left first first')
    (hsecond : Alike 64 right second second')
    (hresult : LP64.binary op first second = some result) :
    ∃ retyped, LP64.binary op first' second' = some retyped ∧
      (Alike w false result retyped ↔ BinaryKept w op first second) := by
  have hlongest := hfirst.common_isLongest hmeets hsecond
  rw [LP64.binary_comparison hop] at hresult
  cases hresult
  refine ⟨_, LP64.binary_comparison hop _ _, ?_⟩
  have hkept : BinaryKept w op first second ↔
      op.holds (first.value % 2 ^ 64) (second.value % 2 ^ 64) =
        op.holds ((first.type.common second.type).wrap first.value)
          ((first.type.common second.type).wrap second.value) := by
    rw [binaryKept_comparison hop]
    cases hshort : (first.type.common second.type).isLongest with
    | true => simp [IntType.wrap_longest hshort]
    | false =>
        rw [holds_unsigned op hshort]
        by_cases hsigns : first.value < 0 ↔ second.value < 0
        · simp [hsigns]
        · simp [hsigns, eq_comm]
  rw [hkept, ← hfirst.wrap_eq hlongest, ← hsecond.wrap_eq hlongest]
  exact CInt.ofBool_inj

include hw in
theorem binary_alike_of_meets {op : BinaryOp} {left right : Bool}
    (hmeets : op.meets left right = true)
    {first second first' second' result : CInt}
    (hfirst : Alike (op.demandLeft w) left first first')
    (hsecond : Alike (op.demandRight w) right second second')
    (hresult : LP64.binary op first second = some result) :
    ∃ retyped, LP64.binary op first' second' = some retyped ∧
      (Alike w (!op.isBoolean) result retyped ↔ BinaryKept w op first second) := by
  cases op with
  | eq | ne | lt | le | gt | ge => exact comparison_alike rfl hmeets hfirst hsecond hresult
  | add | sub | mul | bitAnd | bitOr | bitXor =>
      exact modular_alike hw rfl hmeets hfirst hsecond hresult
  | div => exact division_alike (.inl rfl) hmeets hfirst hsecond hresult
  | mod => exact division_alike (.inr rfl) hmeets hfirst hsecond hresult
  | logOr | logAnd =>
      cases hresult
      refine ⟨_, rfl, fun _ => trivial, fun _ => ?_⟩
      show CInt.ofBool _ = CInt.ofBool _
      simp only [ne_eq, hsecond.value_eq_zero]
  | shl =>
      obtain rfl : left = true := hmeets
      obtain ⟨retyped, hretyped, hiff⟩ := shl_alike hw hfirst hresult
      exact ⟨retyped, hsecond.shift_right hretyped, hiff⟩
  | shr =>
      obtain rfl : left = true := hmeets
      obtain ⟨retyped, hretyped, hiff⟩ := shr_alike hfirst hresult
      exact ⟨retyped, hsecond.shift_right hretyped, hiff⟩

theorem binary_alike_of_not_meets {op : BinaryOp} {left right : Bool}
    (hmeets : op.meets left right = false)
    {first second first' second' result : CInt}
    (hfirst : Alike (op.demandLeft w) left first first')
    (hsecond : Alike (op.demandRight w) right second second')
    (hresult : LP64.binary op first second = some result) :
    LP64.binary op first' second' = some result := by
  have hleft : left = false := by cases op <;> simp_all [BinaryOp.meets]
  subst hleft
  obtain rfl : first' = first := hfirst
  cases right with
  | false =>
      obtain rfl : second' = second := hsecond
      exact hresult
  | true =>
      cases op <;> simp only [BinaryOp.meets, Bool.or_true, Bool.true_eq_false] at hmeets
      · exact hsecond.shift_right (show LP64.shift .shl _ _ = _ from hresult)
      · exact hsecond.shift_right (show LP64.shift .shr _ _ = _ from hresult)

include hw in
theorem binary_alike {op : BinaryOp} {left right : Bool}
    {first second first' second' result : CInt}
    (hfirst : Alike (op.demandLeft w) left first first')
    (hsecond : Alike (op.demandRight w) right second second')
    (hresult : LP64.binary op first second = some result) :
    ∃ retyped, LP64.binary op first' second' = some retyped ∧
      (Alike w (op.isWide left right) result retyped ↔
        (op.meets left right = true → BinaryKept w op first second)) := by
  cases hmeets : op.meets left right with
  | true =>
      obtain ⟨retyped, hretyped, hiff⟩ := binary_alike_of_meets hw hmeets hfirst hsecond hresult
      refine ⟨retyped, hretyped, ?_⟩
      rw [BinaryOp.isWide, hmeets, Bool.and_true, hiff]
      simp
  | false =>
      refine ⟨result, binary_alike_of_not_meets hmeets hfirst hsecond hresult, ?_⟩
      simp [BinaryOp.isWide, hmeets, Alike]

theorem decided_alike {op : BinaryOp} {wide : Bool} {number retyped : CInt}
    (h : Alike (op.demandLeft w) wide number retyped) :
    LP64.decided op retyped = LP64.decided op number := by
  cases op with
  | logOr | logAnd => simp only [LP64.decided, Alike.value_eq_zero h]
  | _ => rfl

/-! A result is alike as soon as its low bits are the same. -/

theorem ofBool_of_modEq (hpos : 1 ≤ w) {b c : Bool}
    (h : (CInt.ofBool b).value ≡ (CInt.ofBool c).value [ZMOD 2 ^ w]) : b = c := by
  have hparity := (h.of_dvd (dvd_pow_self 2 (by omega))).eq
  revert hparity
  cases b <;> cases c <;> decide

private theorem LP64.unary_type {op : UnaryOp} {number result : CInt}
    (h : LP64.unary op number = some result) (hop : op.isWide true = true) :
    result.type = number.type := by
  cases op with
  | plain | bitNot =>
      cases h
      rfl
  | neg => exact (CInt.reduces_checked h).type_eq
  | not | cast _ => cases hop

include hw in
theorem unary_alike_of_modEq {op : UnaryOp} {wide : Bool} {number retyped result other : CInt}
    (h : Alike (op.demand w) wide number retyped) (hresult : LP64.unary op number = some result)
    (hother : LP64.unary op retyped = some other)
    (hmod : other.value ≡ result.value [ZMOD 2 ^ w]) :
    Alike w (op.isWide wide) result other := by
  cases hwide : op.isWide wide with
  | true =>
      obtain rfl : wide = true := by cases op <;> simp_all [UnaryOp.isWide]
      exact ⟨LP64.unary_type hother hwide ▸ h.1, hmod⟩
  | false =>
      obtain ⟨other', hother', hiff⟩ := unary_alike hw h hresult
      cases hother.symm.trans hother'
      rw [← hwide, hiff]
      rintro rfl
      cases op <;> simp_all [UnaryOp.isWide, UnaryKept]

private theorem LP64.binary_type {op : BinaryOp} {number other result : CInt}
    (h : LP64.binary op number other = some result) (hop : op.isBoolean = false) :
    result.type =
      if op = .shl ∨ op = .shr then number.type else number.type.common other.type := by
  cases op with
  | eq | ne | lt | le | gt | ge | logOr | logAnd => cases hop
  | add | sub | mul | bitAnd | bitOr | bitXor =>
      rw [if_neg (by decide)]
      exact (LP64.binary_reduces rfl h).type_eq
  | div =>
      rw [if_neg (by decide)]
      exact (LP64.arithmetic_division (.inl rfl) (IntType.contains_wrap _ number.value)
        (IntType.contains_wrap _ other.value) h).2.1
  | mod =>
      rw [if_neg (by decide)]
      exact (LP64.arithmetic_division (.inr rfl) (IntType.contains_wrap _ number.value)
        (IntType.contains_wrap _ other.value) h).2.1
  | shl =>
      rw [if_pos (.inl rfl)]
      have hshift : LP64.shift .shl number other.value = some result := h
      rw [LP64.shl_of_count (LP64.shift_count hshift)] at hshift
      split at hshift
      · cases hshift
      · exact (CInt.reduces_checked hshift).type_eq
  | shr =>
      rw [if_pos (.inr rfl)]
      have hshift : LP64.shift .shr number other.value = some result := h
      rw [LP64.shr_of_count (LP64.shift_count hshift)] at hshift
      cases hshift
      rfl

include hw in
theorem binary_alike_of_modEq (hpos : 1 ≤ w) {op : BinaryOp} {left right : Bool}
    {first second first' second' result other : CInt}
    (hfirst : Alike (op.demandLeft w) left first first')
    (hsecond : Alike (op.demandRight w) right second second')
    (hresult : LP64.binary op first second = some result)
    (hother : LP64.binary op first' second' = some other)
    (hmod : other.value ≡ result.value [ZMOD 2 ^ w]) :
    Alike w (op.isWide left right) result other := by
  cases hmeets : op.meets left right with
  | false =>
      cases hother.symm.trans (binary_alike_of_not_meets hmeets hfirst hsecond hresult)
      simp [BinaryOp.isWide, hmeets, Alike]
  | true =>
      rw [BinaryOp.isWide, hmeets, Bool.and_true]
      cases hboolean : op.isBoolean with
      | false =>
          refine ⟨?_, hmod⟩
          rw [LP64.binary_type hother hboolean]
          split
          · next hshift =>
              rcases hshift with rfl | rfl
              all_goals
                obtain rfl : left = true := hmeets
                exact hfirst.1
          · next hshift =>
              refine hfirst.common_isLongest ?_ hsecond
              cases op <;> simp_all [BinaryOp.meets]
      | true =>
          obtain ⟨other', hother', hiff⟩ := binary_alike_of_meets hw hmeets hfirst hsecond hresult
          cases hother.symm.trans hother'
          rw [hboolean] at hiff
          cases op with
          | logOr | logAnd => exact hiff.mpr trivial
          | add | sub | mul | div | mod | bitAnd | bitOr | bitXor | shl | shr => cases hboolean
          | eq | ne | lt | le | gt | ge =>
              rw [LP64.binary_comparison rfl] at hresult hother
              cases hresult
              cases hother
              exact congrArg CInt.ofBool (ofBool_of_modEq hpos hmod)

end Steps

end F1X.Library
