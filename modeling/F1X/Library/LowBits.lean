import F1X.Library.LP64
import Mathlib.Algebra.Group.Int.Units
import Mathlib.Algebra.Order.Ring.Int
import Mathlib.Data.Int.ModEq

/-!
# The low bits of integer operations

Most operators determine the low bits of their result by the low bits of their
operands.  A result of unsigned type is the exact one reduced modulo its size.
-/

namespace F1X.Library

/-! ## Low bits -/

section Residues

private theorem div2_bit (b : Bool) (n : Int) : (Int.bit b n).div2 = n := by
  rw [Int.div2_val, Int.bit_val]
  cases b <;> simp only [cond_true, cond_false] <;> omega

theorem modEq_two_pow_succ {a b : Int} {w : Nat} :
    a ≡ b [ZMOD 2 ^ (w + 1)] ↔ a.bodd = b.bodd ∧ a.div2 ≡ b.div2 [ZMOD 2 ^ w] := by
  have ha := Int.bodd_add_div2 a
  have hb := Int.bodd_add_div2 b
  rw [Int.modEq_iff_dvd, Int.modEq_iff_dvd, pow_succ']
  constructor
  · rintro ⟨c, hc⟩
    have hparity : a.bodd = b.bodd := by
      generalize (2 : Int) ^ w = n at hc
      cases hbodd : a.bodd <;> cases hbodd' : b.bodd <;> rw [hbodd] at ha <;>
        rw [hbodd'] at hb <;> simp at ha hb ⊢
      · rw [mul_assoc] at hc
        omega
      · rw [mul_assoc] at hc
        omega
    refine ⟨hparity, c, ?_⟩
    rw [hparity] at ha
    rw [mul_assoc] at hc
    omega
  · rintro ⟨hparity, c, hc⟩
    refine ⟨c, ?_⟩
    rw [hparity] at ha
    rw [mul_assoc, ← hc]
    omega

theorem bitwise_modEq (f : Bool → Bool → Bool) {w : Nat} {a a' b b' : Int}
    (ha : a ≡ a' [ZMOD 2 ^ w]) (hb : b ≡ b' [ZMOD 2 ^ w]) :
    Int.bitwise f a b ≡ Int.bitwise f a' b' [ZMOD 2 ^ w] := by
  induction w generalizing a a' b b' with
  | zero => exact Int.modEq_one
  | succ w ih =>
      obtain ⟨hodd, hrest⟩ := modEq_two_pow_succ.mp ha
      obtain ⟨hodd', hrest'⟩ := modEq_two_pow_succ.mp hb
      rw [← Int.bit_decomp a, ← Int.bit_decomp a', ← Int.bit_decomp b, ← Int.bit_decomp b',
        Int.bitwise_bit, Int.bitwise_bit, modEq_two_pow_succ]
      simp only [Int.bodd_bit, div2_bit, hodd, hodd', true_and]
      exact ih hrest hrest'

theorem bitwise_bounded (f : Bool → Bool → Bool) {n : Nat} {a b : Int}
    (ha : -2 ^ n ≤ a ∧ a < 2 ^ n) (hb : -2 ^ n ≤ b ∧ b < 2 ^ n) :
    -2 ^ n ≤ Int.bitwise f a b ∧ Int.bitwise f a b < 2 ^ n := by
  induction n generalizing a b with
  | zero =>
      have hbit : ∀ g, -2 ^ 0 ≤ Int.natBitwise g 0 0 ∧ Int.natBitwise g 0 0 < 2 ^ 0 := by
        intro g
        cases h : g false false <;> simp [Int.natBitwise, h]
      obtain rfl | rfl : a = 0 ∨ a = -1 := by omega
      · obtain rfl | rfl : b = 0 ∨ b = -1 := by omega
        · exact hbit f
        · exact hbit fun x y => f x !y
      · obtain rfl | rfl : b = 0 ∨ b = -1 := by omega
        · exact hbit fun x y => f (!x) y
        · exact hbit fun x y => f (!x) !y
  | succ n ih =>
      have hdiv : ∀ c : Int, -2 ^ (n + 1) ≤ c ∧ c < 2 ^ (n + 1) ↔
          -2 ^ n ≤ c.div2 ∧ c.div2 < 2 ^ n := by
        intro c
        rw [Int.div2_val, pow_succ']
        omega
      have hrest := ih ((hdiv a).mp ha) ((hdiv b).mp hb)
      rw [hdiv, ← Int.bit_decomp a, ← Int.bit_decomp b, Int.bitwise_bit, div2_bit]
      exact hrest

end Residues

/-! ## 64 bit unsigned types -/

namespace IntType

/-- The types that an operand of a common type makes 64 bit unsigned. -/
def isLongest : IntType → Bool
  | .unsignedLong | .unsignedLongLong => true
  | .int | .unsignedInt | .long | .longLong => false

theorem common_isLongest {first second : IntType}
    (h : first.isLongest = true ∨ second.isLongest = true) :
    (common first second).isLongest = true := by
  cases first <;> cases second <;> simp_all [isLongest, common, isSigned, rank, width,
    toUnsigned]

theorem size_eq (type : IntType) : type.size = 2 ^ type.width := by
  cases type <;> rfl

theorem size_longest {type : IntType} (h : type.isLongest = true) : type.size = 2 ^ 64 := by
  cases type <;> first | rfl | cases h

theorem isSigned_of_isLongest {type : IntType} (h : type.isLongest = true) :
    type.isSigned = false := by
  cases type <;> simp_all [isLongest, isSigned]

theorem wrap_modEq (type : IntType) (value : Int) :
    type.wrap value ≡ value [ZMOD type.size] := by
  have h := Int.mod_modEq (value - type.least) type.size
  simpa only [wrap, sub_add_cancel] using h.add_right type.least

theorem wrap_longest {type : IntType} (h : type.isLongest = true) (value : Int) :
    type.wrap value = value % 2 ^ 64 := by
  cases type <;> simp [isLongest] at h <;> simp [wrap, least, size]

theorem contains_common {first second : IntType} {value : Int}
    (hsigned : (common first second).isSigned = true)
    (h : first.Contains value ∨ second.Contains value) :
    (common first second).Contains value := by
  cases first <;> cases second <;>
    simp [common, isSigned, rank, width, toUnsigned] at hsigned ⊢ <;>
      simp [Contains, least, size] at h ⊢ <;> omega

theorem contains_tdiv {type : IntType} {first second : Int} (hunsigned : type.isSigned = false)
    (hfirst : type.Contains first) (hsecond : type.Contains second) :
    type.Contains (first.tdiv second) := by
  have hleast : type.least = 0 := by cases type <;> first | rfl | cases hunsigned
  have hnonneg : 0 ≤ first := hleast ▸ hfirst.1
  have hquotient := Int.tdiv_nonneg hnonneg (hleast ▸ hsecond.1)
  have hle := Int.tdiv_le_self second hnonneg
  exact ⟨hleast ▸ hquotient, lt_of_le_of_lt hle hfirst.2⟩

private theorem contains_tmod {type : IntType} {first : Int} (h : type.Contains first)
    (second : Int) :
    type.Contains (first.tmod second) := by
  have hleast : type.least ≤ 0 := by cases type <;> decide
  have hend : 0 < type.least + type.size := by cases type <;> decide
  obtain ⟨hlow, hhigh⟩ := h
  have habs : (first.tmod second).natAbs ≤ first.natAbs :=
    Int.natAbs_tmod _ _ ▸ Nat.mod_le _ _
  by_cases hsign : 0 ≤ first
  · have hnonneg := Int.tmod_nonneg second hsign
    exact ⟨by omega, by omega⟩
  · have hnonpos := Int.tmod_nonneg second (by omega : 0 ≤ -first)
    rw [Int.neg_tmod] at hnonpos
    exact ⟨by omega, by omega⟩

theorem contains_common_of_nonneg {first second : IntType} {value : Int}
    (hnonneg : 0 ≤ value) (h : first.Contains value ∨ second.Contains value) :
    (common first second).Contains value := by
  cases first <;> cases second <;> simp [common, isSigned, rank, width, toUnsigned] <;>
    simp [Contains, least, size] at h ⊢ <;> omega

theorem bounds_of_common_unsignedInt {first second : IntType} {value : Int}
    (hcommon : common first second = .unsignedInt)
    (h : first.Contains value ∨ second.Contains value) :
    -2147483648 ≤ value ∧ value < 4294967296 := by
  cases first <;> cases second <;> simp [common, isSigned, rank, width, toUnsigned] at hcommon <;>
    simp [Contains, least, size] at h <;> omega

end IntType

namespace CInt

theorem bounds (number : CInt) :
    -9223372036854775808 ≤ number.value ∧ number.value < 18446744073709551616 := by
  have hrange := number.inRange
  revert hrange
  cases number.type <;> simp [IntType.Contains, IntType.least, IntType.size] <;> omega

theorem bounds_of_isLongest {number : CInt} (h : number.type.isLongest = true) :
    0 ≤ number.value ∧ number.value < 18446744073709551616 := by
  have hrange := number.inRange
  revert hrange h
  cases number.type <;> simp [IntType.isLongest, IntType.Contains, IntType.least, IntType.size]

theorem bounds_of_unsignedInt {number : CInt} (h : number.type = .unsignedInt) :
    0 ≤ number.value ∧ number.value < 4294967296 := by
  simpa [h, IntType.Contains, IntType.least, IntType.size] using number.inRange

theorem contains_complement (number : CInt) (h : number.type.isSigned = true) :
    number.type.Contains (-number.value - 1) := by
  have hrange := number.inRange
  revert hrange h
  cases number.type <;> simp [IntType.isSigned, IntType.Contains, IntType.least,
    IntType.size] <;> omega

end CInt

/-! ## Operators on low bits -/

namespace BinaryOp

def exact (op : BinaryOp) (first second : Int) : Int :=
  (Integers.binary op first second).getD 0

/-- The operators whose low bits are determined by the low bits of their operands. -/
def modular : BinaryOp → Option (Int → Int → Int)
  | .add => some (· + ·)
  | .sub => some (· - ·)
  | .mul => some (· * ·)
  | .bitAnd => some Int.land
  | .bitOr => some Int.lor
  | .bitXor => some Int.xor
  | _ => none

variable {op : BinaryOp} {f : Int → Int → Int} (h : op.modular = some f)

include h in
theorem modular_modEq {w : Nat} {a a' b b' : Int} (ha : a ≡ a' [ZMOD 2 ^ w])
    (hb : b ≡ b' [ZMOD 2 ^ w]) : f a b ≡ f a' b' [ZMOD 2 ^ w] := by
  cases op <;> simp only [modular, Option.some.injEq, reduceCtorEq] at h <;> subst h
  · exact ha.add hb
  · exact ha.sub hb
  · exact ha.mul hb
  · exact Int.bitwise_and ▸ bitwise_modEq _ ha hb
  · exact Int.bitwise_or ▸ bitwise_modEq _ ha hb
  · exact Int.bitwise_xor ▸ bitwise_modEq _ ha hb

include h in
theorem modular_bounded {a b : Int} (ha : -2147483648 ≤ a ∧ a < 4294967296)
    (hb : -2147483648 ≤ b ∧ b < 4294967296) :
    (f a b).natAbs ≤ 18446744065119617025 := by
  have hbits : ∀ g, -4294967296 ≤ Int.bitwise g a b ∧ Int.bitwise g a b < 4294967296 :=
    fun g => bitwise_bounded g (n := 32) (by omega) (by omega)
  cases op <;> simp only [modular, Option.some.injEq, reduceCtorEq] at h <;> subst h
  · show (a + b).natAbs ≤ _
    omega
  · show (a - b).natAbs ≤ _
    omega
  · have hproduct : a.natAbs * b.natAbs ≤ 4294967295 * 4294967295 :=
      Nat.mul_le_mul (by omega) (by omega)
    show (a * b).natAbs ≤ _
    rwa [Int.natAbs_mul]
  · have hand := hbits and
    rw [Int.bitwise_and] at hand
    omega
  · have hor := hbits or
    rw [Int.bitwise_or] at hor
    omega
  · have hxor := hbits xor
    rw [Int.bitwise_xor] at hxor
    omega

end BinaryOp

/-! ## Exact results -/

/-- The result of an operation that has an exact result, reduced to a type if unsigned. -/
structure CInt.Reduces (result : CInt) (type : IntType) (exact : Int) : Prop where
  type_eq : result.type = type
  modEq : result.value ≡ exact [ZMOD type.size]
  signed : type.isSigned = true → result.value = exact

theorem CInt.reduces_wrap {type : IntType} {exact : Int}
    (h : type.isSigned = true → type.Contains exact) :
    (CInt.wrap type exact).Reduces type exact :=
  ⟨rfl, type.wrap_modEq exact, fun hsigned => IntType.wrap_of_contains (h hsigned)⟩

theorem CInt.reduces_checked {type : IntType} {exact : Int} {result : CInt}
    (h : CInt.checked type exact = some result) : result.Reduces type exact := by
  unfold CInt.checked at h
  split at h
  · cases h
    exact ⟨rfl, rfl, fun _ => rfl⟩
  · split at h
    · cases h
    · next hunsigned =>
        cases h
        exact CInt.reduces_wrap fun hsigned => absurd hsigned hunsigned

theorem CInt.wrap_congr {type : IntType} {first second : Int}
    (h : first ≡ second [ZMOD type.size]) : CInt.wrap type first = CInt.wrap type second := by
  have hvalue : type.wrap first = type.wrap second := by
    rw [IntType.wrap, IntType.wrap, (h.sub_right type.least).eq]
  simp only [CInt.wrap, hvalue]

theorem CInt.checked_isSome {type : IntType} (h : type.isSigned = false) (exact : Int) :
    ∃ result, CInt.checked type exact = some result := by
  unfold CInt.checked
  split
  · exact ⟨_, rfl⟩
  · exact ⟨_, if_neg (by simp [h])⟩

/-- An exact result that is not reduced to 32 bits, where more than these count. -/
def Unreduced (w : Nat) (type : IntType) (exact : Int) : Prop :=
  type = .unsignedInt → 32 < w → type.Contains exact

theorem unreduced_iff {w : Nat} (hw : w ≤ 32 ∨ w = 64) {type : IntType} {exact : Int}
    {result : CInt} (hresult : result.Reduces type exact)
    (hbounds : type = .unsignedInt → exact.natAbs ≤ 18446744065119617025) :
    exact ≡ result.value [ZMOD 2 ^ w] ↔ Unreduced w type exact := by
  have hcongr : ∀ n, w ≤ n → type.size = 2 ^ n → exact ≡ result.value [ZMOD 2 ^ w] :=
    fun n hn hsize => (hsize ▸ hresult.modEq).symm.of_dvd (pow_dvd_pow 2 hn)
  have hsigned := hresult.signed
  by_cases htype : type = .unsignedInt
  · by_cases hlow : w ≤ 32
    · refine ⟨fun _ _ hlt => absurd hlt (by omega), fun _ => hcongr 32 hlow ?_⟩
      rw [htype]
      rfl
    · obtain rfl : w = 64 := hw.resolve_left hlow
      have hrange := hresult.type_eq ▸ result.inRange
      have hexact := hbounds htype
      have hmod := hresult.modEq.eq
      rw [htype] at hrange hmod
      rw [Int.modEq_iff_dvd]
      simp only [Unreduced, htype, IntType.Contains, IntType.least, IntType.size] at hrange hmod ⊢
      constructor
      · rintro ⟨c, hc⟩
        omega
      · intro h
        have := h trivial (by omega)
        exact ⟨0, by omega⟩
  · refine ⟨fun _ h => absurd h htype, fun _ => ?_⟩
    cases hsign : type.isSigned with
    | true => rw [hsigned hsign]
    | false =>
        refine hcongr 64 (by omega) ?_
        cases type <;> first | rfl | exact absurd rfl htype | cases hsign

namespace LP64

section Modular

variable {op : BinaryOp} {f : Int → Int → Int} (h : op.modular = some f)

include h in
theorem binary_modular (number other : CInt) :
    binary op number other = arithmetic op (number.type.common other.type)
      ((number.type.common other.type).wrap number.value)
      ((number.type.common other.type).wrap other.value) := by
  cases op <;> first | rfl | simp [BinaryOp.modular] at h

include h in
theorem arithmetic_reduces {type : IntType} {first second : Int}
    (hfirst : type.Contains first) (hsecond : type.Contains second) {result : CInt}
    (hresult : arithmetic op type first second = some result) :
    result.Reduces type (f first second) := by
  have hbits : ∀ g, type.isSigned = true → type.Contains (Int.bitwise g first second) := by
    intro g hsigned
    cases type <;> simp [IntType.isSigned] at hsigned
    · exact bitwise_bounded g (n := 31) hfirst hsecond
    all_goals exact bitwise_bounded g (n := 63) hfirst hsecond
  cases op <;> simp only [BinaryOp.modular, Option.some.injEq, reduceCtorEq] at h <;> subst h
  · exact CInt.reduces_checked hresult
  · exact CInt.reduces_checked hresult
  · exact CInt.reduces_checked hresult
  · cases hresult
    exact CInt.reduces_wrap (Int.bitwise_and ▸ hbits and)
  · cases hresult
    exact CInt.reduces_wrap (Int.bitwise_or ▸ hbits or)
  · cases hresult
    exact CInt.reduces_wrap (Int.bitwise_xor ▸ hbits xor)

include h in
theorem binary_reduces {number other result : CInt}
    (hresult : binary op number other = some result) :
    result.Reduces (number.type.common other.type) (f number.value other.value) := by
  rw [binary_modular h] at hresult
  generalize htype : number.type.common other.type = type at hresult
  have hreduces := arithmetic_reduces h (type.contains_wrap _) (type.contains_wrap _) hresult
  refine ⟨hreduces.type_eq, hreduces.modEq.trans ?_, fun hsigned => ?_⟩
  · rw [type.size_eq]
    exact BinaryOp.modular_modEq h (type.size_eq ▸ type.wrap_modEq _)
      (type.size_eq ▸ type.wrap_modEq _)
  · subst htype
    rw [hreduces.signed hsigned,
      IntType.wrap_of_contains (IntType.contains_common hsigned (.inl number.inRange)),
      IntType.wrap_of_contains (IntType.contains_common hsigned (.inr other.inRange))]

include h in
theorem arithmetic_isSome {type : IntType} (hunsigned : type.isSigned = false)
    (first second : Int) : ∃ result, arithmetic op type first second = some result := by
  cases op <;> simp only [BinaryOp.modular, reduceCtorEq] at h
  · exact CInt.checked_isSome hunsigned _
  · exact CInt.checked_isSome hunsigned _
  · exact CInt.checked_isSome hunsigned _
  all_goals exact ⟨_, rfl⟩

end Modular

theorem binary_division {op : BinaryOp} (hop : op.IsDivision) (number other : CInt) :
    binary op number other = arithmetic op (number.type.common other.type)
      ((number.type.common other.type).wrap number.value)
      ((number.type.common other.type).wrap other.value) := by
  rcases hop with rfl | rfl <;> rfl

theorem arithmetic_division {op : BinaryOp} (hop : op.IsDivision) {type : IntType}
    {first second : Int} (hfirst : type.Contains first) (hsecond : type.Contains second)
    {result : CInt} (hresult : arithmetic op type first second = some result) :
    second ≠ 0 ∧ result.type = type ∧ result.value = op.exact first second := by
  rcases hop with rfl | rfl
  · simp only [arithmetic] at hresult
    split at hresult
    · cases hresult
    · next hzero =>
        have hreduces := CInt.reduces_checked hresult
        have hexact : BinaryOp.div.exact first second = first.tdiv second := by
          simp [BinaryOp.exact, Integers.binary, hzero]
        refine ⟨hzero, hreduces.type_eq, ?_⟩
        rw [hexact]
        cases hsigned : type.isSigned with
        | true => exact hreduces.signed hsigned
        | false =>
            have hcontains := IntType.contains_tdiv hsigned hfirst hsecond
            rw [CInt.checked, dif_pos hcontains] at hresult
            cases hresult
            rfl
  · simp only [arithmetic] at hresult
    split at hresult
    · cases hresult
    · next hdefined =>
        cases hresult
        have hzero : second ≠ 0 := fun h => hdefined (.inl h)
        have hexact : BinaryOp.mod.exact first second = first.tmod second := by
          simp [BinaryOp.exact, Integers.binary, hzero]
        rw [hexact]
        exact ⟨hzero, rfl, IntType.wrap_of_contains (IntType.contains_tmod hfirst second)⟩

theorem arithmetic_division_isSome {op : BinaryOp} (hop : op.IsDivision) {type : IntType}
    (hunsigned : type.isSigned = false) {first second : Int} (hfirst : type.Contains first)
    (hsecond : type.Contains second) (hzero : second ≠ 0) :
    ∃ result, arithmetic op type first second = some result := by
  rcases hop with rfl | rfl
  · obtain ⟨result, hresult⟩ := CInt.checked_isSome hunsigned (first.tdiv second)
    exact ⟨result, (if_neg hzero).trans hresult⟩
  · exact ⟨_, if_neg (not_or.mpr ⟨hzero, not_not.mpr
      (IntType.contains_tdiv hunsigned hfirst hsecond)⟩)⟩

theorem shift_count {op : BinaryOp} {number result : CInt} {count : Int}
    (h : shift op number count = some result) :
    0 ≤ count ∧ count < number.type.width := by
  unfold shift at h
  split at h
  · cases h
  · omega

theorem shl_of_count {number : CInt} {count : Int}
    (h : 0 ≤ count ∧ count < number.type.width) :
    shift .shl number count = if number.value < 0 then none
      else CInt.checked number.type (number.value * 2 ^ count.toNat) := by
  unfold shift
  rw [if_neg (by omega)]

theorem shr_of_count {number : CInt} {count : Int}
    (h : 0 ≤ count ∧ count < number.type.width) :
    shift .shr number count =
      some (.wrap number.type (number.value / 2 ^ count.toNat)) := by
  unfold shift
  rw [if_neg (by omega)]

end LP64

end F1X.Library
