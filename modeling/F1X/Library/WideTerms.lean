import F1X.Library.WideOperands

/-!
# Terms with atoms read as 64 bit unsigned numbers

`Keeps` passes down a term how many low bits of each operand count and asks of
every operator that is evaluated to keep them.
-/

namespace F1X.Library

namespace Term

variable {A : Type*}

/-- Without conditional expressions and raised flags. -/
def Plain : Term A UnaryOp BinaryOp → Prop
  | .atom _ => True
  | .unary _ arg => arg.Plain
  | .binary _ left right => left.Plain ∧ right.Plain
  | .conditional _ _ _ | .raise => False

/-- Whether the second reading of a term is a 64 bit unsigned number. -/
def isWide (wide : A → Bool) : Term A UnaryOp BinaryOp → Bool
  | .atom a => wide a
  | .unary op arg => op.isWide (arg.isWide wide)
  | .binary op left right => op.isWide (left.isWide wide) (right.isWide wide)
  | .conditional _ _ _ | .raise => false

theorem quiet_andThen {V : Type*} (value : Option V) (next : V → Option V) :
    Result.andThen (.quiet value) (fun result => .quiet (next result)) =
      .quiet (value.bind next) := by
  cases value with
  | none => rfl
  | some value => exact Result.andThen_quiet value _

theorem eval_plain {machine : Machine UnaryOp BinaryOp CInt} {env : A → Result CInt}
    (hquiet : ∀ a, env a = .quiet ((env a).map Prod.fst)) {term : Term A UnaryOp BinaryOp}
    (hplain : term.Plain) : term.eval machine env = .quiet (term.value machine env) := by
  induction term with
  | atom a => exact hquiet a
  | unary op arg ih => rw [eval, ih hplain, quiet_andThen, value_unary]
  | binary op left right ihLeft ihRight =>
      rw [eval, ihLeft hplain.1, ihRight hplain.2, value_binary]
      cases hfirst : left.value machine env with
      | none => rfl
      | some first =>
          rw [Result.quiet_some, Result.andThen_quiet, Option.bind_some]
          cases machine.decided op first with
          | some result => rfl
          | none => exact quiet_andThen _ _
  | conditional | raise => exact hplain.elim

section Readings

variable (machine : Machine UnaryOp BinaryOp CInt) (wide : A → Bool) (kept : A → Prop)
  (env retyped : A → Result CInt)

/--
Every operator that is evaluated keeps the bits that count of its wide
operands; `kept` says which atoms do.
-/
def Keeps : Nat → Term A UnaryOp BinaryOp → Prop
  | _, .atom a => kept a
  | w, .unary op arg =>
      arg.Keeps (op.demand w) ∧ ∀ number, arg.value machine env = some number →
        arg.isWide wide = true → UnaryKept w op number
  | w, .binary op left right =>
      left.Keeps (op.demandLeft w) ∧ ∀ first, left.value machine env = some first →
        machine.decided op first = none →
          right.Keeps (op.demandRight w) ∧ ∀ second, right.value machine env = some second →
            op.meets (left.isWide wide) (right.isWide wide) = true →
              BinaryKept w op first second
  | _, .conditional _ _ _ | _, .raise => False

/-- The same without the outermost operator. -/
def OperandsKeep (w : Nat) (term : Term A UnaryOp BinaryOp) : Prop :=
  match term with
  | .atom _ => True
  | .unary op arg => arg.Keeps machine wide kept env (op.demand w)
  | .binary op left right =>
      left.Keeps machine wide kept env (op.demandLeft w) ∧
        ∀ first, left.value machine env = some first → machine.decided op first = none →
          right.Keeps machine wide kept env (op.demandRight w)
  | .conditional _ _ _ | .raise => False

/-- The two values of a term have the same low bits. -/
def AlikeAt (w : Nat) (term : Term A UnaryOp BinaryOp) : Prop :=
  ∃ number other, term.value machine env = some number ∧
    term.value machine retyped = some other ∧ Alike w (term.isWide wide) number other

/-- The two values of every part that is evaluated have the same low bits. -/
def ReadAlike : Nat → Term A UnaryOp BinaryOp → Prop
  | w, .atom a => AlikeAt machine wide env retyped w (.atom a)
  | w, .unary op arg =>
      arg.ReadAlike (op.demand w) ∧ AlikeAt machine wide env retyped w (.unary op arg)
  | w, .binary op left right =>
      (left.ReadAlike (op.demandLeft w) ∧ ∀ first, left.value machine env = some first →
        machine.decided op first = none → right.ReadAlike (op.demandRight w)) ∧
      AlikeAt machine wide env retyped w (.binary op left right)
  | _, .conditional _ _ _ | _, .raise => False

/-- What is assumed of the two readings of the atoms. -/
structure AtomsAlike : Prop where
  alike : ∀ a w, (w ≤ 32 ∨ w = 64) → ∀ number,
    (atom a : Term A UnaryOp BinaryOp).value machine env = some number →
      ((atom a).AlikeAt machine wide env retyped w ↔ kept a)
  /-- Two values of an atom with the same low bits are alike. -/
  bits : ∀ a w, 1 ≤ w → ∀ number other,
    (atom a : Term A UnaryOp BinaryOp).value machine env = some number →
      (atom a : Term A UnaryOp BinaryOp).value machine retyped = some other →
        other.value ≡ number.value [ZMOD 2 ^ w] → Alike w (wide a) number other

end Readings

section Laws

variable {literal : String → String → CInt} {wide : A → Bool} {kept : A → Prop}
  {env retyped : A → Result CInt} {w : Nat} (hw : w ≤ 32 ∨ w = 64)

theorem ReadAlike.alikeAt {machine : Machine UnaryOp BinaryOp CInt}
    {term : Term A UnaryOp BinaryOp} (h : term.ReadAlike machine wide env retyped w) :
    term.AlikeAt machine wide env retyped w := by
  cases term with
  | atom a => exact h
  | unary op arg => exact h.2
  | binary op left right => exact h.2
  | conditional | raise => exact h.elim

theorem Keeps.operands {machine : Machine UnaryOp BinaryOp CInt}
    {term : Term A UnaryOp BinaryOp} (h : term.Keeps machine wide kept env w) :
    term.OperandsKeep machine wide kept env w := by
  cases term with
  | atom a => trivial
  | unary op arg => exact h.1
  | binary op left right => exact ⟨h.1, fun first hfirst hdecided => (h.2 first hfirst hdecided).1⟩
  | conditional | raise => exact h.elim

theorem keeps_of_narrow {machine : Machine UnaryOp BinaryOp CInt}
    {term : Term A UnaryOp BinaryOp} (hplain : term.Plain)
    (h : ∀ a, term.Reads a → wide a = false ∧ kept a) :
    term.isWide wide = false ∧ term.Keeps machine wide kept env w := by
  induction term generalizing w with
  | atom a => exact h a rfl
  | unary op arg ih =>
      have harg := fun {w} => ih (w := w) hplain h
      have hwide : arg.isWide wide = false := (harg (w := w)).1
      refine ⟨by cases op <;> simp [isWide, UnaryOp.isWide, hwide], harg.2, fun _ _ hnot => ?_⟩
      rw [hwide] at hnot
      cases hnot
  | binary op left right ihLeft ihRight =>
      have hleft := fun {w} => ihLeft (w := w) hplain.1 fun a ha => h a (.inl ha)
      have hright := fun {w} => ihRight (w := w) hplain.2 fun a ha => h a (.inr ha)
      have hwide : left.isWide wide = false := (hleft (w := w)).1
      have hwide' : right.isWide wide = false := (hright (w := w)).1
      have hmeets : op.meets (left.isWide wide) (right.isWide wide) = false := by
        cases op <;> simp [BinaryOp.meets, hwide, hwide']
      refine ⟨by simp [isWide, BinaryOp.isWide, hmeets], hleft.2, fun _ _ _ =>
        ⟨hright.2, fun _ _ hnot => ?_⟩⟩
      rw [hmeets] at hnot
      cases hnot
  | conditional | raise => exact hplain.elim

theorem demand_cases (op : UnaryOp) (hw : w ≤ 32 ∨ w = 64) :
    op.demand w ≤ 32 ∨ op.demand w = 64 := by
  cases op with
  | cast target => cases target <;> simp [UnaryOp.demand]
  | _ => simp [UnaryOp.demand, hw]

theorem demandLeft_cases (op : BinaryOp) (hw : w ≤ 32 ∨ w = 64) :
    op.demandLeft w ≤ 32 ∨ op.demandLeft w = 64 := by
  unfold BinaryOp.demandLeft
  split <;> simp [hw]

theorem demandRight_cases (op : BinaryOp) (hw : w ≤ 32 ∨ w = 64) :
    op.demandRight w ≤ 32 ∨ op.demandRight w = 64 := by
  unfold BinaryOp.demandRight
  split <;> simp [hw]

theorem value_operand_of_unary {env : A → Result CInt} {op : UnaryOp}
    {arg : Term A UnaryOp BinaryOp} {number : CInt}
    (h : (unary op arg).value (lp64 literal).toMachine env = some number) :
    ∃ operand, arg.value (lp64 literal).toMachine env = some operand := by
  rw [value_unary] at h
  obtain ⟨operand, hoperand, -⟩ := Option.bind_eq_some_iff.mp h
  exact ⟨operand, hoperand⟩

theorem value_left_of_binary {env : A → Result CInt} {op : BinaryOp}
    {left right : Term A UnaryOp BinaryOp} {number : CInt}
    (h : (binary op left right).value (lp64 literal).toMachine env = some number) :
    ∃ first, left.value (lp64 literal).toMachine env = some first := by
  rw [value_binary] at h
  obtain ⟨first, hfirst, -⟩ := Option.bind_eq_some_iff.mp h
  exact ⟨first, hfirst⟩

include hw in
private theorem alikeAt_unary {op : UnaryOp} {arg : Term A UnaryOp BinaryOp} {number : CInt}
    (hvalue : (unary op arg).value (lp64 literal).toMachine env = some number)
    (harg : arg.AlikeAt (lp64 literal).toMachine wide env retyped (op.demand w)) :
    (unary op arg).AlikeAt (lp64 literal).toMachine wide env retyped w ↔
      ∀ operand, arg.value (lp64 literal).toMachine env = some operand →
        arg.isWide wide = true → UnaryKept w op operand := by
  obtain ⟨operand, other, hoperand, hother, halike⟩ := harg
  have hresult := hvalue
  rw [value_unary, hoperand, Option.bind_some] at hresult
  obtain ⟨result, hretyped, hiff⟩ := unary_alike hw halike hresult
  have hvalue' : (unary op arg).value (lp64 literal).toMachine retyped = some result := by
    rw [value_unary, hother, Option.bind_some]
    exact hretyped
  simp only [hoperand, Option.some.injEq, forall_eq']
  rw [← hiff]
  constructor
  · rintro ⟨_, _, h, h', halike⟩
    cases hvalue.symm.trans h
    cases hvalue'.symm.trans h'
    exact halike
  · exact fun halike => ⟨_, _, hvalue, hvalue', halike⟩

theorem value_of_decided {env : A → Result CInt} {op : BinaryOp}
    {left : Term A UnaryOp BinaryOp} (right : Term A UnaryOp BinaryOp) {first result : CInt}
    (hleft : left.value (lp64 literal).toMachine env = some first)
    (hdecided : LP64.decided op first = some result) :
    (binary op left right).value (lp64 literal).toMachine env = some result := by
  rw [value_binary, hleft, Option.bind_some]
  simp only [show (lp64 literal).decided op first = some result from hdecided]

theorem value_of_not_decided {env : A → Result CInt} {op : BinaryOp}
    {left : Term A UnaryOp BinaryOp} (right : Term A UnaryOp BinaryOp) {first : CInt}
    (hleft : left.value (lp64 literal).toMachine env = some first)
    (hdecided : LP64.decided op first = none) :
    (binary op left right).value (lp64 literal).toMachine env =
      (right.value (lp64 literal).toMachine env).bind (LP64.binary op first) := by
  rw [value_binary, hleft, Option.bind_some]
  simp only [show (lp64 literal).decided op first = none from hdecided]
  rfl

theorem value_right_of_binary {env : A → Result CInt} {op : BinaryOp}
    {left right : Term A UnaryOp BinaryOp} {first number : CInt}
    (h : (binary op left right).value (lp64 literal).toMachine env = some number)
    (hleft : left.value (lp64 literal).toMachine env = some first)
    (hdecided : LP64.decided op first = none) :
    ∃ second, right.value (lp64 literal).toMachine env = some second := by
  rw [value_of_not_decided right hleft hdecided] at h
  obtain ⟨second, hsecond, -⟩ := Option.bind_eq_some_iff.mp h
  exact ⟨second, hsecond⟩

private theorem keeps_binary {machine : Machine UnaryOp BinaryOp CInt} {op : BinaryOp}
    {left right : Term A UnaryOp BinaryOp} :
    (binary op left right).Keeps machine wide kept env w ↔
      (binary op left right).OperandsKeep machine wide kept env w ∧
        ∀ first, left.value machine env = some first → machine.decided op first = none →
          ∀ second, right.value machine env = some second →
            op.meets (left.isWide wide) (right.isWide wide) = true →
              BinaryKept w op first second := by
  simp only [Keeps, OperandsKeep, forall_and, and_assoc]

include hw in
private theorem alikeAt_binary {op : BinaryOp} {left right : Term A UnaryOp BinaryOp}
    {number : CInt}
    (hvalue : (binary op left right).value (lp64 literal).toMachine env = some number)
    (hleft : left.AlikeAt (lp64 literal).toMachine wide env retyped (op.demandLeft w))
    (hright : ∀ first, left.value (lp64 literal).toMachine env = some first →
      (lp64 literal).decided op first = none →
        right.AlikeAt (lp64 literal).toMachine wide env retyped (op.demandRight w)) :
    (binary op left right).AlikeAt (lp64 literal).toMachine wide env retyped w ↔
      ∀ first, left.value (lp64 literal).toMachine env = some first →
        (lp64 literal).decided op first = none →
          ∀ second, right.value (lp64 literal).toMachine env = some second →
            op.meets (left.isWide wide) (right.isWide wide) = true →
              BinaryKept w op first second := by
  obtain ⟨first, first', hfirst, hfirst', halikeLeft⟩ := hleft
  have hdecided' := decided_alike halikeLeft
  simp only [hfirst, Option.some.injEq, forall_eq']
  cases hdecided : LP64.decided op first with
  | some result =>
      have hresult := value_of_decided right hfirst hdecided
      have hresult' := value_of_decided right hfirst' (hdecided'.trans hdecided)
      have hnarrow : op.isWide (left.isWide wide) (right.isWide wide) = false := by
        cases op <;> first | rfl | cases hdecided
      refine ⟨fun _ h => ?_, fun _ => ⟨_, _, hresult, hresult', ?_⟩⟩
      · cases hdecided.symm.trans h
      · rw [isWide, hnarrow]
        exact rfl
  | none =>
      obtain ⟨second, second', hsecond, hsecond', halikeRight⟩ := hright first hfirst hdecided
      have hresult := value_of_not_decided right hfirst hdecided
      rw [hvalue, hsecond, Option.bind_some] at hresult
      obtain ⟨result, hretyped, hiff⟩ := binary_alike hw halikeLeft halikeRight hresult.symm
      have hvalue' := value_of_not_decided right hfirst' (hdecided'.trans hdecided)
      rw [hsecond', Option.bind_some, hretyped] at hvalue'
      have hundecided : (lp64 literal).decided op first = none := hdecided
      simp only [hsecond, Option.some.injEq, forall_eq', hundecided, forall_const]
      rw [← hiff]
      constructor
      · rintro ⟨_, _, h, h', halike⟩
        cases hvalue.symm.trans h
        cases hvalue'.symm.trans h'
        exact halike
      · exact fun halike => ⟨_, _, hvalue, hvalue', halike⟩

variable (hatoms : AtomsAlike (lp64 literal).toMachine wide kept env retyped)

include hatoms in
/-- Every evaluated part has the same low bits if and only if every operator keeps them. -/
theorem readAlike_iff {term : Term A UnaryOp BinaryOp} (hplain : term.Plain)
    (hw : w ≤ 32 ∨ w = 64) {number : CInt}
    (hvalue : term.value (lp64 literal).toMachine env = some number) :
    term.ReadAlike (lp64 literal).toMachine wide env retyped w ↔
      term.Keeps (lp64 literal).toMachine wide kept env w := by
  induction term generalizing w number with
  | atom a => exact hatoms.alike a w hw number hvalue
  | unary op arg ih =>
      obtain ⟨operand, hoperand⟩ := value_operand_of_unary hvalue
      have harg := ih hplain (demand_cases op hw) hoperand
      rw [ReadAlike, Keeps, harg]
      exact and_congr_right fun hkeeps =>
        alikeAt_unary hw hvalue (harg.mpr hkeeps).alikeAt
  | binary op left right ihLeft ihRight =>
      obtain ⟨first, hfirst⟩ := value_left_of_binary hvalue
      have hleft := ihLeft hplain.1 (demandLeft_cases op hw) hfirst
      have hright : (∀ first, left.value (lp64 literal).toMachine env = some first →
          (lp64 literal).decided op first = none →
            right.ReadAlike (lp64 literal).toMachine wide env retyped (op.demandRight w)) ↔
          ∀ first, left.value (lp64 literal).toMachine env = some first →
            (lp64 literal).decided op first = none →
              right.Keeps (lp64 literal).toMachine wide kept env (op.demandRight w) := by
        refine forall_congr' fun first => forall_congr' fun hfirst =>
          forall_congr' fun hdecided => ?_
        obtain ⟨second, hsecond⟩ := value_right_of_binary hvalue hfirst hdecided
        exact ihRight hplain.2 (demandRight_cases op hw) hsecond
      rw [keeps_binary, ReadAlike, hleft, hright]
      exact and_congr_right fun hkeeps => alikeAt_binary hw hvalue
        (hleft.mpr hkeeps.1).alikeAt fun first hfirst hdecided =>
          (hright.mpr hkeeps.2 first hfirst hdecided).alikeAt
  | conditional | raise => exact hplain.elim

include hatoms in
/-- Once the operands are kept, the outermost operator decides. -/
theorem alikeAt_iff {term : Term A UnaryOp BinaryOp} (hplain : term.Plain)
    (hw : w ≤ 32 ∨ w = 64) {number : CInt}
    (hvalue : term.value (lp64 literal).toMachine env = some number)
    (hoperands : term.OperandsKeep (lp64 literal).toMachine wide kept env w) :
    term.AlikeAt (lp64 literal).toMachine wide env retyped w ↔
      term.Keeps (lp64 literal).toMachine wide kept env w := by
  rw [← readAlike_iff hatoms hplain hw hvalue]
  refine ⟨fun halike => ?_, fun h => h.alikeAt⟩
  cases term with
  | atom a => exact halike
  | unary op arg =>
      obtain ⟨operand, hoperand⟩ := value_operand_of_unary hvalue
      have harg := readAlike_iff hatoms (show arg.Plain from hplain) (demand_cases op hw) hoperand
      exact ⟨harg.mpr hoperands, halike⟩
  | binary op left right =>
      obtain ⟨first, hfirst⟩ := value_left_of_binary hvalue
      refine ⟨⟨(readAlike_iff hatoms hplain.1 (demandLeft_cases op hw) hfirst).mpr hoperands.1,
        fun first hfirst hdecided => ?_⟩, halike⟩
      obtain ⟨second, hsecond⟩ := value_right_of_binary hvalue hfirst hdecided
      exact (readAlike_iff hatoms hplain.2 (demandRight_cases op hw) hsecond).mpr
        (hoperands.2 first hfirst hdecided)
  | conditional | raise => exact hplain.elim

include hatoms in
theorem alikeAt_of_modEq {term : Term A UnaryOp BinaryOp} (hplain : term.Plain)
    (hw : w ≤ 32 ∨ w = 64) (hpos : 1 ≤ w) {number other : CInt}
    (hvalue : term.value (lp64 literal).toMachine env = some number)
    (hother : term.value (lp64 literal).toMachine retyped = some other)
    (hmod : other.value ≡ number.value [ZMOD 2 ^ w])
    (hoperands : term.OperandsKeep (lp64 literal).toMachine wide kept env w) :
    term.AlikeAt (lp64 literal).toMachine wide env retyped w := by
  refine ⟨number, other, hvalue, hother, ?_⟩
  cases term with
  | atom a => exact hatoms.bits a w hpos number other hvalue hother hmod
  | unary op arg =>
      obtain ⟨operand, hoperand⟩ := value_operand_of_unary hvalue
      have harg := readAlike_iff hatoms (show arg.Plain from hplain) (demand_cases op hw) hoperand
      obtain ⟨_, operand', h, hoperand', halike⟩ := (harg.mpr hoperands).alikeAt
      cases hoperand.symm.trans h
      rw [value_unary, hoperand, Option.bind_some] at hvalue
      rw [value_unary, hoperand', Option.bind_some] at hother
      exact unary_alike_of_modEq hw halike hvalue hother hmod
  | binary op left right =>
      obtain ⟨first, hfirst⟩ := value_left_of_binary hvalue
      have hleft := readAlike_iff hatoms hplain.1 (demandLeft_cases op hw) hfirst
      obtain ⟨_, first', h, hfirst', halikeLeft⟩ := (hleft.mpr hoperands.1).alikeAt
      cases hfirst.symm.trans h
      have hdecided' := decided_alike halikeLeft
      cases hdecided : LP64.decided op first with
      | some result =>
          cases hvalue.symm.trans (value_of_decided right hfirst hdecided)
          cases hother.symm.trans (value_of_decided right hfirst' (hdecided'.trans hdecided))
          have hnarrow : op.isWide (left.isWide wide) (right.isWide wide) = false := by
            cases op <;> first | rfl | cases hdecided
          rw [isWide, hnarrow]
          exact rfl
      | none =>
          obtain ⟨second, hsecond⟩ := value_right_of_binary hvalue hfirst hdecided
          have hright := readAlike_iff hatoms hplain.2 (demandRight_cases op hw) hsecond
          obtain ⟨_, second', h, hsecond', halikeRight⟩ :=
            (hright.mpr (hoperands.2 first hfirst hdecided)).alikeAt
          cases hsecond.symm.trans h
          rw [value_of_not_decided right hfirst hdecided, hsecond, Option.bind_some] at hvalue
          rw [value_of_not_decided right hfirst' (hdecided'.trans hdecided), hsecond',
            Option.bind_some] at hother
          exact binary_alike_of_modEq hw hpos halikeLeft halikeRight hvalue hother hmod
  | conditional | raise => exact hplain.elim

end Laws

end Term

end F1X.Library
