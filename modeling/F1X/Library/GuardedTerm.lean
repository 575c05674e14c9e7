import Mathlib.Logic.Basic

/-!
# Expressions that may fault, and their guarded translations

A term is evaluated over a machine that says how the operators compute and
where they are undefined.  A translation that must not fault inserts tests: it
raises a flag and continues with an arbitrary value instead.  `Guarded` relates
the result of a term to the result of such a translation; its rules follow the
structure of terms, so that a translation is verified node by node.
-/

namespace F1X.Library

/-- The value of a term and whether it raised the flag; `none` if it is undefined. -/
abbrev Result (V : Type*) := Option (V × Bool)

namespace Result

variable {V : Type*}

def andThen (result : Result V) (next : V → Result V) : Result V :=
  match result with
  | none => none
  | some (value, raised) =>
      match next value with
      | none => none
      | some (final, later) => some (final, raised || later)

def quiet (value : Option V) : Result V := value.map (·, false)

@[simp] theorem andThen_none (next : V → Result V) : andThen none next = none := rfl

@[simp] theorem andThen_quiet (value : V) (next : V → Result V) :
    andThen (some (value, false)) next = next value := by
  cases hnext : next value with
  | none => simp [andThen, hnext]
  | some pair => simp [andThen, hnext]

private theorem andThen_raised {value final : V} {later : Bool} {next : V → Result V}
    (h : next value = some (final, later)) :
    andThen (some (value, true)) next = some (final, true) := by
  simp [andThen, h]

theorem andThen_assoc (result : Result V) (next last : V → Result V) :
    andThen (andThen result next) last =
      andThen result fun value => andThen (next value) last := by
  cases result with
  | none => rfl
  | some pair =>
      obtain ⟨value, raised⟩ := pair
      cases hnext : next value with
      | none => simp [andThen, hnext]
      | some pair =>
          obtain ⟨other, later⟩ := pair
          cases hlast : last other with
          | none => simp [andThen, hnext, hlast]
          | some pair => simp [andThen, hnext, hlast, Bool.or_assoc]

theorem andThen_eq_some {result : Result V} {next : V → Result V} {final : V}
    {raised : Bool} (h : andThen result next = some (final, raised)) :
    ∃ value early later, result = some (value, early) ∧ next value = some (final, later) := by
  cases result with
  | none => cases h
  | some pair =>
      obtain ⟨value, early⟩ := pair
      cases hnext : next value with
      | none => simp [andThen, hnext] at h
      | some pair =>
          obtain ⟨other, later⟩ := pair
          simp only [andThen, hnext, Option.some.injEq, Prod.mk.injEq] at h
          exact ⟨value, early, later, rfl, by rw [hnext, h.1]⟩

theorem map_fst_andThen (result : Result V) (next : V → Result V) :
    (andThen result next).map Prod.fst =
      (result.map Prod.fst).bind fun value => (next value).map Prod.fst := by
  cases result with
  | none => rfl
  | some pair =>
      obtain ⟨value, raised⟩ := pair
      cases hnext : next value with
      | none => simp [andThen, hnext]
      | some pair => simp [andThen, hnext]

theorem map_fst_quiet (value : Option V) : (quiet value).map Prod.fst = value := by
  cases value <;> rfl

theorem quiet_eq_some {value : Option V} {result : V} :
    quiet value = some (result, false) ↔ value = some result := by
  simp [quiet]

@[simp] theorem quiet_none : quiet (none : Option V) = none := rfl

@[simp] theorem quiet_some (value : V) : quiet (some value) = some (value, false) := rfl

end Result

/-- How the operators of a language compute; `none` where they are undefined. -/
structure Machine (U B V : Type*) where
  unary : U → V → Option V
  /-- The result of a binary operator whose left operand decides it. -/
  decided : B → V → Option V
  binary : B → V → V → Option V
  truth : V → Bool
  /-- The value of an expression that raises the flag. -/
  dummy : V

inductive Term (A U B : Type*) where
  | atom (a : A)
  | unary (op : U) (arg : Term A U B)
  | binary (op : B) (left right : Term A U B)
  | conditional (condition first second : Term A U B)
  | raise

namespace Term

variable {A U B V : Type*}

def eval (machine : Machine U B V) (env : A → Result V) : Term A U B → Result V
  | .atom a => env a
  | .unary op arg =>
      (arg.eval machine env).andThen fun value => .quiet (machine.unary op value)
  | .binary op left right =>
      (left.eval machine env).andThen fun value =>
        match machine.decided op value with
        | some result => some (result, false)
        | none => (right.eval machine env).andThen fun other =>
            .quiet (machine.binary op value other)
  | .conditional condition first second =>
      (condition.eval machine env).andThen fun value =>
        if machine.truth value then first.eval machine env
        else second.eval machine env
  | .raise => some (machine.dummy, true)

theorem eval_binary_eq_some {machine : Machine U B V} {env : A → Result V} {op : B}
    {left right : Term A U B} {result : V} {raised : Bool}
    (h : (binary op left right).eval machine env = some (result, raised)) :
    (∃ value, machine.decided op value = some result) ∨
      ∃ value other, machine.binary op value other = some result := by
  obtain ⟨value, early, later, -, h⟩ := Result.andThen_eq_some h
  cases hdecided : machine.decided op value with
  | some decided =>
      rw [hdecided] at h
      cases h
      exact .inl ⟨value, hdecided⟩
  | none =>
      rw [hdecided] at h
      obtain ⟨other, _, _, -, h⟩ := Result.andThen_eq_some h
      cases hbinary : machine.binary op value other with
      | none => simp [hbinary] at h
      | some final =>
          rw [hbinary] at h
          cases h
          exact .inr ⟨value, other, hbinary⟩

def value (machine : Machine U B V) (env : A → Result V) (term : Term A U B) : Option V :=
  (term.eval machine env).map Prod.fst

theorem value_atom {machine : Machine U B V} {env : A → Result V} {a : A} :
    (atom a : Term A U B).value machine env = (env a).map Prod.fst := rfl

theorem value_unary {machine : Machine U B V} {env : A → Result V} {op : U}
    {arg : Term A U B} :
    (unary op arg).value machine env =
      (arg.value machine env).bind (machine.unary op) := by
  simp [value, eval, Result.map_fst_andThen, Result.map_fst_quiet]

theorem value_binary {machine : Machine U B V} {env : A → Result V} {op : B}
    {left right : Term A U B} :
    (binary op left right).value machine env =
      (left.value machine env).bind fun first =>
        match machine.decided op first with
        | some result => some result
        | none => (right.value machine env).bind (machine.binary op first) := by
  simp only [value, eval, Result.map_fst_andThen]
  congr 1
  funext first
  cases machine.decided op first with
  | some result => rfl
  | none => simp [Result.map_fst_andThen, Result.map_fst_quiet]

def bind {A' : Type*} (f : A → Term A' U B) : Term A U B → Term A' U B
  | .atom a => f a
  | .unary op arg => .unary op (arg.bind f)
  | .binary op left right => .binary op (left.bind f) (right.bind f)
  | .conditional condition first second =>
      .conditional (condition.bind f) (first.bind f) (second.bind f)
  | .raise => .raise

/-- Replacing atoms is the same as evaluating the replacements where they are read. -/
theorem eval_bind {A' : Type*} (machine : Machine U B V) (env : A' → Result V)
    (f : A → Term A' U B) (term : Term A U B) :
    (term.bind f).eval machine env =
      term.eval machine fun a => (f a).eval machine env := by
  induction term with
  | atom a => rfl
  | unary op arg ih => simp only [bind, eval, ih]
  | binary op left right ihLeft ihRight => simp only [bind, eval, ihLeft, ihRight]
  | conditional condition first second ihCondition ihFirst ihSecond =>
      simp only [bind, eval, ihCondition, ihFirst, ihSecond]
  | raise => rfl

def Reads (a : A) : Term A U B → Prop
  | .atom b => a = b
  | .unary _ arg => arg.Reads a
  | .binary _ left right => left.Reads a ∨ right.Reads a
  | .conditional condition first second =>
      condition.Reads a ∨ first.Reads a ∨ second.Reads a
  | .raise => False

theorem eval_congr (machine : Machine U B V) {env other : A → Result V}
    (term : Term A U B) (h : ∀ a, term.Reads a → env a = other a) :
    term.eval machine env = term.eval machine other := by
  induction term with
  | atom a => exact h a rfl
  | unary op arg ih => simp only [eval, ih h]
  | binary op left right ihLeft ihRight =>
      simp only [eval, ihLeft fun a ha => h a (.inl ha),
        ihRight fun a ha => h a (.inr ha)]
  | conditional condition first second ihCondition ihFirst ihSecond =>
      simp only [eval, ihCondition fun a ha => h a (.inl ha),
        ihFirst fun a ha => h a (.inr (.inl ha)),
        ihSecond fun a ha => h a (.inr (.inr ha))]
  | raise => rfl

end Term

/-! ## Guarded translations -/

/--
The target computes what the source computes.  Where the source is undefined it
raises the flag, or is undefined too; under `total` it always ends with a value.
-/
inductive Guarded {V : Type*} (total : Prop) : Result V → Result V → Prop
  | value (value : V) : Guarded total (some (value, false)) (some (value, false))
  | fault (value : V) : Guarded total none (some (value, true))
  | trap (partial_ : ¬total) : Guarded total none none

namespace Guarded

variable {V : Type*} {total : Prop} {source target : Result V}

theorem eq_some (h : Guarded total source target) {value : V} {raised : Bool}
    (hsource : source = some (value, raised)) :
    raised = false ∧ target = some (value, false) := by
  cases h with
  | value value =>
      cases hsource
      exact ⟨rfl, rfl⟩
  | fault | trap => cases hsource

theorem raises (h : Guarded total source target) (hsource : source = none) {value : V}
    {raised : Bool} (htarget : target = some (value, raised)) : raised = true := by
  cases h with
  | value => cases hsource
  | fault =>
      cases htarget
      rfl
  | trap => cases htarget

theorem defined (h : Guarded total source target) (htotal : total) :
    ∃ value raised, target = some (value, raised) := by
  cases h with
  | value value => exact ⟨value, false, rfl⟩
  | fault value => exact ⟨value, true, rfl⟩
  | trap htrap => exact absurd htotal htrap

theorem faults (h : Guarded total source target) (htotal : total) (hsource : source = none) :
    ∃ value, target = some (value, true) := by
  obtain ⟨value, raised, htarget⟩ := h.defined htotal
  cases h.raises hsource htarget
  exact ⟨value, htarget⟩

theorem afterFault (value : V) {next : V → Result V}
    (hnext : total → ∃ final later, next value = some (final, later)) :
    Guarded total none (Result.andThen (some (value, true)) next) := by
  cases h : next value with
  | none =>
      rw [Result.andThen, h]
      refine .trap fun htotal => ?_
      obtain ⟨final, later, hfinal⟩ := hnext htotal
      cases h.symm.trans hfinal
  | some pair =>
      rw [Result.andThen_raised h]
      exact .fault pair.1

theorem andThen (h : Guarded total source target) {next translated : V → Result V}
    (hnext : ∀ value, Guarded total (next value) (translated value)) :
    Guarded total (source.andThen next) (target.andThen translated) := by
  cases h with
  | value value => simpa using hnext value
  | fault value => exact afterFault value (hnext value).defined
  | trap htrap => exact .trap htrap

theorem quietOf {value : Option V} (h : total → value ≠ none) :
    Guarded total (Result.quiet value) (Result.quiet value) := by
  cases value with
  | none => exact .trap fun htotal => h htotal rfl
  | some value => exact .value value

section Operators

variable {U B : Type*} (machine : Machine U B V)

theorem unary (h : Guarded total source target) {op : U}
    (hop : total → ∀ value, machine.unary op value ≠ none) :
    Guarded total
      (source.andThen fun value => .quiet (machine.unary op value))
      (target.andThen fun value => .quiet (machine.unary op value)) :=
  h.andThen fun value => quietOf fun htotal => hop htotal value

theorem binary {source' target' : Result V}
    (h : Guarded total source target) (h' : Guarded total source' target') {op : B}
    (hop : total → ∀ value other, machine.binary op value other ≠ none) :
    Guarded total
      (source.andThen fun value =>
        match machine.decided op value with
        | some result => some (result, false)
        | none => source'.andThen fun other => .quiet (machine.binary op value other))
      (target.andThen fun value =>
        match machine.decided op value with
        | some result => some (result, false)
        | none => target'.andThen fun other => .quiet (machine.binary op value other)) := by
  refine h.andThen fun value => ?_
  cases machine.decided op value with
  | some result => exact .value result
  | none => exact h'.andThen fun other => quietOf fun htotal => hop htotal value other

/--
A division tests its divisor first.  The test reads the divisor, so the divisor
is evaluated twice; the numerator only where the test succeeds.
-/
theorem division {numerator numerator' divisor divisor' : Result V}
    (hnumerator : Guarded total numerator numerator')
    (hdivisor : Guarded total divisor divisor') {op : B} {test : V → V}
    (hdecided : ∀ value, machine.decided op value = none)
    (hzero : ∀ value other, machine.truth (test other) = false →
      machine.binary op value other = none)
    (hdefined : total → ∀ value other, machine.truth (test other) = true →
      machine.binary op value other ≠ none) :
    Guarded total
      (numerator.andThen fun value =>
        match machine.decided op value with
        | some result => some (result, false)
        | none => divisor.andThen fun other => .quiet (machine.binary op value other))
      ((divisor'.andThen fun other => some (test other, false)).andThen fun condition =>
        if machine.truth condition then
          numerator'.andThen fun value =>
            match machine.decided op value with
            | some result => some (result, false)
            | none =>
                divisor'.andThen fun other => .quiet (machine.binary op value other)
        else some (machine.dummy, true)) := by
  simp only [hdecided]
  have hnone : ∀ next : V → Result V, (∀ value, next value = none) →
      numerator.andThen next = none := by
    intro next hnext
    cases numerator with
    | none => rfl
    | some pair => simp [Result.andThen, hnext]
  cases hdivisor with
  | value other =>
      cases htest : machine.truth (test other) with
      | true =>
          simp only [Result.andThen_quiet, htest, if_true]
          exact hnumerator.andThen fun value =>
            quietOf fun htotal => hdefined htotal value other htest
      | false =>
          simp only [Result.andThen_quiet, htest]
          rw [hnone _ fun value => by simp [hzero value other htest]]
          exact .fault machine.dummy
  | fault other =>
      -- the source divides by an undefined value; the test has raised the flag already
      have hcondition : (Result.andThen (some (other, true)) fun other =>
          some (test other, false)) = some (test other, true) := rfl
      simp only [Result.andThen_none, hnone (fun _ => none) fun _ => rfl, hcondition]
      refine afterFault _ fun htotal => ?_
      cases htest : machine.truth (test other) with
      | true =>
          obtain ⟨value, early, hvalue⟩ := hnumerator.defined htotal
          obtain ⟨result, hresult⟩ :=
            Option.ne_none_iff_exists'.mp (hdefined htotal value other htest)
          exact ⟨result, _, by simp [hvalue, hresult, Result.andThen]; rfl⟩
      | false => exact ⟨machine.dummy, true, rfl⟩
  | trap htrap =>
      simp only [Result.andThen_none, hnone (fun _ => none) fun _ => rfl]
      exact .trap htrap

end Operators

end Guarded

end F1X.Library
