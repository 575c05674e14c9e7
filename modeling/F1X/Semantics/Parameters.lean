import F1X.Semantics.ParameterReadings

/-!
# The type of the parameter

The generated function reads the parameter from a variable of type
`unsigned long`, a patch spells it as a constant of type `int`.  The run of an
id computes the patch with its constant read at the former type, so an operator
that meets the parameter is carried out in a 64 bit unsigned type.  It keeps the
number of the patch under a condition on its operands in the patch.
-/

namespace F1X.generator

open F1X.Library F1X.synthesis

private theorem Decodes.param_le {conditions : List Expression} {paramBound base : Nat}
    {expression : Expression} {id : PatchID} {modified : Expression}
    (decodes : Decodes conditions paramBound base expression id modified) :
    id.param ≤ paramBound := by
  obtain ⟨chosen, -, hparametrized⟩ := decodes.choice
  generalize id.param = k at hparametrized
  cases hparametrized with
  | fixed => exact Nat.zero_le _
  | constant _ hk => exact hk

section Types

variable {literal : String → String → CInt}
  (hliteral : ∀ n : Nat, n < 2147483648 → literal "int" (toString n) = .wrap .int n)
  (valuation : Valuation CInt)

/-- The run ends without a panic and leaves the number behind. -/
def Computes (literal : String → String → CInt) (valuation : Valuation CInt)
    (sa : SchemaApplication) (code : DispatchCode) (id : PatchID) (locals : Locals CInt)
    (number : CInt) : Prop :=
  ∃ final, code.run (lp64 literal) valuation sa id locals.calm = some final ∧
    final.currentPanic = false ∧ final.baseValue.value = number.value

variable (hzero : literal "int" "0" = .ofBool false)

include hzero in
private theorem computes_iff {sa : SchemaApplication} (hscoped : sa.Scoped) {names : Naming}
    (hnaming : naming sa = .ok names) {conditions : List Expression} {code : DispatchCode}
    {id : PatchID} {expression : Expression}
    (hruns : Runs sa names conditions code id expression) (locals : Locals CInt)
    (number : CInt) :
    Computes literal valuation sa code id locals number ↔
      (id.bool2 = 0 ∨ conditionResult (lp64 literal) valuation
        (.wrap .unsignedLong id.param) conditions id.bool2 ≠ none) ∧
      ∃ retyped, instanceResult (lp64 literal) valuation (.wrap .unsignedLong id.param)
          conditions id.bool2 expression = some (retyped, false) ∧
        (LP64.store (outputType sa) retyped).value = number.value := by
  have hlaw := lp64_lawful hzero
  have htotal : False → (lp64 literal).Total := False.elim
  have hguarded := run_guarded hlaw lp64_boolean htotal valuation hscoped hnaming hruns locals
  constructor
  · rintro ⟨final, hfinal, hpanic, hnumber⟩
    have hresult := runResult_eq_some.mpr ⟨final, hfinal, rfl, hpanic⟩
    cases hsource : stored (lp64 literal) sa (eagerResult (lp64 literal) valuation
        ((lp64 literal).param id.param) conditions id.bool2 expression) with
    | none => cases hguarded.raises hsource hresult
    | some pair =>
        obtain ⟨base, raised⟩ := pair
        obtain ⟨rfl, htarget⟩ := hguarded.eq_some hsource
        cases hresult.symm.trans htarget
        obtain ⟨retyped, heager, hstore⟩ := stored_eq_some.mp hsource
        have hdefined : id.bool2 = 0 ∨ conditionResult (lp64 literal) valuation
            ((lp64 literal).param id.param) conditions id.bool2 ≠ none := by
          by_contra hnot
          obtain ⟨hbool2, hcondition⟩ := not_or.mp hnot
          rw [eagerResult_of_undefined valuation hbool2 (not_not.mp hcondition)] at heager
          cases heager
        rw [eagerResult_of_defined hlaw htotal valuation hscoped hnaming hruns hdefined
          locals] at heager
        exact ⟨hdefined, retyped, heager, (congrArg CInt.value hstore).trans hnumber⟩
  · rintro ⟨hdefined, retyped, hinstance, hnumber⟩
    have heager := (eagerResult_of_defined hlaw htotal valuation hscoped hnaming hruns
      hdefined locals).trans hinstance
    have hstored : stored (lp64 literal) sa (eagerResult (lp64 literal) valuation
        ((lp64 literal).param id.param) conditions id.bool2 expression) =
        some (LP64.store (outputType sa) retyped, false) :=
      stored_eq_some.mpr ⟨retyped, heager, rfl⟩
    obtain ⟨-, htarget⟩ := hguarded.eq_some hstored
    obtain ⟨final, hfinal, hbase, hpanic⟩ := runResult_eq_some.mp htarget
    exact ⟨final, hfinal, hpanic, (congrArg CInt.value hbase).trans hnumber⟩

/-! ### Where the parameter is kept -/

/-- The scope of the program with the parameter of a patch, a constant of type `int`. -/
def patchEnv (literal : String → String → CInt) (valuation : Valuation CInt)
    (conditions : List Expression) (id : PatchID) : SourceAtom → Result CInt :=
  valuation.env (lp64 literal) (some (.wrap .int id.param, false))
    (conditionResult (lp64 literal) valuation (.wrap .int id.param) conditions id.bool2)

def runEnv (literal : String → String → CInt) (valuation : Valuation CInt)
    (conditions : List Expression) (id : PatchID) : SourceAtom → Result CInt :=
  valuation.env (lp64 literal) (some (.wrap .unsignedLong id.param, false))
    (conditionResult (lp64 literal) valuation (.wrap .unsignedLong id.param) conditions
      id.bool2)

/-- The operator of the chosen condition keeps its result where it meets the parameter. -/
def ConditionKept (literal : String → String → CInt) (valuation : Valuation CInt)
    (conditions : List Expression) (id : PatchID) : Prop :=
  ∀ condition, chosenCondition conditions id.bool2 = some condition →
    (sourceTerm condition).Keeps (lp64 literal).toMachine isParameter (fun _ => True)
      (valuation.env (lp64 literal) (some (.wrap .int id.param, false)) none) 64

/-- The number of bits of the declared type of the location. -/
def storedWidth (sa : SchemaApplication) : Nat :=
  match LP64.storage (outputType sa) with
  | none => 64
  | some (_, width, _) => width

section Kept

variable (literal : String → String → CInt) (valuation : Valuation CInt)
  (sa : SchemaApplication) (conditions : List Expression) (id : PatchID)
  (expression : Expression)

def AtomKept (a : SourceAtom) : Prop :=
  a = .bool2 → ConditionKept literal valuation conditions id

/-- Every operator of the base modification keeps the bits that the location stores. -/
def BaseKept : Prop :=
  (sourceTerm expression).Keeps (lp64 literal).toMachine isParameter
    (AtomKept literal valuation conditions id) (patchEnv literal valuation conditions id)
    (storedWidth sa)

def OperandsKept : Prop :=
  (sourceTerm expression).OperandsKeep (lp64 literal).toMachine isParameter
    (AtomKept literal valuation conditions id) (patchEnv literal valuation conditions id)
    (storedWidth sa)

/-- Every evaluated part of the base modification has the same low bits in both scopes. -/
def PartsAgree : Prop :=
  (sourceTerm expression).ReadAlike (lp64 literal).toMachine isParameter
    (patchEnv literal valuation conditions id) (runEnv literal valuation conditions id)
    (storedWidth sa)

/-- The declared type of the location stores the number of the patch unchanged. -/
def StoredUnchanged (number : CInt) : Prop :=
  if LP64.storage (outputType sa) = none then
    (sourceTerm expression).isWide isParameter = true → 0 ≤ number.value
  else (LP64.store (outputType sa) number).value = number.value

/--
The parameter of a patch is kept: its condition is defined, every operator
keeps what counts of it, and the location can store the number.
-/
structure ParameterKept (number : CInt) : Prop where
  defined : id.bool2 = 0 ∨ conditionResult (lp64 literal) valuation (.wrap .int id.param)
    conditions id.bool2 ≠ none
  kept : BaseKept literal valuation sa conditions id expression
  stored : StoredUnchanged sa expression number

end Kept

/-! ### The location -/

theorem storage_cases {rawType : String} {type : IntType} {width : Nat} {signed : Bool}
    (h : LP64.storage rawType = some (type, width, signed)) :
    1 ≤ width ∧ (width ≤ 32 ∨ width = 64) ∧ width ≤ type.width := by
  revert h
  unfold LP64.storage
  repeat' split
  all_goals
    intro h
    first
    | cases h
      decide
    | cases h

private theorem store_modEq {rawType : String} {type : IntType} {width : Nat} {signed : Bool}
    (h : LP64.storage rawType = some (type, width, signed)) (number : CInt) :
    (LP64.store rawType number).value ≡ number.value [ZMOD 2 ^ width] := by
  have hwidth := (storage_cases h).2.2
  have hwrap : ∀ value, type.wrap value ≡ value [ZMOD 2 ^ width] := fun value =>
    (type.size_eq ▸ type.wrap_modEq value).of_dvd (pow_dvd_pow 2 hwidth)
  cases signed with
  | true =>
      rw [LP64.store, h]
      refine (hwrap _).trans ?_
      have hmod : number.value.bmod (2 ^ width) % ((2 ^ width : Nat) : Int) =
          number.value % ((2 ^ width : Nat) : Int) := Int.bmod_emod
      rwa [Nat.cast_pow] at hmod
  | false =>
      rw [LP64.store, h]
      exact (hwrap _).trans (Int.mod_modEq _ _)

theorem store_congr {rawType : String} {type : IntType} {width : Nat} {signed : Bool}
    (h : LP64.storage rawType = some (type, width, signed)) {first second : CInt}
    (hmod : first.value ≡ second.value [ZMOD 2 ^ width]) :
    LP64.store rawType first = LP64.store rawType second := by
  have hvalue := hmod.eq
  cases signed with
  | true =>
      have hbmod : first.value.bmod (2 ^ width) = second.value.bmod (2 ^ width) := by
        rw [← Int.emod_bmod first.value, ← Int.emod_bmod second.value, Nat.cast_pow]
        exact congrArg (Int.bmod · _) hvalue
      rw [LP64.store, LP64.store, h]
      simp only [hbmod]
  | false =>
      rw [LP64.store, LP64.store, h]
      simp only [hvalue]

theorem storedWidth_cases (sa : SchemaApplication) :
    (storedWidth sa ≤ 32 ∨ storedWidth sa = 64) ∧ 1 ≤ storedWidth sa := by
  unfold storedWidth
  cases hstorage : LP64.storage (outputType sa) with
  | none => exact ⟨.inr rfl, by decide⟩
  | some storage =>
      obtain ⟨hpos, hwidth, -⟩ := storage_cases hstorage
      exact ⟨hwidth, hpos⟩

/-! ### A patch and its run -/

theorem chosenCondition_comparison {components conditions : List Expression}
    (hconditions : bool2Expressions components = .ok conditions) {bool2 : Nat}
    {op : Operator} {left right : Expression}
    (hchosen : chosenCondition conditions bool2 = some (applyBoolOperator op left right)) :
    op ∈ [Operator.eq, .neq, .lt, .le, .gt, .ge] := by
  cases bool2 with
  | zero => cases hchosen
  | succ i =>
      have hmem : applyBoolOperator op left right ∈ conditions := List.mem_of_getElem? hchosen
      obtain ⟨op', _, _, heq, hop⟩ := (bool2Expressions_atomic hconditions _ hmem).comparison
      cases heq
      exact hop

section Patch

variable {sa : SchemaApplication} (hfree : sa.AbstractFree) (hscoped : sa.Scoped)
  {conditions : List Expression} (hconditions : bool2Expressions sa.components = .ok conditions)
  {id : PatchID} (hparam : id.param < 2147483648)

theorem chosen_of_conditionResult {parameter : CInt} {bool2 : Nat}
    (h : conditionResult (lp64 literal) valuation parameter conditions bool2 ≠ none) :
    ∃ condition, chosenCondition conditions bool2 = some condition := by
  cases hchosen : chosenCondition conditions bool2 with
  | none => exact absurd (by rw [conditionResult, hchosen]) h
  | some condition => exact ⟨condition, rfl⟩

theorem ne_none_of_map {result : Result CInt} {number : CInt}
    (h : result.map Prod.fst = some number) : result ≠ none := by
  rintro rfl
  cases h

theorem conditionKept_iff {condition : Expression}
    (hchosen : chosenCondition conditions id.bool2 = some condition) :
    ConditionKept literal valuation conditions id ↔
      (sourceTerm condition).Keeps (lp64 literal).toMachine isParameter (fun _ => True)
        (valuation.env (lp64 literal) (some (.wrap .int id.param, false)) none) 64 := by
  refine ⟨fun h => h condition hchosen, fun h condition' hchosen' => ?_⟩
  cases hchosen.symm.trans hchosen'
  exact h

variable (literal) in
include hfree hscoped hconditions in
private theorem conditionResult_defined (id : PatchID) (parameter parameter' : CInt)
    (h : conditionResult (lp64 literal) valuation parameter conditions id.bool2 ≠ none) :
    conditionResult (lp64 literal) valuation parameter' conditions id.bool2 ≠ none := by
  obtain ⟨condition, hchosen⟩ := chosen_of_conditionResult valuation h
  have hcompares := compares_of_chosen hfree hscoped hconditions hchosen
  rw [conditionResult_eq valuation parameter hchosen hcompares, Result.quiet, Ne,
    Option.map_eq_none_iff] at h
  rw [conditionResult_eq valuation parameter' hchosen hcompares, Result.quiet, Ne,
    Option.map_eq_none_iff]
  exact hcompares.defined valuation parameter parameter' h

variable (literal) in
include hfree hscoped hconditions hparam in
theorem patchAtoms :
    Term.AtomsAlike (lp64 literal).toMachine isParameter
      (AtomKept literal valuation conditions id) (patchEnv literal valuation conditions id)
      (runEnv literal valuation conditions id) := by
  refine atomsAlike valuation hparam (fun a hne h => absurd h hne) ?_ ?_
  · intro number hnumber
    obtain ⟨condition, hchosen⟩ := chosen_of_conditionResult valuation (ne_none_of_map hnumber)
    have hcompares := compares_of_chosen hfree hscoped hconditions hchosen
    rw [conditionResult_eq valuation _ hchosen hcompares, Result.map_fst_quiet] at hnumber ⊢
    rw [hcompares.value_iff valuation hparam hnumber, AtomKept, forall_prop_of_true rfl,
      conditionKept_iff valuation hchosen]
  · intro w hpos number other hnumber hother hmod
    obtain ⟨condition, hchosen⟩ := chosen_of_conditionResult valuation (ne_none_of_map hnumber)
    have hcompares := compares_of_chosen hfree hscoped hconditions hchosen
    rw [conditionResult_eq valuation _ hchosen hcompares, Result.map_fst_quiet] at hnumber hother
    exact hcompares.value_of_modEq valuation hparam hpos hnumber hother hmod

include hfree hscoped hconditions in
private theorem conditionResult_quiet (parameter : CInt) :
    conditionResult (lp64 literal) valuation parameter conditions id.bool2 =
      .quiet ((conditionResult (lp64 literal) valuation parameter conditions id.bool2).map
        Prod.fst) := by
  cases hchosen : chosenCondition conditions id.bool2 with
  | none =>
      rw [conditionResult, hchosen]
      rfl
  | some condition =>
      have hcompares := compares_of_chosen hfree hscoped hconditions hchosen
      rw [conditionResult_eq valuation parameter hchosen hcompares, Result.map_fst_quiet]

include hfree hscoped hconditions in
theorem instanceResult_eq {expression : Expression} (hscope : InScope sa expression)
    (parameter : CInt) :
    instanceResult (lp64 literal) valuation parameter conditions id.bool2 expression =
      .quiet ((sourceTerm expression).value (lp64 literal).toMachine
        (valuation.env (lp64 literal) (some (parameter, false))
          (conditionResult (lp64 literal) valuation parameter conditions id.bool2))) :=
  Term.eval_plain (env_quiet valuation (lp64 literal) rfl
    (conditionResult_quiet valuation hfree hscoped hconditions parameter)) hscope.sourceTerm_plain

include hfree hscoped hconditions hparam in
/-- For `c op k` only the order of a negative number changes. -/
theorem conditionKept_comparison {op : Operator} {left : Expression}
    (hleft : left ∈ sa.components) (hop : op ∈ [Operator.eq, .neq, .lt, .le, .gt, .ge])
    (hchosen : chosenCondition conditions id.bool2 =
      some (applyBoolOperator op left parameterNode)) {operand : CInt}
    (hoperand : evaluate (lp64 literal) valuation left = some (operand, false)) :
    ConditionKept literal valuation conditions id ↔
      0 ≤ operand.value ∨ op = .eq ∨ op = .neq := by
  obtain ⟨binary, hcomparison, heq, hne, hterm⟩ := comparison_term hop left parameterNode
  have hcompares := compares_of_chosen hfree hscoped hconditions hchosen
  have hundecided : LP64.decided binary operand = none := by
    cases binary <;> first | rfl | cases hcomparison
  have hvalue : ∀ parameter : CInt,
      (sourceTerm (applyBoolOperator op left parameterNode)).value (lp64 literal).toMachine
          (valuation.env (lp64 literal) (some (parameter, false)) none) =
        LP64.binary binary operand parameter := by
    intro parameter
    have hread : (sourceTerm left).value (lp64 literal).toMachine
        (valuation.env (lp64 literal) (some (parameter, false)) none) = some operand := by
      rw [Term.value, Term.eval_congr _ _ fun a ha => env_other valuation
        ((hscoped.components left hleft).reads_abstract (hfree.components left hleft) ha).1
        ((hscoped.components left hleft).reads_abstract (hfree.components left hleft) ha).2
        _ none _ none]
      exact congrArg (·.map Prod.fst) hoperand
    rw [hterm, Term.value_of_not_decided _ hread hundecided]
    exact Option.bind_some ..
  rw [conditionKept_iff valuation hchosen, ← heq, ← hne,
    ← compare_agree hcomparison operand hparam, ← hvalue, ← hvalue]
  obtain ⟨result, hresult⟩ : ∃ result, LP64.binary binary operand (.wrap .int id.param) =
      some result := ⟨_, LP64.binary_comparison hcomparison _ _⟩
  rw [hvalue (.wrap .int id.param), hresult]
  exact (hcompares.value_iff valuation hparam ((hvalue _).trans hresult)).symm

variable {expression : Expression} (hscope : InScope sa expression)

include hfree hscoped hconditions hparam hscope in
private theorem stored_iff {number : CInt}
    (hvalue : (sourceTerm expression).value (lp64 literal).toMachine
      (patchEnv literal valuation conditions id) = some number)
    (hoperands : OperandsKept literal valuation sa conditions id expression) :
    (∃ other, (sourceTerm expression).value (lp64 literal).toMachine
        (runEnv literal valuation conditions id) = some other ∧
        (LP64.store (outputType sa) other).value = number.value) ↔
      BaseKept literal valuation sa conditions id expression ∧
        StoredUnchanged sa expression number := by
  have hatoms := patchAtoms literal valuation hfree hscoped hconditions hparam
  obtain ⟨hw, hpos⟩ := storedWidth_cases sa
  have hkept := Term.alikeAt_iff hatoms hscope.sourceTerm_plain hw hvalue hoperands
  rw [BaseKept, ← hkept]
  unfold StoredUnchanged
  cases hstorage : LP64.storage (outputType sa) with
  | none =>
      have hstore : ∀ other, LP64.store (outputType sa) other = other := fun other => by
        rw [LP64.store, hstorage]
      have hwidth : storedWidth sa = 64 := by rw [storedWidth, hstorage]
      rw [hwidth] at hw hpos ⊢
      simp only [hstore, if_true]
      constructor
      · rintro ⟨other, hother, hnumber⟩
        have halike := Term.alikeAt_of_modEq hatoms hscope.sourceTerm_plain hw hpos hvalue hother
          (congrArg (· % 2 ^ 64) hnumber) (hwidth ▸ hoperands)
        refine ⟨halike, fun hwide => ?_⟩
        obtain ⟨_, _, -, hother', halike⟩ := halike
        cases hother.symm.trans hother'
        rw [hwide] at halike
        exact hnumber ▸ (CInt.bounds_of_isLongest halike.1).1
      · rintro ⟨⟨number', other, hvalue', hother, halike⟩, hsign⟩
        cases hvalue.symm.trans hvalue'
        refine ⟨other, hother, ?_⟩
        cases hwide : (sourceTerm expression).isWide isParameter with
        | true => exact halike.value_of_nonneg (hsign hwide)
        | false =>
            rw [hwide] at halike
            obtain rfl : other = number := halike
            rfl
  | some storage =>
      obtain ⟨type, width, signed⟩ := storage
      have hwidth : storedWidth sa = width := by rw [storedWidth, hstorage]
      rw [hwidth] at hw hpos ⊢
      simp only [reduceCtorEq, if_false]
      constructor
      · rintro ⟨other, hother, hnumber⟩
        have hmod : other.value ≡ number.value [ZMOD 2 ^ width] :=
          hnumber ▸ (store_modEq hstorage other).symm
        refine ⟨Term.alikeAt_of_modEq hatoms hscope.sourceTerm_plain hw hpos hvalue hother hmod
          (hwidth ▸ hoperands), ?_⟩
        rw [← store_congr hstorage hmod, hnumber]
      · rintro ⟨⟨number', other, hvalue', hother, halike⟩, hnumber⟩
        cases hvalue.symm.trans hvalue'
        refine ⟨other, hother, ?_⟩
        rw [store_congr hstorage halike.modEq, hnumber]

end Patch

include hliteral in
/--
The generated function computes the number of a patch where the parameter is
kept; once the operands of the outermost operator are, only there.
-/
theorem candidateDispatch_parameter_iff {cfg : Config} {sa : SchemaApplication}
    (hfree : sa.AbstractFree) (hscoped : sa.Scoped) {conditions : List Expression}
    {modifications : List Modification}
    (hconditions : bool2Expressions sa.components = .ok conditions)
    (hmodifications : baseModifications sa.schema sa.original sa.components =
      .ok modifications)
    {fuel baseId next : Nat} {ss patches : List Patch} {code : DispatchCode}
    (h : candidateDispatch cfg fuel sa baseId ss = .ok (code, next, ss ++ patches))
    {patch : Patch} (hpatch : patch ∈ patches) (locals : Locals CInt) {number : CInt}
    (hnumber : evaluate (lp64 literal) valuation patch.modified = some (number, false)) :
    ∃ m, modifications[patch.id.base - baseId]? = some m ∧
      (ParameterKept literal valuation sa conditions patch.id m.1 number →
        Computes literal valuation sa code patch.id locals number) ∧
      (OperandsKept literal valuation sa conditions patch.id m.1 →
        (Computes literal valuation sa code patch.id locals number ↔
          ParameterKept literal valuation sa conditions patch.id m.1 number)) ∧
      (PartsAgree literal valuation sa conditions patch.id m.1 ↔
        BaseKept literal valuation sa conditions patch.id m.1) ∧
      ∀ op, ∀ left ∈ sa.components, ∀ operand,
        chosenCondition conditions patch.id.bool2 =
            some (applyBoolOperator op left parameterNode) →
        evaluate (lp64 literal) valuation left = some (operand, false) →
          (ConditionKept literal valuation conditions patch.id ↔
            0 ≤ operand.value ∨ op = .eq ∨ op = .neq) := by
  obtain ⟨names, m, hnaming, hm, hdecodes, hruns⟩ :=
    candidateDispatch_runs hfree hscoped hconditions hmodifications h hpatch
  have hparam : patch.id.param < 2147483648 := by
    have hbound := cfg.paramBound_lt sa.context
    have hle := hdecodes.param_le
    omega
  have hzero : literal "int" "0" = .ofBool false := hliteral 0 (by decide)
  have hscope := baseModifications_inScope hscoped hmodifications m (List.mem_of_getElem? hm)
  have hvalue := hdecodes.evaluate_patch hfree hscoped hconditions hmodifications
    (lp64 literal) valuation hm
  rw [hnumber, show (lp64 literal).literal = literal from rfl, hliteral _ hparam,
    instanceResult_eq valuation hfree hscoped hconditions hscope] at hvalue
  have hpatchValue : (sourceTerm m.1).value (lp64 literal).toMachine
      (patchEnv literal valuation conditions patch.id) = some number :=
    Result.quiet_eq_some.mp hvalue.symm
  have hexact : OperandsKept literal valuation sa conditions patch.id m.1 →
      (Computes literal valuation sa code patch.id locals number ↔
        ParameterKept literal valuation sa conditions patch.id m.1 number) := by
    intro hoperands
    have hstored := stored_iff valuation hfree hscoped hconditions hparam hscope hpatchValue
      hoperands
    rw [computes_iff valuation hzero hscoped hnaming hruns locals number]
    simp only [instanceResult_eq valuation hfree hscoped hconditions hscope,
      Result.quiet_eq_some]
    have hdefined := conditionResult_defined literal valuation hfree hscoped hconditions patch.id
    refine (and_congr (or_congr_right ⟨hdefined _ (.wrap .int patch.id.param),
      hdefined _ _⟩) hstored).trans ?_
    exact ⟨fun h => ⟨h.1, h.2.1, h.2.2⟩, fun h => ⟨h.defined, h.kept, h.stored⟩⟩
  refine ⟨m, hm, fun hkept => (hexact hkept.kept.operands).mpr hkept, hexact,
    Term.readAlike_iff (patchAtoms literal valuation hfree hscoped hconditions hparam)
      hscope.sourceTerm_plain (storedWidth_cases sa).1 hpatchValue, ?_⟩
  intro op left hleft operand hchosen hoperand
  exact conditionKept_comparison valuation hfree hscoped hconditions hparam hleft
    (chosenCondition_comparison hconditions hchosen) hchosen hoperand

end Types

/-! ## A negative operand -/

def decimalInt (_ text : String) : CInt := .wrap .int (Nat.ofDigitChars 10 text.toList 0)

private theorem decimalInt_toString (n : Nat) (_ : n < 2147483648) :
    decimalInt "int" (toString n) = .wrap .int n := by
  simp [decimalInt, toString, Nat.toList_repr]

/-- A guard `1` for an `if` in the scope of an integer `x`. -/
def signTest : SchemaApplication where
  id := 1
  schema := .ifGuard
  location := ⟨0, 1, 1, 1, 1⟩
  context := .condition
  original := trueNode
  components := [⟨.variable, .integer, .none, "int", "x", []⟩]
  completePointeeTypes := []

private theorem signTest_abstractFree : signTest.AbstractFree :=
  ⟨rfl, by simp [signTest, Expression.AbstractFree, isAbstractExpression,
    anyAbstractExpression, isAbstractNode]⟩

private theorem signTest_scoped : signTest.Scoped where
  original := .constant _ _ _
  components := by
    simp only [signTest, List.forall_mem_cons, List.not_mem_nil, false_imp_iff,
      implies_true, and_true]
    exact .named _ _ (by simp)
  builtin := by simp [signTest, builtinTypes]
  pointees := by simp [signTest]

def minusOne : Valuation CInt where
  value _ := .wrap .int (-1)
  isNull _ := false
  sizeof _ := .wrap .unsignedLong 4

def startLocals : Locals CInt := ⟨.ofBool false, .ofBool false, .ofBool false, false⟩

theorem signTest_dispatch :
    ∃ code next patches, candidateDispatch .default 14 signTest 1 [] =
        .ok (code, next, [] ++ patches) ∧
      ∃ patch ∈ patches, patch.id = ⟨2, 0, 3, 0, 0⟩ ∧
        evaluate (lp64 decimalInt) minusOne patch.modified = some (.ofBool true, false) ∧
        (code.run (lp64 decimalInt) minusOne signTest patch.id startLocals).map
          (·.baseValue.value) = some 0 := by
  have hcheck : (candidateDispatch .default 14 signTest 1 []).toOption.any (fun result =>
      result.2.2.any fun patch => patch.id = ⟨2, 0, 3, 0, 0⟩ &&
        evaluate (lp64 decimalInt) minusOne patch.modified = some (.ofBool true, false) &&
        (result.1.run (lp64 decimalInt) minusOne signTest patch.id startLocals).map
          (·.baseValue.value) = some 0) = true := by
    decide +kernel
  obtain ⟨⟨code, next, patches⟩, hresult, hfound⟩ := eq_ok_of_any hcheck
  obtain ⟨patch, hpatch, hfound⟩ := List.any_eq_true.mp hfound
  simp only [Bool.and_eq_true, decide_eq_true_eq] at hfound
  exact ⟨code, next, patches, hresult, patch, hpatch, hfound.1.1, hfound.1.2, hfound.2⟩

/-- For `x = -1` the patch `x < 0` is 1, but the generated function computes 0. -/
theorem signTest_order :
    ∃ code next patches, candidateDispatch .default 14 signTest 1 [] =
        .ok (code, next, [] ++ patches) ∧
      ∃ patch ∈ patches, patch.id = ⟨2, 0, 3, 0, 0⟩ ∧
        evaluate (lp64 decimalInt) minusOne patch.modified = some (.ofBool true, false) ∧
        ¬Computes decimalInt minusOne signTest code patch.id startLocals (.ofBool true) := by
  obtain ⟨code, next, patches, h, patch, hpatch, hid, hvalue, hrun⟩ := signTest_dispatch
  refine ⟨code, next, patches, h, patch, hpatch, hid, hvalue, ?_⟩
  rintro ⟨final, hfinal, -, hnumber⟩
  rw [show code.run (lp64 decimalInt) minusOne signTest patch.id startLocals = some final
    from hfinal] at hrun
  cases hrun.symm.trans (congrArg some hnumber)

theorem candidateDispatch_parameter_iff_signTest :
    ∃ conditions modifications code, ∃ patch : Patch,
      bool2Expressions signTest.components = .ok conditions ∧
      baseModifications signTest.schema signTest.original signTest.components =
        .ok modifications ∧
      patch.id = ⟨2, 0, 3, 0, 0⟩ ∧
      (Computes decimalInt minusOne signTest code patch.id startLocals (.ofBool true) ↔
        ParameterKept decimalInt minusOne signTest conditions patch.id bool2Node
          (.ofBool true)) := by
  obtain ⟨code, next, patches, h, patch, hpatch, hid, hvalue, -⟩ := signTest_dispatch
  obtain ⟨m, hm, -, hexact, -⟩ := candidateDispatch_parameter_iff decimalInt_toString minusOne
    signTest_abstractFree signTest_scoped rfl rfl h hpatch startLocals hvalue
  rw [hid] at hm
  cases hm
  exact ⟨_, _, code, patch, rfl, rfl, hid, hexact trivial⟩

end F1X.generator
