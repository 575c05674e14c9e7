import F1X.Library.WideTerms
import F1X.Semantics.Dispatch

/-!
# The two readings of the parameter

The program reads the parameter of a patch as a constant of type `int`, the
generated function as an `unsigned long`.  Apart from it only the chosen
condition, a comparison of two operands, can differ in the two scopes.
-/

namespace F1X

open F1X.Library F1X.generator

/-! ## Terms of expressions in scope -/

theorem InScope.sourceTerm_plain {sa : SchemaApplication} {expression : Expression}
    (h : InScope sa expression) : (sourceTerm expression).Plain := by
  induction h with
  | constant | named | dereference | parameter | bool2 => trivial
  | unary type rawType hop harg ih =>
      obtain ⟨unary, htext⟩ := unaryOp_ofText hop
      rw [sourceTerm, unaryTerm, htext]
      exact ih
  | @binary type op rawType left right hop hpointer hleft hright ihLeft ihRight =>
      obtain ⟨binary, htext, -⟩ := binaryOp_ofText hop
      have hnot : ¬(op = .ptrAdd ∨ op = .ptrSub) := hpointer
      rw [sourceTerm, if_neg hnot, binaryTerm, htext]
      exact ⟨ihLeft, ihRight⟩
  | @shift type op rawType left right hop htype hsize hleft hright ihLeft ihRight =>
      obtain ⟨binary, htext, -⟩ := binaryOp_ofText hop.binary
      have hpointer : op = .ptrAdd ∨ op = .ptrSub := hop
      rw [sourceTerm, if_pos hpointer, pointerTerm, htext]
      exact ⟨ihLeft, trivial, ihRight⟩

theorem InScope.reads_abstract {sa : SchemaApplication} {expression : Expression}
    (h : InScope sa expression) (hfree : expression.AbstractFree) {a : SourceAtom}
    (hreads : (sourceTerm expression).Reads a) : a ≠ .parameter ∧ a ≠ .bool2 := by
  induction h with
  | constant | named | dereference =>
      obtain rfl : a = _ := hreads
      simp [SourceAtom.ofLeaf]
  | parameter | bool2 => cases (Expression.abstractFree_iff.mp hfree).1
  | unary type rawType hop harg ih =>
      obtain ⟨unary, htext⟩ := unaryOp_ofText hop
      obtain ⟨-, hargs⟩ := Expression.abstractFree_iff.mp hfree
      rw [sourceTerm, unaryTerm, htext] at hreads
      exact ih (hargs _ (by simp)) hreads
  | @binary type op rawType left right hop hpointer hleft hright ihLeft ihRight =>
      obtain ⟨binary, htext, -⟩ := binaryOp_ofText hop
      obtain ⟨-, hargs⟩ := Expression.abstractFree_iff.mp hfree
      have hnot : ¬(op = .ptrAdd ∨ op = .ptrSub) := hpointer
      rw [sourceTerm, if_neg hnot, binaryTerm, htext] at hreads
      rcases hreads with hreads | hreads
      · exact ihLeft (hargs _ (by simp)) hreads
      · exact ihRight (hargs _ (by simp)) hreads
  | @shift type op rawType left right hop htype hsize hleft hright ihLeft ihRight =>
      obtain ⟨binary, htext, -⟩ := binaryOp_ofText hop.binary
      obtain ⟨-, hargs⟩ := Expression.abstractFree_iff.mp hfree
      have hpointer : op = .ptrAdd ∨ op = .ptrSub := hop
      rw [sourceTerm, if_pos hpointer, pointerTerm, htext] at hreads
      rcases hreads with hreads | rfl | hreads
      · exact ihLeft (hargs _ (by simp)) hreads
      · exact ⟨by simp, by simp⟩
      · exact ihRight (hargs _ (by simp)) hreads

end F1X

namespace F1X.generator

open F1X.Library F1X.synthesis

def isParameter (a : SourceAtom) : Bool := a = .parameter

section Scopes

variable {literal : String → String → CInt} (valuation : Valuation CInt)

/-! ## The two scopes -/

theorem env_other {machine : CMachine CInt} {a : SourceAtom} (hparameter : a ≠ .parameter)
    (hbool2 : a ≠ .bool2) (parameter parameter' bool2 bool2' : Result CInt) :
    valuation.env machine parameter bool2 a = valuation.env machine parameter' bool2' a := by
  cases a <;> first | rfl | contradiction

theorem env_quiet (machine : CMachine CInt) {parameter bool2 : Result CInt}
    (hparameter : parameter = .quiet (parameter.map Prod.fst))
    (hbool2 : bool2 = .quiet (bool2.map Prod.fst)) (a : SourceAtom) :
    valuation.env machine parameter bool2 a =
      .quiet ((valuation.env machine parameter bool2 a).map Prod.fst) := by
  cases a <;> try rfl
  · next name =>
      cases hnull : valuation.isNull name <;> simp [Valuation.env, hnull]
  · exact hparameter
  · exact hbool2

theorem param_alike {k : Nat} (hk : k < 2147483648) (w : Nat) :
    Alike w true (.wrap .int k) (.wrap .unsignedLong k) := by
  refine ⟨rfl, ?_⟩
  rw [CInt.wrap_small hk, CInt.wrap_small hk]

/-- The two scopes differ in the type of the parameter and, maybe, in the condition. -/
theorem atomsAlike {k : Nat} (hk : k < 2147483648) {kept : SourceAtom → Prop}
    (hkept : ∀ a, a ≠ .bool2 → kept a) {bool2 bool2' : Result CInt}
    (halike : ∀ number, bool2.map Prod.fst = some number →
      (bool2'.map Prod.fst = some number ↔ kept .bool2))
    (hbits : ∀ w, 1 ≤ w → ∀ number other, bool2.map Prod.fst = some number →
      bool2'.map Prod.fst = some other → other.value ≡ number.value [ZMOD 2 ^ w] →
        other = number) :
    Term.AtomsAlike (lp64 literal).toMachine isParameter kept
      (valuation.env (lp64 literal) (some (.wrap .int k, false)) bool2)
      (valuation.env (lp64 literal) (some (.wrap .unsignedLong k, false)) bool2') where
  alike a w hw number hnumber := by
    by_cases hparameter : a = .parameter
    · subst hparameter
      exact iff_of_true ⟨_, _, rfl, rfl, param_alike hk w⟩ (hkept _ (by simp))
    · by_cases hbool2 : a = .bool2
      · subst hbool2
        rw [← halike number hnumber]
        constructor
        · rintro ⟨_, _, h, h', rfl⟩
          exact h'.trans (h.symm.trans hnumber)
        · exact fun h => ⟨_, _, hnumber, h, rfl⟩
      · refine iff_of_true ⟨number, number, hnumber, ?_, ?_⟩ (hkept _ hbool2)
        · rwa [Term.value_atom, env_other valuation hparameter hbool2 _
            (some (.wrap .int k, false)) _ bool2]
        · simp [Term.isWide, isParameter, hparameter, Alike]
  bits a w hpos number other hnumber hother hmod := by
    by_cases hparameter : a = .parameter
    · subst hparameter
      cases hnumber
      cases hother
      exact param_alike hk w
    · have hnarrow : isParameter a = false := by simpa [isParameter] using hparameter
      rw [hnarrow]
      by_cases hbool2 : a = .bool2
      · subst hbool2
        exact hbits w hpos number other hnumber hother hmod
      · rw [Term.value_atom, env_other valuation hparameter hbool2 _
          (some (.wrap .unsignedLong k, false)) _ bool2'] at hnumber
        exact Option.some.inj (hother.symm.trans hnumber)

/-! ## The chosen condition -/

theorem comparison_term {op : Operator} (hop : op ∈ [Operator.eq, .neq, .lt, .le, .gt, .ge])
    (left right : Expression) :
    ∃ binary : BinaryOp, binary.isComparison = true ∧ (binary = .eq ↔ op = .eq) ∧
      (binary = .ne ↔ op = .neq) ∧ sourceTerm (applyBoolOperator op left right) =
        .binary binary (sourceTerm left) (sourceTerm right) := by
  have hpointer : ¬(op = .ptrAdd ∨ op = .ptrSub) := by
    rintro (rfl | rfl) <;> simp at hop
  obtain ⟨binary, htext, hcomparison, heq, hne⟩ : ∃ binary,
      BinaryOp.ofText (operatorText op) = some binary ∧ binary.isComparison = true ∧
        (binary = .eq ↔ op = .eq) ∧ (binary = .ne ↔ op = .neq) := by
    simp only [List.mem_cons, List.not_mem_nil, or_false] at hop
    rcases hop with rfl | rfl | rfl | rfl | rfl | rfl <;>
      exact ⟨_, rfl, rfl, by decide, by decide⟩
  refine ⟨binary, hcomparison, heq, hne, ?_⟩
  rw [applyBoolOperator, sourceTerm, if_neg hpointer, binaryTerm, htext]

section Conditions

variable {sa : SchemaApplication} (hfree : sa.AbstractFree) (hscoped : sa.Scoped)
  {conditions : List Expression} (hconditions : bool2Expressions sa.components = .ok conditions)
  {id : PatchID}

/-- A condition compares a component with the parameter or with what has no parameter. -/
inductive Compares (sa : SchemaApplication) : CTerm SourceAtom → Prop
  | parameter (op : BinaryOp) (left : Expression) (hop : op.isComparison = true)
      (hleft : InScope sa left) (hfree : left.AbstractFree) :
      Compares sa (.binary op (sourceTerm left) (.atom .parameter))
  | other (op : BinaryOp) (left right : Expression) (hop : op.isComparison = true)
      (hleft : InScope sa left) (hfree : left.AbstractFree)
      (hright : InScope sa right) (hfree' : right.AbstractFree) :
      Compares sa (.binary op (sourceTerm left) (sourceTerm right))

include hfree hscoped hconditions in
theorem compares_of_chosen {condition : Expression}
    (hchosen : chosenCondition conditions id.bool2 = some condition) :
    Compares sa (sourceTerm condition) := by
  have hmem : condition ∈ conditions := by
    cases hbool2 : id.bool2 with
    | zero =>
        rw [hbool2] at hchosen
        cases hchosen
    | succ i =>
        rw [hbool2] at hchosen
        exact List.mem_of_getElem? hchosen
  cases bool2Expressions_atomic hconditions condition hmem with
  | @null left op hleft hop =>
      obtain ⟨binary, hcomparison, -, -, hterm⟩ := comparison_term
        (by rcases hop with rfl | rfl <;> simp : op ∈ _) left nullNode
      rw [hterm]
      exact .other binary left nullNode hcomparison (hscoped.components left hleft)
        (hfree.components left hleft) (.constant _ _ _) abstractFree_nullNode
  | @pointers left right op hleft hright hop =>
      obtain ⟨binary, hcomparison, -, -, hterm⟩ := comparison_term
        (by rcases hop with rfl | rfl <;> simp : op ∈ _) left right
      rw [hterm]
      exact .other binary left right hcomparison (hscoped.components left hleft)
        (hfree.components left hleft) (hscoped.components right hright)
        (hfree.components right hright)
  | @parameter left op hleft hop =>
      obtain ⟨binary, hcomparison, -, -, hterm⟩ := comparison_term hop left parameterNode
      rw [hterm]
      exact .parameter binary left hcomparison (hscoped.components left hleft)
        (hfree.components left hleft)
  | @integers left right op hleft hright hop =>
      obtain ⟨binary, hcomparison, -, -, hterm⟩ := comparison_term hop left right
      rw [hterm]
      exact .other binary left right hcomparison (hscoped.components left hleft)
        (hfree.components left hleft) (hscoped.components right hright)
        (hfree.components right hright)

theorem narrow_of_inScope {expression : Expression} (h : InScope sa expression)
    (hfree : expression.AbstractFree) (env : SourceAtom → Result CInt) (w : Nat) :
    (sourceTerm expression).isWide isParameter = false ∧
      (sourceTerm expression).Keeps (lp64 literal).toMachine isParameter (fun _ => True) env w :=
  Term.keeps_of_narrow h.sourceTerm_plain fun a ha =>
    ⟨by simpa [isParameter] using (h.reads_abstract hfree ha).1, trivial⟩

theorem conditionAtoms {k : Nat} (hk : k < 2147483648) :
    Term.AtomsAlike (lp64 literal).toMachine isParameter (fun _ => True)
      (valuation.env (lp64 literal) (some (.wrap .int k, false)) none)
      (valuation.env (lp64 literal) (some (.wrap .unsignedLong k, false)) none) :=
  atomsAlike valuation hk (fun _ _ => trivial) (by simp) (by simp)

namespace Compares

variable {term : CTerm SourceAtom} (hcompares : Compares sa term)

include hcompares

theorem plain : term.Plain := by
  cases hcompares with
  | parameter op left hop hleft => exact ⟨hleft.sourceTerm_plain, trivial⟩
  | other op left right hop hleft _ hright =>
      exact ⟨hleft.sourceTerm_plain, hright.sourceTerm_plain⟩

theorem narrow : term.isWide isParameter = false := by
  cases hcompares with
  | parameter op left hop | other op left right hop =>
      cases op <;> first | rfl | cases hop

theorem operands (env : SourceAtom → Result CInt) (w : Nat) :
    term.OperandsKeep (lp64 literal).toMachine isParameter (fun _ => True) env w := by
  cases hcompares with
  | parameter op left hop hleft hfree =>
      exact ⟨(narrow_of_inScope hleft hfree env _).2, fun _ _ _ => trivial⟩
  | other op left right hop hleft hfree hright hfree' =>
      exact ⟨(narrow_of_inScope hleft hfree env _).2,
        fun _ _ _ => (narrow_of_inScope hright hfree' env _).2⟩

omit hcompares in
theorem value_ne_none {op : BinaryOp} (hop : op.isComparison = true) {left right : CTerm SourceAtom}
    {env : SourceAtom → Result CInt} :
    (Term.binary op left right).value (lp64 literal).toMachine env ≠ none ↔
      left.value (lp64 literal).toMachine env ≠ none ∧
        right.value (lp64 literal).toMachine env ≠ none := by
  cases hleft : left.value (lp64 literal).toMachine env with
  | none => simp [Term.value_binary, hleft]
  | some first =>
      rw [Term.value_of_not_decided right hleft (by cases op <;> first | rfl | cases hop)]
      cases hright : right.value (lp64 literal).toMachine env with
      | none => simp
      | some second => simp [LP64.binary_comparison hop]

theorem defined (parameter parameter' : CInt)
    (h : term.value (lp64 literal).toMachine
      (valuation.env (lp64 literal) (some (parameter, false)) none) ≠ none) :
    term.value (lp64 literal).toMachine
      (valuation.env (lp64 literal) (some (parameter', false)) none) ≠ none := by
  have hread : ∀ expression, InScope sa expression → expression.AbstractFree →
      (sourceTerm expression).value (lp64 literal).toMachine
          (valuation.env (lp64 literal) (some (parameter, false)) none) =
        (sourceTerm expression).value (lp64 literal).toMachine
          (valuation.env (lp64 literal) (some (parameter', false)) none) := by
    intro expression hscope hfree
    rw [Term.value, Term.value, Term.eval_congr _ _ fun a ha =>
      env_other valuation (hscope.reads_abstract hfree ha).1
        (hscope.reads_abstract hfree ha).2 _ (some (parameter', false)) _ none]
  cases hcompares with
  | parameter op left hop hleft hfree =>
      rw [value_ne_none hop] at h ⊢
      exact ⟨hread left hleft hfree ▸ h.1, Option.some_ne_none _⟩
  | other op left right hop hleft hfree hright hfree' =>
      rw [value_ne_none hop] at h ⊢
      exact ⟨hread left hleft hfree ▸ h.1, hread right hright hfree' ▸ h.2⟩

theorem value_iff {k : Nat} (hk : k < 2147483648) {number : CInt}
    (h : term.value (lp64 literal).toMachine
      (valuation.env (lp64 literal) (some (.wrap .int k, false)) none) = some number) :
    term.value (lp64 literal).toMachine
        (valuation.env (lp64 literal) (some (.wrap .unsignedLong k, false)) none) =
          some number ↔
      term.Keeps (lp64 literal).toMachine isParameter (fun _ => True)
        (valuation.env (lp64 literal) (some (.wrap .int k, false)) none) 64 := by
  rw [← Term.alikeAt_iff (conditionAtoms valuation hk) hcompares.plain (.inr rfl) h
    (hcompares.operands _ 64)]
  constructor
  · intro hother
    refine ⟨number, number, h, hother, ?_⟩
    rw [hcompares.narrow]
    exact rfl
  · rintro ⟨_, other, h', hother, halike⟩
    cases h.symm.trans h'
    rw [hcompares.narrow] at halike
    obtain rfl : other = number := halike
    exact hother

theorem value_of_modEq {k : Nat} (hk : k < 2147483648) {w : Nat} (hpos : 1 ≤ w)
    {number other : CInt}
    (h : term.value (lp64 literal).toMachine
      (valuation.env (lp64 literal) (some (.wrap .int k, false)) none) = some number)
    (hother : term.value (lp64 literal).toMachine
      (valuation.env (lp64 literal) (some (.wrap .unsignedLong k, false)) none) = some other)
    (hmod : other.value ≡ number.value [ZMOD 2 ^ w]) : other = number := by
  have hparity := hmod.of_dvd (pow_dvd_pow 2 hpos)
  obtain ⟨_, _, h', h'', halike⟩ := Term.alikeAt_of_modEq (conditionAtoms valuation hk)
    hcompares.plain (.inl (by omega)) (le_refl 1) h hother hparity (hcompares.operands _ 1)
  cases h.symm.trans h'
  cases hother.symm.trans h''
  rw [hcompares.narrow] at halike
  exact halike

end Compares

theorem conditionResult_eq {bool2 : Nat} (parameter : CInt) {condition : Expression}
    (hchosen : chosenCondition conditions bool2 = some condition)
    (hcompares : Compares sa (sourceTerm condition)) :
    conditionResult (lp64 literal) valuation parameter conditions bool2 =
      .quiet ((sourceTerm condition).value (lp64 literal).toMachine
        (valuation.env (lp64 literal) (some (parameter, false)) none)) := by
  rw [conditionResult, hchosen]
  exact Term.eval_plain (env_quiet valuation (lp64 literal) rfl rfl) hcompares.plain

end Conditions

end Scopes

end F1X.generator
