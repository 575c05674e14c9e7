import F1X.Library.Traps
import F1X.Semantics.RuntimeText

/-!
# Traps of the generated code

The runtime evaluates every candidate of a location inside the run of one of
them.  The test of a divisor keeps the emitted code from dividing by zero; it
still divides the least value of a type by -1, which traps as well.
-/

namespace F1X.generator

open F1X.Library F1X.synthesis

/-! ## Numbers of expressions -/

def panicNumber (pointer : Bool) : CInt :=
  if pointer then .wrap .unsignedLong 0 else .ofBool false

def unaryNumber (op : Operator) (number : CInt) : CInt :=
  match UnaryOp.ofText (operatorText op) with
  | some unary => Wrapping.unary unary number
  | none => number

/-- A division by zero has the value 0 of its type. -/
def binaryNumber (op : Operator) (number other : CInt) : CInt :=
  match BinaryOp.ofText (operatorText op) with
  | some binary =>
      if (op = .div ∨ op = .mod) ∧ other.value = 0 then
        .wrap (IntType.common number.type other.type) 0
      else (LP64.decided binary number).getD (Wrapping.binary binary number other)
  | none => number

/-- Addresses are numbers of type `unsigned long`. -/
def shiftNumber (op : Operator) (pointer size offset : CInt) : CInt :=
  Wrapping.unary (.cast .pointer)
    (binaryNumber op (CInt.convert .unsignedLong pointer) (Wrapping.binary .mul size offset))

def leftDecides (op : Operator) (number : CInt) : Prop :=
  (op = .and ∧ number.value = 0) ∨ (op = .or ∧ number.value ≠ 0)

instance (op : Operator) (number : CInt) : Decidable (leftDecides op number) :=
  inferInstanceAs (Decidable (_ ∨ _))

namespace Naming

variable (names : Naming) (memory : String → CInt)

def leafNumber (kind : NodeKind) (type : ExprType) (repr : String) : CInt :=
  match kind with
  | .variable => memory (names.runtimeReprBySource repr)
  | .dereference =>
      let name := names.runtimeReprBySource repr
      let null := panicNumber (type = .pointer)
      CInt.convert (IntType.common null.type (memory name).type)
        (if (memory (names.nullDerefByName name)).value ≠ 0 then null else memory name)
  | _ => memory repr

/-- The number of an expression whose divisions do not trap. -/
def number : Expression → CInt
  | ⟨kind, type, op, _, repr, args⟩ =>
      match args with
      | [arg] => unaryNumber op (number arg)
      | [left, right] =>
          if op = .ptrAdd ∨ op = .ptrSub then
            shiftNumber op (number left) (memory (names.sizeByType left.rawType))
              (number right)
          else binaryNumber op (number left) (number right)
      | _ => names.leafNumber memory kind type repr
termination_by structural expression => expression

/-- No division that is reached has the least value of its type divided by -1. -/
def QuotientsFit : Expression → Prop
  | ⟨_, _, op, _, _, args⟩ =>
      match args with
      | [arg] => QuotientsFit arg
      | [left, right] =>
          if op = .div ∨ op = .mod then
            QuotientsFit right ∧ ((names.number memory right).value ≠ 0 →
              QuotientsFit left ∧
                ¬Wrapping.Overflows (names.number memory left) (names.number memory right))
          else QuotientsFit left ∧
            (¬leftDecides op (names.number memory left) → QuotientsFit right)
      | _ => True
termination_by structural expression => expression

/-! ## The emitted expression -/

variable {names memory}

theorem executes_panic (pointer : Bool) :
    Executes memory (panicTree pointer) (panicNumber pointer) True := by
  have htrue : Executes memory (.name "true") (.ofBool true) True :=
    ⟨rfl, fun _ => congrArg some (by decide), fun h => absurd trivial h⟩
  cases pointer with
  | false => exact htrue.assign (.zero memory)
  | true => exact htrue.assign ((Executes.zero memory).unary (.cast .pointer))

private theorem runtimeExpr_executes_leaf (kind : NodeKind) (type : ExprType)
    (rawType repr : String) {expr : RuntimeExpr}
    (hexpr : names.runtimeExpr ⟨kind, type, .none, rawType, repr, []⟩ = .ok expr) :
    Executes memory expr.tree (names.leafNumber memory kind type repr) True := by
  cases kind with
  | dereference =>
      cases hexpr
      have hload := (Executes.operand memory
        (names.nullDerefByName (names.runtimeReprBySource repr))).conditional
        (executes_panic (type = .pointer))
        (.operand memory (names.runtimeReprBySource repr))
      exact hload.iff (by simp)
  | _ =>
      cases hexpr
      exact .operand memory _

private theorem unaryTree_executes {op : Operator} (hop : isUnaryOperator op = true) {arg : CTree}
    {number : CInt} {safe : Prop} (harg : Executes memory arg number safe) :
    Executes memory (unaryTree (operatorText op) arg) (unaryNumber op number) safe := by
  obtain ⟨unary, hofText⟩ := unaryOp_ofText hop
  rw [unaryTree, unaryNumber, hofText]
  simp only [UnaryOp.tree]
  split
  · rename_i hplain
    subst hplain
    exact harg
  · exact harg.unary unary

private theorem decided_eq_none_iff {op : Operator} {binary : BinaryOp}
    (hbinary : BinaryOp.ofText (operatorText op) = some binary) (number : CInt) :
    LP64.decided binary number = none ↔ ¬leftDecides op number := by
  cases op <;> cases hbinary <;> simp [LP64.decided, leftDecides]

theorem binaryTree_executes {op : Operator} (hop : isBinaryOperator op = true)
    (hdivision : ¬(op = .div ∨ op = .mod)) {left right : CTree} {number other : CInt}
    {leftSafe rightSafe : Prop} (hleft : Executes memory left number leftSafe)
    (hright : Executes memory right other rightSafe) :
    Executes memory (binaryTree left (operatorText op) right) (binaryNumber op number other)
      (leftSafe ∧ (¬leftDecides op number → rightSafe)) := by
  obtain ⟨binary, hofText, hbinary⟩ := binaryOp_ofText hop
  rw [binaryTree, binaryNumber, hofText]
  simp only [hdivision, false_and, if_false]
  rw [← decided_eq_none_iff hofText]
  exact hleft.total _ (mt hbinary.mp hdivision) hright

private theorem divisionTree_executes {op : Operator} (hop : op = .div ∨ op = .mod)
    {left right : CTree} {number other : CInt} {leftSafe rightSafe : Prop}
    (hleft : Executes memory left number leftSafe)
    (hright : Executes memory right other rightSafe) :
    Executes memory
      (.conditional (.binary .ne right (.number "0"))
        (binaryTree left (operatorText op) right) (panicTree false))
      (binaryNumber op number other)
      (rightSafe ∧ (other.value ≠ 0 →
        leftSafe ∧ ¬Wrapping.Overflows number other)) := by
  have hoperator : isBinaryOperator op = true := by rcases hop with rfl | rfl <;> rfl
  obtain ⟨binary, hofText, hbinary⟩ := binaryOp_ofText hoperator
  have hdecided : LP64.decided binary number = none := by
    rcases hbinary.mpr hop with rfl | rfl <;> rfl
  rw [binaryTree, binaryNumber, hofText]
  simp only [hop, true_and, hdecided, Option.getD_none]
  exact hleft.guardedDivision (hbinary.mpr hop) hright (executes_panic false)

private theorem shiftTree_executes {op : Operator} (hop : isPointerArithmetic op)
    {left right : CTree} {pointer offset : CInt} {size : String} {leftSafe rightSafe : Prop}
    (hleft : Executes memory left pointer leftSafe)
    (hright : Executes memory right offset rightSafe) :
    Executes memory
      (.unary (.cast .pointer) (binaryTree (.unary (.cast .unsignedLong) left)
        (operatorText op) (.binary .mul (.operand size) right)))
      (shiftNumber op pointer (memory size) offset)
      (leftSafe ∧ (¬leftDecides op pointer → rightSafe)) := by
  have hoffset := (Executes.operand memory size).total .mul
    (by rintro (h | h) <;> cases h) hright
  have haddress := binaryTree_executes hop.binary (by rcases hop with rfl | rfl <;> simp)
    (hleft.unary (.cast .unsignedLong)) hoffset
  refine (haddress.unary (.cast .pointer)).iff ?_
  rcases hop with rfl | rfl <;> simp [leftDecides, LP64.decided]

/-- The tree that the emitted text is read as, node by node. -/
theorem runtimeExpr_executes {expression : Expression} (h : expression.WellFormed)
    {expr : RuntimeExpr} (hexpr : names.runtimeExpr expression = .ok expr) :
    Executes memory expr.tree (names.number memory expression)
      (names.QuotientsFit memory expression) := by
  induction h generalizing expr with
  | leaf kind type rawType repr => exact runtimeExpr_executes_leaf kind type rawType repr hexpr
  | unary type rawType hop _ ih =>
      obtain ⟨argExpr, hargExpr, rfl⟩ := runtimeExpr_unary hop hexpr
      exact unaryTree_executes hop (ih hargExpr)
  | @binary type op rawType left right hop _ _ ihLeft ihRight =>
      by_cases hpointer : isPointerArithmetic op
      · obtain ⟨leftExpr, rightExpr, hleftExpr, hrightExpr, rfl⟩ :=
          runtimeExpr_shift hpointer hexpr
        have hdivision : ¬(op = .div ∨ op = .mod) := by
          rcases hpointer with rfl | rfl <;> simp
        rw [number, if_pos (show op = .ptrAdd ∨ op = .ptrSub from hpointer), QuotientsFit,
          if_neg hdivision]
        exact shiftTree_executes hpointer (ihLeft hleftExpr) (ihRight hrightExpr)
      · obtain ⟨leftExpr, rightExpr, hleftExpr, hrightExpr, rfl⟩ :=
          runtimeExpr_binary hop hpointer hexpr
        rw [number, if_neg (show ¬(op = .ptrAdd ∨ op = .ptrSub) from hpointer), QuotientsFit]
        by_cases hdivision : op = .div ∨ op = .mod
        · rw [if_pos hdivision, if_pos hdivision]
          exact divisionTree_executes hdivision (ihLeft hleftExpr) (ihRight hrightExpr)
        · rw [if_neg hdivision, if_neg hdivision]
          exact binaryTree_executes hop hdivision (ihLeft hleftExpr) (ihRight hrightExpr)

end Naming

/-! ## The emitted dispatch -/

def DispatchCode.executeBool2 (code : DispatchCode) (id : PatchID)
    (memory : String → CInt) : Option (String → CInt) :=
  match id.bool2 with
  | 0 => some memory
  | i + 1 =>
      match code.bool2Cases[i]? with
      | none => some memory
      | some expr => (expr.tree.execute memory).map fun number =>
          Function.update memory "bool2_value" (.ofBool (number.value ≠ 0))

def DispatchCode.executeBase (code : DispatchCode) (id : PatchID)
    (memory : String → CInt) : Option (String → CInt) :=
  match code.baseCases.lookup id.base with
  | none => some memory
  | some expr => (expr.tree.execute memory).map (Function.update memory "base_value")

/-- The code of an id, executed with any numbers in the variables and arrays that it reads. -/
def DispatchCode.execute (code : DispatchCode) (id : PatchID) (memory : String → CInt) :
    Option (String → CInt) :=
  (code.executeBool2 id
    (Function.update memory "param_value" (.wrap .unsignedLong id.param))).bind
      (code.executeBase id)

/-- The memory in which the base modification is executed. -/
def Naming.conditionMemory (names : Naming) (conditions : List Expression) (id : PatchID)
    (memory : String → CInt) : String → CInt :=
  let withParam := Function.update memory "param_value" (.wrap .unsignedLong id.param)
  match chosenCondition conditions id.bool2 with
  | none => withParam
  | some condition => Function.update withParam "bool2_value"
      (.ofBool ((names.number withParam condition).value ≠ 0))

/-- The quotients of the base modification that an id stands for fit their types. -/
def DivisionsFit (sa : SchemaApplication) (baseId : Nat) (id : PatchID)
    (memory : String → CInt) : Prop :=
  ∀ names conditions modifications, naming sa = .ok names →
    bool2Expressions sa.components = .ok conditions →
    baseModifications sa.schema sa.original sa.components = .ok modifications →
    ∀ j m, id.base = baseId + j → modifications[j]? = some m →
      names.QuotientsFit (names.conditionMemory conditions id memory) m.1

section Execution

variable {names : Naming} {sa : SchemaApplication} {baseId : Nat}
  {conditions : List Expression} {modifications : List Modification} {code : DispatchCode}

private theorem quotientsFit_of_atomic {components : List Expression}
    (hcomponents : ∀ component ∈ components, Component component) {condition : Expression}
    (atomic : Atomic components condition) (memory : String → CInt) :
    names.QuotientsFit memory condition := by
  have hcomponent : ∀ component ∈ components, names.QuotientsFit memory component := by
    intro component hmem
    cases hcomponents component hmem with
    | mk => trivial
  have hcompare : ∀ {left right : Expression} {op : Operator},
      op ∈ [Operator.eq, .neq, .lt, .le, .gt, .ge] → names.QuotientsFit memory left →
      names.QuotientsFit memory right →
      names.QuotientsFit memory (applyBoolOperator op left right) := by
    intro left right op hop hleft hright
    have hdivision : ¬(op = .div ∨ op = .mod) := by
      rintro (rfl | rfl) <;> simp at hop
    rw [applyBoolOperator, Naming.QuotientsFit, if_neg hdivision]
    exact ⟨hleft, fun _ => hright⟩
  cases atomic with
  | null op hleft hop =>
      exact hcompare (by rcases hop with rfl | rfl <;> simp) (hcomponent _ hleft) trivial
  | pointers op hleft hright hop =>
      exact hcompare (by rcases hop with rfl | rfl <;> simp) (hcomponent _ hleft)
        (hcomponent _ hright)
  | parameter op hleft hop => exact hcompare hop (hcomponent _ hleft) trivial
  | integers op hleft hright hop =>
      exact hcompare hop (hcomponent _ hleft) (hcomponent _ hright)

private theorem emittedCode_bool2_none
    (h : emittedCode sa baseId conditions modifications = .ok code)
    {i : Nat} (hi : conditions[i]? = none) : code.bool2Cases[i]? = none := by
  obtain ⟨names, -, h⟩ := bind_eq_ok_iff.mp h
  obtain ⟨bool2Cases, hbool2Cases, h⟩ := bind_eq_ok_iff.mp h
  obtain ⟨exprs, -, h⟩ := bind_eq_ok_iff.mp h
  cases h
  have hlength := (mapM_eq_ok_iff.mp hbool2Cases).length_eq
  rw [List.getElem?_eq_none_iff] at hi ⊢
  simpa [← hlength] using hi

private theorem emittedCode_base (h : emittedCode sa baseId conditions modifications = .ok code)
    {base : Nat} {expr : RuntimeExpr} (hexpr : code.baseCases.lookup base = some expr) :
    ∃ j m, base = baseId + j ∧ modifications[j]? = some m := by
  have hkey : base ∈ code.baseCases.map Prod.fst := by
    obtain ⟨before, after, hcases, -⟩ := List.lookup_eq_some_iff.mp hexpr
    rw [hcases]
    simp
  rw [emittedCode_cases h, List.mem_range'_1] at hkey
  exact ⟨base - baseId, _, by omega, List.getElem?_eq_getElem (by omega)⟩

private theorem executeBool2_eq (hcode : emittedCode sa baseId conditions modifications = .ok code)
    (hemitted : Emitted names baseId conditions modifications code)
    (hcomponents : ∀ component ∈ sa.components, Component component)
    (hconditions : bool2Expressions sa.components = .ok conditions) (id : PatchID)
    (memory : String → CInt) :
    code.executeBool2 id
        (Function.update memory "param_value" (.wrap .unsignedLong id.param)) =
      some (names.conditionMemory conditions id memory) := by
  rw [DispatchCode.executeBool2, Naming.conditionMemory]
  cases id.bool2 with
  | zero => rfl
  | succ i =>
      simp only [chosenCondition]
      cases hget : conditions[i]? with
      | none => rw [emittedCode_bool2_none hcode hget]
      | some condition =>
          obtain ⟨expr, hcase, hexpr⟩ := hemitted.bool2Cases i condition hget
          have hatomic := bool2Expressions_atomic hconditions condition
            (List.mem_of_getElem? hget)
          have hwell := hatomic.wellFormed fun component hmem => by
            cases hcomponents component hmem with
            | mk => exact .leaf _ _ _ _
          rw [hcase]
          simp only [(Naming.runtimeExpr_executes hwell hexpr).runs
            (quotientsFit_of_atomic hcomponents hatomic _), Option.map_some]

private theorem executeBase_ne_none_iff
    (hcode : emittedCode sa baseId conditions modifications = .ok code)
    (hemitted : Emitted names baseId conditions modifications code)
    (hwell : ∀ m ∈ modifications, m.1.WellFormed) (id : PatchID) (memory : String → CInt) :
    code.executeBase id memory ≠ none ↔
      ∀ j m, id.base = baseId + j → modifications[j]? = some m →
        names.QuotientsFit memory m.1 := by
  rw [DispatchCode.executeBase]
  cases hlookup : code.baseCases.lookup id.base with
  | none =>
      simp only [ne_eq, reduceCtorEq, not_false_eq_true, true_iff]
      intro j m hbase hm
      obtain ⟨expr, hcase, -⟩ := hemitted.baseCases j m hm
      rw [← hbase, hlookup] at hcase
      cases hcase
  | some expr =>
      obtain ⟨j, m, hbase, hm⟩ := emittedCode_base hcode hlookup
      obtain ⟨other, hcase, hexpr⟩ := hemitted.baseCases j m hm
      rw [← hbase, hlookup] at hcase
      cases hcase
      have hexecutes : Executes memory expr.tree (names.number memory m.1)
          (names.QuotientsFit memory m.1) :=
        Naming.runtimeExpr_executes (hwell m (List.mem_of_getElem? hm)) hexpr
      rw [ne_eq, Option.map_eq_none_iff, ← ne_eq, hexecutes.execute_ne_none]
      constructor
      · intro hfit j' m' hbase' hm'
        obtain rfl : j' = j := by omega
        cases hm.symm.trans hm'
        exact hfit
      · intro hfit
        exact hfit j m hbase hm

end Execution

/--
The code that is emitted for an id traps if and only if its base modification
reaches a division of the least value of its type by -1.
-/
theorem candidateDispatch_traps_iff {cfg : Config} {fuel baseId next : Nat}
    {sa : SchemaApplication} (hfree : sa.AbstractFree) (hwell : sa.WellFormed)
    (hcomponents : ∀ component ∈ sa.components, Component component) {ss patches : List Patch}
    {code : DispatchCode}
    (h : candidateDispatch cfg fuel sa baseId ss = .ok (code, next, patches)) (id : PatchID)
    (memory : String → CInt) :
    code.execute id memory ≠ none ↔ DivisionsFit sa baseId id memory := by
  obtain ⟨conditions, modifications, hconditions, hmodifications, hcode, -⟩ :=
    candidateDispatch_inv hfree h
  obtain ⟨names, hnames, hemitted⟩ := emittedCode_emitted hcode
  rw [DispatchCode.execute, executeBool2_eq hcode hemitted hcomponents hconditions,
    Option.bind_some, executeBase_ne_none_iff hcode hemitted
      (baseModifications_wellFormed hwell.original hwell.components hmodifications)]
  constructor
  · intro hfit names' conditions' modifications' hnames' hconditions' hmodifications'
    cases hnames.symm.trans hnames'
    cases hconditions.symm.trans hconditions'
    cases hmodifications.symm.trans hmodifications'
    exact hfit
  · intro hfit
    exact hfit names conditions modifications hnames hconditions hmodifications

/-! ## The least number by -1 -/

/-- `x / 2` with `x` and `y` in scope. -/
def halved : SchemaApplication where
  id := 1
  schema := .expression
  location := ⟨0, 8, 9, 8, 14⟩
  context := .unknown
  original := ⟨.operator, .integer, .div, "int", "/",
    [⟨.variable, .integer, .none, "int", "x", []⟩,
      ⟨.constant, .integer, .none, "int", "2", []⟩]⟩
  components := [⟨.variable, .integer, .none, "int", "x", []⟩,
    ⟨.variable, .integer, .none, "int", "y", []⟩]
  completePointeeTypes := []

private theorem halved_abstractFree : halved.AbstractFree :=
  ⟨rfl, by simp [halved, Expression.AbstractFree, isAbstractExpression,
    anyAbstractExpression, isAbstractNode]⟩

private theorem halved_wellFormed : halved.WellFormed where
  original := .binary _ _ rfl (.leaf _ _ _ _) (.leaf _ _ _ _)
  components := by
    simp only [halved, List.forall_mem_cons, List.not_mem_nil, false_imp_iff,
      implies_true, and_true]
    exact ⟨.leaf _ _ _ _, .leaf _ _ _ _⟩

private theorem halved_components : ∀ component ∈ halved.components, Component component := by
  simp only [halved, List.forall_mem_cons, List.not_mem_nil, false_imp_iff, implies_true,
    and_true]
  exact ⟨.mk (by decide) (.inl rfl) _ _, .mk (by decide) (.inl rfl) _ _⟩

/-- `x` is the least number of its type, `y` is -1. -/
def extremes (text : String) : CInt :=
  if text = "__int_vals[0]" then .wrap .int IntType.int.least
  else if text = "__int_vals[1]" then .wrap .int (-1)
  else .wrap .int (Nat.ofDigitChars 10 text.toList 0)

theorem halved_dispatch :
    ∃ code next patches, candidateDispatch .default 38 halved 1 [] =
        .ok (code, next, patches) ∧
      ∃ patch ∈ patches, patch.id = ⟨8, 0, 0, 0, 0⟩ ∧
        expressionToString patch.modified = .ok "(x / y)" ∧
        code.execute patch.id extremes = none := by
  have hcheck : (candidateDispatch .default 38 halved 1 []).toOption.any (fun result =>
      result.2.2.any fun patch => patch.id = ⟨8, 0, 0, 0, 0⟩ &&
        ((expressionToString patch.modified).toOption = some "(x / y)" &&
          (result.1.execute patch.id extremes).isNone)) = true := by
    decide +kernel
  obtain ⟨⟨code, next, patches⟩, hresult, hfound⟩ := eq_ok_of_any hcheck
  obtain ⟨patch, hpatch, hfound⟩ := List.any_eq_true.mp hfound
  simp only [Bool.and_eq_true, decide_eq_true_eq, Option.isNone_iff_eq_none,
    toOption_eq_some_iff] at hfound
  exact ⟨code, next, patches, hresult, patch, hpatch, hfound⟩

/-- The candidate `x / y` traps although its divisor is not zero. -/
theorem halved_traps :
    ∃ code next patches, candidateDispatch .default 38 halved 1 [] =
        .ok (code, next, patches) ∧
      ∃ patch ∈ patches, expressionToString patch.modified = .ok "(x / y)" ∧
        code.execute patch.id extremes = none := by
  obtain ⟨code, next, patches, h, patch, hpatch, -, htraps⟩ := halved_dispatch
  exact ⟨code, next, patches, h, patch, hpatch, htraps⟩

theorem candidateDispatch_traps_iff_halved :
    ∃ code next patches, candidateDispatch .default 38 halved 1 [] =
        .ok (code, next, patches) ∧
      (code.execute ⟨8, 0, 0, 0, 0⟩ extremes ≠ none ↔
        DivisionsFit halved 1 ⟨8, 0, 0, 0, 0⟩ extremes) := by
  obtain ⟨code, next, patches, h, -⟩ := halved_dispatch
  exact ⟨code, next, patches, h, candidateDispatch_traps_iff halved_abstractFree
    halved_wellFormed halved_components h ⟨8, 0, 0, 0, 0⟩ extremes⟩

end F1X.generator
