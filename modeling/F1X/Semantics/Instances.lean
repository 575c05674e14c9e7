import F1X.Semantics.Translation
import F1X.Synthesis.SearchSpace

/-!
# Meaning of the instances

Replacing the only node of an abstract kind is reading the replacement where
the node was.  The value of a patch is therefore the value of its base
modification, with the condition and the parameter that its id chooses read at
the abstract nodes.
-/

namespace F1X

open F1X.Library F1X.generator

def isInstantiated (kind : NodeKind) : Prop := kind = .parameter ∨ kind = .bool2

/-! ## Replacing a node -/

def instantiate (kind : NodeKind) (substitution : Expression) (a : SourceAtom) :
    CTerm SourceAtom :=
  if a = .ofLeaf kind "" "" then sourceTerm substitution else .atom a

private theorem substituteFirst_pair {kind : NodeKind} {left right : Expression}
    (hone : countNodes (· = kind) left + countNodes (· = kind) right ≤ 1)
    (substitution : Expression) :
    (substituteFirst kind substitution [left, right]).1 =
      [(substituteNodeOfKind kind substitution left).1,
        (substituteNodeOfKind kind substitution right).1] := by
  have hleft := substituteNodeOfKind_count (· = kind) kind substitution left
  simp only [substituteFirst]
  cases hhas : hasNodeOfKind kind left with
  | true =>
      have hpositive : countNodes (· = kind) left ≠ 0 := by
        rw [Ne, ← hasNodeOfKind_eq_false, hhas]
        simp
      have hright := substituteNodeOfKind_of_not_has
        (hasNodeOfKind_eq_false.mpr (show countNodes (· = kind) right = 0 by omega))
        substitution
      rw [hhas, if_pos rfl] at hleft
      rw [if_pos hleft.1, hright]
  | false =>
      rw [hhas, if_neg (by simp)] at hleft
      rw [hleft]
      simp only [Bool.false_eq_true, if_false]
      split <;> rfl

section Operators

variable {kind : NodeKind} (hkind : isInstantiated kind) {type : ExprType} {op : Operator}
  {rawType repr : String} (substitution : Expression)

include hkind in
theorem substituteNodeOfKind_unary (arg : Expression) :
    (substituteNodeOfKind kind substitution
        ⟨.operator, type, op, rawType, repr, [arg]⟩).1 =
      ⟨.operator, type, op, rawType, repr,
        [(substituteNodeOfKind kind substitution arg).1]⟩ := by
  rw [substituteNodeOfKind, if_neg (by rcases hkind with rfl | rfl <;> simp)]
  simp only [substituteFirst]
  split <;> rfl

include hkind in
theorem substituteNodeOfKind_binary {left right : Expression}
    (hone : countNodes (· = kind) left + countNodes (· = kind) right ≤ 1) :
    (substituteNodeOfKind kind substitution
        ⟨.operator, type, op, rawType, repr, [left, right]⟩).1 =
      ⟨.operator, type, op, rawType, repr,
        [(substituteNodeOfKind kind substitution left).1,
          (substituteNodeOfKind kind substitution right).1]⟩ := by
  rw [substituteNodeOfKind, if_neg (by rcases hkind with rfl | rfl <;> simp)]
  exact congrArg (Expression.mk _ _ _ _ _) (substituteFirst_pair hone substitution)

theorem countNodes_unary_le {arg : Expression}
    (hone : countNodes (· = kind) ⟨.operator, type, op, rawType, repr, [arg]⟩ ≤ 1) :
    countNodes (· = kind) arg ≤ 1 := by
  simp only [countNodes, countArgs] at hone
  omega

theorem countNodes_binary_le {left right : Expression}
    (hone : countNodes (· = kind) ⟨.operator, type, op, rawType, repr, [left, right]⟩ ≤ 1) :
    countNodes (· = kind) left + countNodes (· = kind) right ≤ 1 := by
  simp only [countNodes, countArgs] at hone
  omega

theorem substituteNodeOfKind_top {expression : Expression} (h : expression.kind ≠ kind) :
    (substituteNodeOfKind kind substitution expression).1.type = expression.type ∧
      (substituteNodeOfKind kind substitution expression).1.rawType =
        expression.rawType := by
  obtain ⟨nodeKind, type, op, rawType, repr, args⟩ := expression
  rw [substituteNodeOfKind, if_neg h]
  exact ⟨rfl, rfl⟩

end Operators

section Substitution

variable {sa : SchemaApplication} {kind : NodeKind} (hkind : isInstantiated kind)
  {substitution : Expression}

theorem InScope.kind_ne_of_pointer {expression : Expression} (h : InScope sa expression)
    (hkind : isInstantiated kind) (htype : expression.type = .pointer) :
    expression.kind ≠ kind := by
  cases h with
  | parameter | bool2 => cases htype
  | constant | named | dereference | unary | binary | shift =>
      rcases hkind with rfl | rfl <;> simp

include hkind in
theorem InScope.substitute {expression : Expression} (h : InScope sa expression)
    (hone : countNodes (· = kind) expression ≤ 1) (hsubstitution : InScope sa substitution) :
    InScope sa (substituteNodeOfKind kind substitution expression).1 := by
  induction h with
  | constant => rcases hkind with rfl | rfl <;> exact .constant _ _ _
  | named _ _ hrepr => rcases hkind with rfl | rfl <;> exact .named _ _ hrepr
  | dereference _ _ hrepr => rcases hkind with rfl | rfl <;> exact .dereference _ _ hrepr
  | parameter => rcases hkind with rfl | rfl <;> [exact hsubstitution; exact .parameter]
  | bool2 => rcases hkind with rfl | rfl <;> [exact .bool2; exact hsubstitution]
  | unary type rawType hop harg ih =>
      rw [substituteNodeOfKind_unary hkind]
      exact .unary type rawType hop (ih (countNodes_unary_le hone))
  | binary type rawType hop hpointer hleft hright ihLeft ihRight =>
      have hargs := countNodes_binary_le hone
      rw [substituteNodeOfKind_binary hkind _ hargs]
      exact .binary type rawType hop hpointer (ihLeft (by omega)) (ihRight (by omega))
  | shift type rawType hop htype hsize hleft hright ihLeft ihRight =>
      have hargs := countNodes_binary_le hone
      obtain ⟨htop, hraw⟩ := substituteNodeOfKind_top substitution
        (hleft.kind_ne_of_pointer hkind htype)
      rw [substituteNodeOfKind_binary hkind _ hargs]
      exact .shift type rawType hop (by rw [htop, htype]) (by rw [hraw]; exact hsize)
        (ihLeft (by omega)) (ihRight (by omega))

include hkind in
theorem InScope.sourceTerm_substitute {expression : Expression} (h : InScope sa expression)
    (hone : countNodes (· = kind) expression ≤ 1) :
    sourceTerm (substituteNodeOfKind kind substitution expression).1 =
      (sourceTerm expression).bind (instantiate kind substitution) := by
  induction h with
  | constant | named | dereference => rcases hkind with rfl | rfl <;> rfl
  | parameter | bool2 => rcases hkind with rfl | rfl <;> rfl
  | unary type rawType hop harg ih =>
      obtain ⟨unary, htext⟩ := unaryOp_ofText hop
      rw [substituteNodeOfKind_unary hkind, sourceTerm, sourceTerm,
        ih (countNodes_unary_le hone)]
      simp only [unaryTerm, htext, Term.bind]
  | @binary type op rawType left right hop hpointer hleft hright ihLeft ihRight =>
      have hargs := countNodes_binary_le hone
      obtain ⟨binary, htext, -⟩ := binaryOp_ofText hop
      have hnot : ¬(op = .ptrAdd ∨ op = .ptrSub) := hpointer
      rw [substituteNodeOfKind_binary hkind _ hargs, sourceTerm, sourceTerm, if_neg hnot,
        if_neg hnot, ihLeft (by omega), ihRight (by omega)]
      simp only [binaryTerm, htext, Term.bind]
  | @shift type op rawType left right hop htype hsize hleft hright ihLeft ihRight =>
      have hargs := countNodes_binary_le hone
      obtain ⟨-, hraw⟩ := substituteNodeOfKind_top substitution
        (hleft.kind_ne_of_pointer hkind htype)
      obtain ⟨binary, htext, -⟩ := binaryOp_ofText hop.binary
      have hpointer : op = .ptrAdd ∨ op = .ptrSub := hop
      have hsize : instantiate kind substitution (.sizeof left.rawType) =
          .atom (.sizeof left.rawType) := by
        rcases hkind with rfl | rfl <;> rfl
      rw [substituteNodeOfKind_binary hkind _ hargs, sourceTerm, sourceTerm,
        if_pos hpointer, if_pos hpointer, ihLeft (by omega), ihRight (by omega), hraw]
      simp only [pointerTerm, htext, shiftTerm, Term.bind, hsize]

end Substitution

/-! ## Evaluation -/

section Evaluation

variable {V : Type*} (machine : CMachine V) (valuation : Valuation V)
  {sa : SchemaApplication}

theorem evaluateWith_parameter {expression : Expression} (h : InScope sa expression)
    (hone : countNodes (· = .parameter) expression ≤ 1) (substitution : Expression)
    (parameter bool2 : Result V) :
    evaluateWith machine valuation parameter bool2
        (substituteNodeOfKind .parameter substitution expression).1 =
      evaluateWith machine valuation
        (evaluateWith machine valuation parameter bool2 substitution) bool2 expression := by
  rw [evaluateWith, h.sourceTerm_substitute (.inl rfl) hone, Term.eval_bind]
  apply congrArg (fun env => (sourceTerm expression).eval machine.toMachine env)
  funext a
  cases a <;> rfl

theorem evaluateWith_bool2 {expression : Expression} (h : InScope sa expression)
    (hone : countNodes (· = .bool2) expression ≤ 1) (substitution : Expression)
    (parameter bool2 : Result V) :
    evaluateWith machine valuation parameter bool2
        (substituteNodeOfKind .bool2 substitution expression).1 =
      evaluateWith machine valuation parameter
        (evaluateWith machine valuation parameter bool2 substitution) expression := by
  rw [evaluateWith, h.sourceTerm_substitute (.inr rfl) hone, Term.eval_bind]
  apply congrArg (fun env => (sourceTerm expression).eval machine.toMachine env)
  funext a
  cases a <;> rfl

private theorem evaluateWith_parameter_eq {expression : Expression} (h : InScope sa expression)
    (hnone : hasNodeOfKind .parameter expression = false) (parameter other bool2 : Result V) :
    evaluateWith machine valuation parameter bool2 expression =
      evaluateWith machine valuation other bool2 expression := by
  have hone : countNodes (· = .parameter) expression ≤ 1 := by
    rw [hasNodeOfKind_eq_false.mp hnone]
    omega
  have hread := fun parameter =>
    evaluateWith_parameter machine valuation h hone trueNode parameter bool2
  simp only [substituteNodeOfKind_of_not_has hnone] at hread
  exact (hread parameter).trans (hread other).symm

theorem evaluateWith_bool2_eq {expression : Expression} (h : InScope sa expression)
    (hnone : hasNodeOfKind .bool2 expression = false)
    (parameter bool2 other : Result V) :
    evaluateWith machine valuation parameter bool2 expression =
      evaluateWith machine valuation parameter other expression := by
  have hone : countNodes (· = .bool2) expression ≤ 1 := by
    rw [hasNodeOfKind_eq_false.mp hnone]
    omega
  have hread := evaluateWith_bool2 machine valuation h hone trueNode parameter
  simp only [substituteNodeOfKind_of_not_has hnone] at hread
  exact (hread bool2).trans (hread other).symm

end Evaluation

end F1X

namespace F1X.generator

open F1X.Library

/-! ## The patch of an id -/

/-- The condition that the coordinate `bool2` of an id stands for. -/
def chosenCondition (conditions : List Expression) : Nat → Option Expression
  | 0 => none
  | i + 1 => conditions[i]?

section Patches

variable {V : Type*} (machine : CMachine V) (valuation : Valuation V)

def conditionResult (parameter : V) (conditions : List Expression) (bool2 : Nat) :
    Result V :=
  match chosenCondition conditions bool2 with
  | none => none
  | some condition => evaluateWith machine valuation (some (parameter, false)) none condition

def instanceResult (parameter : V) (conditions : List Expression) (bool2 : Nat)
    (expression : Expression) : Result V :=
  evaluateWith machine valuation (some (parameter, false))
    (conditionResult machine valuation parameter conditions bool2) expression

variable {sa : SchemaApplication} {conditions : List Expression} {paramBound : Nat}
  {expression chosen : Expression} {coordinate : Nat}

theorem Parametrized.evaluateWith {modified : Expression}
    (h : Parametrized paramBound chosen coordinate modified) (hscope : InScope sa chosen)
    (hchosen : Parametric chosen) (bool2 : Result V) :
    evaluateWith machine valuation none bool2 modified =
      F1X.evaluateWith machine valuation
        (some (machine.literal "int" (toString coordinate), false)) bool2 chosen := by
  cases h with
  | fixed h => exact evaluateWith_parameter_eq machine valuation hscope h _ _ _
  | constant _ _ h =>
      obtain ⟨-, rfl⟩ := replacesFirst_iff.mp h
      have hone := hchosen.parameter_le
      exact evaluateWith_parameter machine valuation hscope hone
        (makeIntegerConst coordinate) none bool2

theorem Chosen.inScope (h : Chosen conditions expression coordinate chosen)
    (hscope : InScope sa expression) (hexpression : Schematic expression)
    (hscopes : ∀ condition ∈ conditions, InScope sa condition) : InScope sa chosen := by
  cases h with
  | fixed => exact hscope
  | condition i hi h =>
      obtain ⟨-, rfl⟩ := replacesFirst_iff.mp h
      exact hscope.substitute (.inr rfl) hexpression.bool2_le
        (hscopes _ (List.getElem_mem hi))

theorem Chosen.evaluateWith (h : Chosen conditions expression coordinate chosen)
    (hscope : InScope sa expression) (hexpression : Schematic expression) (parameter : V) :
    evaluateWith machine valuation (some (parameter, false)) none chosen =
      instanceResult machine valuation parameter conditions coordinate expression := by
  unfold instanceResult conditionResult chosenCondition
  cases h with
  | fixed h => exact evaluateWith_bool2_eq machine valuation hscope h _ _ _
  | condition i hi h =>
      obtain ⟨-, rfl⟩ := replacesFirst_iff.mp h
      simp only [List.getElem?_eq_getElem hi]
      exact evaluateWith_bool2 machine valuation hscope hexpression.bool2_le conditions[i]
        _ none

theorem Decodes.evaluate {base : Nat} {id : PatchID} {modified : Expression}
    (decodes : Decodes conditions paramBound base expression id modified)
    (hexpression : Schematic expression)
    (hconditions : ∀ condition ∈ conditions, Parametric condition)
    (hscope : InScope sa expression)
    (hscopes : ∀ condition ∈ conditions, InScope sa condition) :
    evaluate machine valuation modified =
      instanceResult machine valuation (machine.literal "int" (toString id.param))
        conditions id.bool2 expression := by
  obtain ⟨chosen, hchosen, hparametrized⟩ := decodes.choice
  have hchosenScope := hchosen.inScope hscope hexpression hscopes
  have hparametric := hchosen.parametric hexpression hconditions
  rw [F1X.evaluate, hparametrized.evaluateWith machine valuation hchosenScope hparametric,
    hchosen.evaluateWith machine valuation hscope hexpression]

end Patches

end F1X.generator
