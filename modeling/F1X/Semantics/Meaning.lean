import F1X.Semantics.Evaluation
import F1X.Synthesis.WellTyped

/-!
# What type correction does to the meaning of an expression

The value of a C expression over the mathematical integers, in which addresses
are integers, too: pointer arithmetic moves by elements and the difference of
two pointers counts elements.  Type correction keeps the value at a node if it
keeps the values of the arguments, except where it inserts a zero check and
where the node subtracts pointers; `Safe` excludes these two.
-/

namespace F1X

open F1X.Library

/-- A valuation with what C says of the literals that type correction knows. -/
structure Scope extends Valuation Int where
  literal : String → String → Int
  literal_zero : ∀ rawType, literal rawType "0" = 0
  literal_one : ∀ rawType, literal rawType "1" = 1
  literal_null : literal nullNode.rawType nullNode.repr = 0
  sizeof_pos : ∀ pointee, 0 < sizeof pointee

def leafValue (scope : Scope) (kind : NodeKind) (rawType repr : String) : Option Int :=
  match kind with
  | .constant => some (scope.literal rawType repr)
  | .variable => some (scope.value repr)
  | .dereference => if scope.isNull repr then none else some (scope.value repr)
  | _ => none

def unaryValue (op : Operator) (value : Int) : Option Int :=
  (UnaryOp.ofText (operatorText op)).map (Integers.unary · value)

/-- The result of `&&` and `||` where the left argument decides it. -/
def decidedValue (op : Operator) (value : Int) : Option Int :=
  (BinaryOp.ofText (operatorText op)).bind (Integers.decided · value)

def IsPointerDifference (op : Operator) (left right : Expression) : Prop :=
  op = .sub ∧ left.type = .pointer ∧ right.type = .pointer

instance (op : Operator) (left right : Expression) :
    Decidable (IsPointerDifference op left right) :=
  inferInstanceAs (Decidable (_ ∧ _))

/-- C defines the difference of pointers only for elements of one array. -/
def binaryValue (scope : Scope) (op : Operator) (left right : Expression)
    (value other : Int) : Option Int :=
  if op = .ptrAdd then some (value + scope.sizeof left.rawType * other)
  else if op = .ptrSub then some (value - scope.sizeof left.rawType * other)
  else if IsPointerDifference op left right then
    if scope.sizeof left.rawType ∣ value - other then
      some ((value - other) / scope.sizeof left.rawType)
    else none
  else (BinaryOp.ofText (operatorText op)).bind (Integers.binary · value other)

/-- The value of an expression; `none` where C leaves it undefined. -/
def cValue (scope : Scope) : Expression → Option Int
  | ⟨kind, _, op, rawType, repr, args⟩ =>
      match args with
      | [] => leafValue scope kind rawType repr
      | [arg] => (cValue scope arg).bind (unaryValue op)
      | [left, right] =>
          (cValue scope left).bind fun value =>
            match decidedValue op value with
            | some result => some result
            | none => (cValue scope right).bind (binaryValue scope op left right value)
      | _ => none
termination_by structural expression => expression

/-! ## The positions of an expression -/

/-- Type correction would compare an expression of this kind with zero. -/
def NeedsZeroCheck (expression : Expression) : Prop :=
  expression.type ≠ .boolean ∧ expression.type ≠ .pointer ∧
    ¬(expression.kind = .constant ∧ (expression.repr = "0" ∨ expression.repr = "1"))

instance (expression : Expression) : Decidable (NeedsZeroCheck expression) :=
  inferInstanceAs (Decidable (_ ∧ _ ∧ _))

/-- By how much the value of a pointer difference shrinks against the difference of addresses. -/
def scale (scope : Scope) (expression : Expression) : Int :=
  match expression.args with
  | [left, right] =>
      if IsPointerDifference expression.op left right then scope.sizeof left.rawType else 1
  | _ => 1

/--
No zero check is inserted here, and a pointer difference is one of bytes or of
equal pointers.
-/
def Safe (scope : Scope) (expression : Expression) (context : ExprType) : Prop :=
  (context = .boolean → ¬ NeedsZeroCheck expression) ∧
    (scale scope expression = 1 ∨ cValue scope expression = some 0)

/-- In a condition only the truth of the value counts. -/
def Preserved (scope : Scope) (expression : Expression) (context : ExprType) : Prop :=
  ∀ corrected, correctTypes expression context = .ok corrected →
    ∀ value, cValue scope expression = some value →
      ∃ result, cValue scope corrected = some result ∧
        if context = .boolean then (result ≠ 0 ↔ value ≠ 0) else result = value

/--
`p` holds of every proper part, with its context, that type correction visits
and that is evaluated.
-/
def Parts (scope : Scope) (p : Expression → ExprType → Prop) : Expression → Prop
  | ⟨_, _, op, _, _, args⟩ =>
      match args with
      | [arg] =>
          (∀ argContext, operatorFirstArgType op = .ok argContext → p arg argContext) ∧
            Parts scope p arg
      | [left, right] =>
          if op = .ptrAdd ∨ op = .ptrSub then p right .integer ∧ Parts scope p right
          else
            (∀ argContext, binaryArgContext op left right = .ok argContext →
              p left argContext) ∧ Parts scope p left ∧
            ((cValue scope left).bind (decidedValue op) = none →
              (∀ argContext, binaryArgContext op left right = .ok argContext →
                p right argContext) ∧ Parts scope p right)
      | _ => True
termination_by structural expression => expression

def Everywhere (scope : Scope) (p : Expression → ExprType → Prop)
    (expression : Expression) (context : ExprType) : Prop :=
  p expression context ∧ Parts scope p expression

section Parts

variable {scope : Scope} {p : Expression → ExprType → Prop} {kind : NodeKind}
  {type argContext : ExprType} {op : Operator} {rawType repr : String}
  {left right arg : Expression}

theorem parts_unary_iff (hcontext : operatorFirstArgType op = .ok argContext) :
    Parts scope p ⟨kind, type, op, rawType, repr, [arg]⟩ ↔
      Everywhere scope p arg argContext := by
  simp [Parts, Everywhere, hcontext]

theorem parts_pointer_iff (hop : op = .ptrAdd ∨ op = .ptrSub) :
    Parts scope p ⟨kind, type, op, rawType, repr, [left, right]⟩ ↔
      Everywhere scope p right .integer := by
  simp [Parts, Everywhere, hop]

theorem parts_binary_iff (hop : ¬(op = .ptrAdd ∨ op = .ptrSub))
    (hcontext : binaryArgContext op left right = .ok argContext) :
    Parts scope p ⟨kind, type, op, rawType, repr, [left, right]⟩ ↔
      Everywhere scope p left argContext ∧
        ((cValue scope left).bind (decidedValue op) = none →
          Everywhere scope p right argContext) := by
  simp [Parts, Everywhere, hop, hcontext, and_assoc]

end Parts

/-! ## The corrected node -/

section Nodes

variable {scope : Scope} {expression left right : Expression} {op : Operator}
  {type : ExprType} {rawType repr : String} {value other : Int}

theorem cValue_unary :
    cValue scope ⟨.operator, type, op, rawType, repr, [expression]⟩ =
      (cValue scope expression).bind (unaryValue op) := by
  rw [cValue]

theorem cValue_binary (hvalue : cValue scope left = some value) :
    cValue scope ⟨.operator, type, op, rawType, repr, [left, right]⟩ =
      match decidedValue op value with
      | some result => some result
      | none => (cValue scope right).bind (binaryValue scope op left right value) := by
  rw [cValue, hvalue, Option.bind_some]

theorem cValue_binary_some
    (h : cValue scope ⟨.operator, type, op, rawType, repr, [left, right]⟩ = some value) :
    ∃ leftValue, cValue scope left = some leftValue ∧
      (decidedValue op leftValue = none →
        ∃ rightValue, cValue scope right = some rightValue ∧
          binaryValue scope op left right leftValue rightValue = some value) := by
  rw [cValue] at h
  obtain ⟨leftValue, hleftValue, h⟩ := Option.bind_eq_some_iff.mp h
  refine ⟨leftValue, hleftValue, fun hdecided => ?_⟩
  rw [hdecided] at h
  exact Option.bind_eq_some_iff.mp h

theorem cValue_wrapWithCast (hop : isUnaryOperator op = true)
    (hany : operatorFirstArgType op = .ok .any) :
    cValue scope (wrapWithCast type op rawType expression) = cValue scope expression := by
  have hcast : ∀ value, unaryValue op value = some value := by
    intro value
    cases op <;> cases hop <;> cases hany <;> rfl
  rw [wrapWithCast, cValue_unary]
  cases cValue scope expression with
  | none => rfl
  | some value => exact hcast value

theorem cValue_applyBoolOperator (hop : op = .eq ∨ op = .neq)
    (hleft : cValue scope left = some value) (hright : cValue scope right = some other) :
    cValue scope (applyBoolOperator op left right) =
      some (ofBool (if op = .eq then value = other else value ≠ other)) := by
  rw [applyBoolOperator, cValue_binary hleft, hright]
  rcases hop with rfl | rfl <;> rfl

/-- The value that type correction makes of the value of a node. -/
def checkedValue (expression : Expression) (context : ExprType) (value : Int) : Int :=
  if context = .boolean ∧ expression.type = .pointer then ofBool (value ≠ 0)
  else if context = .boolean ∧ NeedsZeroCheck expression then ofBool (value = 0)
  else value

theorem cValue_correctTopNode
    (hconstant : expression.kind = .constant →
      expression.args = [] ∧ (expression.type = .integer ∨ expression.type = .pointer))
    (hvalue : cValue scope expression = some value) (context : ExprType) :
    cValue scope (correctTopNode expression context) =
      some (checkedValue expression context value) := by
  cases context with
  | any => simpa [correctTopNode, checkedValue] using hvalue
  | integer =>
      rw [correctTopNode]
      split_ifs
      · simpa [checkedValue] using hvalue
      · exact (cValue_wrapWithCast rfl rfl).trans (by simpa [checkedValue] using hvalue)
      · exact (cValue_wrapWithCast rfl rfl).trans (by simpa [checkedValue] using hvalue)
  | bitvector =>
      rw [correctTopNode]
      split_ifs
      · simpa [checkedValue] using hvalue
      · exact (cValue_wrapWithCast rfl rfl).trans (by simpa [checkedValue] using hvalue)
      · exact (cValue_wrapWithCast rfl rfl).trans (by simpa [checkedValue] using hvalue)
  | pointer =>
      rw [correctTopNode]
      split_ifs
      · simpa [checkedValue] using hvalue
      · exact (cValue_wrapWithCast rfl rfl).trans (by simpa [checkedValue] using hvalue)
  | boolean =>
      have hnull : cValue scope nullNode = some 0 := congrArg some scope.literal_null
      have hzero : cValue scope (makeIntegerConst 0) = some 0 :=
        congrArg some (scope.literal_zero _)
      have hcheck : cValue scope (makeNonZeroCheck expression) =
          some (ofBool (value = 0)) := by
        rw [makeNonZeroCheck]
        simpa using cValue_applyBoolOperator (.inl rfl) hvalue hzero
      have hliteral : expression.kind = .constant →
          some (scope.literal expression.rawType expression.repr) = some value := by
        intro hkind
        rw [← hvalue]
        obtain ⟨kind, type, op, rawType, repr, args⟩ := expression
        obtain ⟨rfl, -⟩ := hconstant hkind
        cases hkind
        rfl
      rw [correctTopNode]
      split_ifs with hboolean hpointer hinteger hrepr hrepr
      · simpa [checkedValue, hboolean, NeedsZeroCheck] using hvalue
      · rw [makeNonNULLCheck, cValue_applyBoolOperator (.inr rfl) hvalue hnull]
        simp [checkedValue, hpointer]
      · simp only [Bool.and_eq_true, decide_eq_true_eq] at hinteger
        have hvalue' := hliteral hinteger.2
        rw [hrepr, scope.literal_zero] at hvalue'
        have hfalse : cValue scope falseNode = some 0 :=
          congrArg some (scope.literal_zero _)
        simp [checkedValue, hinteger, NeedsZeroCheck, hrepr, ← Option.some.inj hvalue', hfalse]
      · simp only [Bool.and_eq_true, decide_eq_true_eq] at hinteger
        have hvalue' := hliteral hinteger.2
        rw [hrepr, scope.literal_one] at hvalue'
        have htrue : cValue scope trueNode = some 1 :=
          congrArg some (scope.literal_one _)
        simp [checkedValue, hinteger, NeedsZeroCheck, hrepr, ← Option.some.inj hvalue', htrue]
      · simp_all [checkedValue, NeedsZeroCheck]
      · have hkind : expression.kind ≠ .constant := by
          intro hkind
          have htype := (hconstant hkind).2.resolve_right hpointer
          simp [hkind, htype] at hinteger
        simp [checkedValue, hcheck, hboolean, hpointer, NeedsZeroCheck, hkind]

end Nodes

/-! ## The value of a patch -/

section Patches

variable {scope : Scope}

/-- `evaluate` over the integers, without the flag. -/
def patchValue (scope : Scope) (expression : Expression) : Option Int :=
  (sourceTerm expression).value (integers scope.literal).toMachine
    (scope.toValuation.env (integers scope.literal) none none)

private theorem patchValue_leaf {kind : NodeKind} (hkind : kind ≠ .operator) {type : ExprType}
    {rawType repr : String} :
    patchValue scope ⟨kind, type, .none, rawType, repr, []⟩ =
      cValue scope ⟨kind, type, .none, rawType, repr, []⟩ := by
  cases kind with
  | operator => exact absurd rfl hkind
  | dereference =>
      simp only [patchValue, sourceTerm, SourceAtom.ofLeaf, Term.value_atom, Valuation.env,
        cValue, leafValue]
      split <;> rfl
  | _ => rfl

private theorem patchValue_unary {op : Operator} {type : ExprType} {rawType : String}
    {arg : Expression} (hop : isUnaryOperator op = true) :
    patchValue scope ⟨.operator, type, op, rawType, operatorText op, [arg]⟩ =
      (patchValue scope arg).bind (unaryValue op) := by
  obtain ⟨unary, hunary⟩ : ∃ unary, UnaryOp.ofText (operatorText op) = some unary := by
    cases op <;> first | exact ⟨_, rfl⟩ | cases hop
  simp only [patchValue, sourceTerm, unaryTerm, hunary, Term.value_unary]
  congr 1
  funext value
  rw [unaryValue, hunary]
  rfl

theorem value_shiftTerm {op : BinaryOp} (hop : op = .add ∨ op = .sub) {pointee : String}
    {pointer offset : CTerm SourceAtom} {env : SourceAtom → Result Int}
    (hsizeof : env (.sizeof pointee) = some (scope.sizeof pointee, false)) :
    (shiftTerm op pointer (.sizeof pointee) offset).value
        (integers scope.literal).toMachine env =
      (pointer.value (integers scope.literal).toMachine env).bind fun value =>
        (offset.value (integers scope.literal).toMachine env).bind fun other =>
          Integers.binary op value (scope.sizeof pointee * other) := by
  have hplain : ∀ op' value, op' = .mul ∨ op' = op →
      (integers scope.literal).decided op' value = none := by
    rintro op' value (rfl | rfl)
    · rfl
    · rcases hop with rfl | rfl <;> rfl
  have hcast : ∀ target,
      (integers scope.literal).unary (.cast target) = some := fun _ => rfl
  simp only [shiftTerm, Term.value_unary, Term.value_binary, Term.value_atom, hcast, hsizeof,
    hplain, true_or, or_true, Option.bind_some, Option.bind_fun_some, Option.map_some,
    Option.bind_assoc]
  rfl

private theorem patchValue_binary {op : Operator} {type : ExprType} {rawType : String}
    {left right : Expression} (hop : isBinaryOperator op = true)
    (hdifference : ¬ IsPointerDifference op left right) :
    patchValue scope ⟨.operator, type, op, rawType, operatorText op, [left, right]⟩ =
      (patchValue scope left).bind fun value =>
        match decidedValue op value with
        | some result => some result
        | none => (patchValue scope right).bind (binaryValue scope op left right value) := by
  by_cases hpointer : op = .ptrAdd ∨ op = .ptrSub
  · rcases hpointer with rfl | rfl
    · simp only [patchValue, sourceTerm, pointerTerm, true_or, if_true,
        show BinaryOp.ofText (operatorText .ptrAdd) = some .add from rfl]
      exact value_shiftTerm (.inl rfl) rfl
    · simp only [patchValue, sourceTerm, pointerTerm, or_true, if_true,
        show BinaryOp.ofText (operatorText .ptrSub) = some .sub from rfl]
      exact value_shiftTerm (.inr rfl) rfl
  · obtain ⟨binary, hbinary⟩ : ∃ binary, BinaryOp.ofText (operatorText op) = some binary := by
      cases op <;> first | exact ⟨_, rfl⟩ | cases hop
    have hvalue : ∀ value, binaryValue scope op left right value =
        Integers.binary binary value := by
      intro value
      funext other
      obtain ⟨hadd, hsub⟩ := not_or.mp hpointer
      simp [binaryValue, hadd, hsub, hdifference, hbinary]
    simp only [patchValue, sourceTerm, hpointer, if_false, binaryTerm, hbinary,
      Term.value_binary, decidedValue, Option.bind_some, hvalue]
    congr 1
    funext value
    cases hdecided : Integers.decided binary value with
    | some result => simp [integers, hdecided]
    | none => simp [integers, hdecided]

/-- On the expressions of patches this meaning is the one their translation is proved against. -/
theorem patchValue_eq {expression : Expression} (hwell : expression.WellFormed)
    (htyped : expression.WellTyped) : patchValue scope expression = cValue scope expression := by
  induction hwell with
  | leaf kind type rawType repr => exact patchValue_leaf (wellTyped_leaf_iff.mp htyped)
  | unary type rawType hop harg ih =>
      obtain ⟨-, -, hargs⟩ := wellTyped_node_iff.mp htyped
      rw [patchValue_unary hop, cValue_unary, ih (hargs _ (by simp))]
  | @binary type op rawType left right hop hleft hright ihLeft ihRight =>
      obtain ⟨-, htypes, hargs⟩ := wellTyped_node_iff.mp htyped
      have hdifference : ¬ IsPointerDifference op left right := by
        rintro ⟨rfl, hleftType, -⟩
        obtain ⟨-, haccepts, -⟩ := htypes
        simp [Accepts, operatorFirstArgType, hleftType] at haccepts
      rw [patchValue_binary hop hdifference, cValue, ihLeft (hargs _ (by simp)),
        ihRight (hargs _ (by simp))]

end Patches

/-! ## The value of the corrected expression -/

section Values

variable {scope : Scope} {expression corrected left right : Expression} {op : Operator}
  {context : ExprType} {value other result : Int}

theorem checkedValue_safe (hsafe : Safe scope expression context)
    (hvalue : cValue scope expression = some value) :
    (checkedValue expression context (scale scope expression * value) = 0 ↔ value = 0) ∧
      (¬(context = .boolean ∧ expression.type = .pointer) →
        checkedValue expression context (scale scope expression * value) = value) := by
  obtain ⟨hcheck, hscale⟩ := hsafe
  have hscaled : scale scope expression * value = value := by
    rcases hscale with hone | hzero
    · rw [hone, one_mul]
    · obtain rfl := Option.some.inj (hvalue.symm.trans hzero)
      rw [mul_zero]
  rw [hscaled, checkedValue]
  split_ifs with hpointer hneeds
  · exact ⟨by simp [ofBool_eq_zero], fun hnot => absurd hpointer hnot⟩
  · exact absurd hneeds.2 (hcheck hneeds.1)
  · exact ⟨Iff.rfl, fun _ => rfl⟩

private theorem scale_pos : 0 < scale scope expression := by
  unfold scale
  split
  · split
    · exact scope.sizeof_pos _
    · exact Int.one_pos
  · exact Int.one_pos

private theorem scale_eq_one (hloaded : expression.Loaded) (hneeds : ¬ NeedsZeroCheck expression) :
    scale scope expression = 1 := by
  cases hloaded with
  | leaf hkind htype rawType repr => rfl
  | unary rawType hop htype harg => rfl
  | binary rawType hop htype hleft hright =>
      simp only [scale]
      split_ifs with hdifference
      · obtain ⟨rfl, -, -⟩ := hdifference
        cases htype
        exact absurd ⟨by simp, by simp, by simp⟩ hneeds
      · rfl

/-! `&&` and `||` ask for the truth of their arguments only. -/

theorem decidedValue_truth {value' : Int} (hop : op = .and ∨ op = .or)
    (hvalue : value' = 0 ↔ value = 0) : decidedValue op value' = decidedValue op value := by
  rcases hop with rfl | rfl <;>
    simp [decidedValue, operatorText, BinaryOp.ofText, Integers.decided, hvalue]

private theorem binaryValue_truth {value' other' : Int} {left' right' : Expression}
    (hop : op = .and ∨ op = .or) (hother : other' = 0 ↔ other = 0) :
    binaryValue scope op left' right' value' other' =
      binaryValue scope op left right value other := by
  rcases hop with rfl | rfl <;>
    simp [binaryValue, IsPointerDifference, operatorText, BinaryOp.ofText, Integers.binary,
      hother]

private theorem binaryValue_scale {left' right' : Expression} {kind : NodeKind} {type : ExprType}
    {rawType repr : String} (hop : ¬(op = .ptrAdd ∨ op = .ptrSub))
    (hdifference : ¬ IsPointerDifference op left' right')
    (h : binaryValue scope op left right value other = some result) :
    binaryValue scope op left' right' value other =
      some (scale scope ⟨kind, type, op, rawType, repr, [left, right]⟩ * result) := by
  obtain ⟨hadd, hsub⟩ := not_or.mp hop
  simp only [binaryValue, hadd, hsub, hdifference, if_false, scale] at h ⊢
  by_cases hleft : IsPointerDifference op left right
  · rw [if_pos hleft] at h
    split at h
    · rename_i hdvd
      cases h
      rw [if_pos hleft, Int.mul_ediv_cancel' hdvd, hleft.1]
      rfl
    · cases h
  · rw [if_neg hleft] at h
    rw [if_neg hleft, h, one_mul]

private theorem pointer_argument {argContext : ExprType} (hbinary : isBinaryOperator op = true)
    (hcontext : binaryArgContext op left right = .ok argContext)
    (hboolean : argContext = .boolean)
    (hpointer : left.type = .pointer ∨ right.type = .pointer) : op = .and ∨ op = .or := by
  obtain ⟨first, hfirst, h⟩ := bind_eq_ok_iff.mp hcontext
  subst hboolean
  split at h
  · unfold commonSubtype at h
    split_ifs at h <;> simp_all
  · cases h
    cases op <;> cases hfirst <;> cases hbinary <;> simp

/-- What an operator can tell apart of the values of its arguments. -/
def SameFor (op : Operator) (value value' : Int) : Prop :=
  (value' = 0 ↔ value = 0) ∧ (¬(op = .and ∨ op = .or) → value' = value)

private theorem cValue_binary_scale {left' right' : Expression} {type : ExprType}
    {rawType repr : String} {value' : Int} (hop : ¬(op = .ptrAdd ∨ op = .ptrSub))
    (hdifference : ¬ IsPointerDifference op left' right')
    (hleft : cValue scope left = some value) (hleft' : cValue scope left' = some value')
    (hsame : SameFor op value value')
    (hright : decidedValue op value = none → ∀ other, cValue scope right = some other →
      ∃ other', cValue scope right' = some other' ∧ SameFor op other other')
    (h : cValue scope ⟨.operator, type, op, rawType, repr, [left, right]⟩ = some result) :
    cValue scope ⟨.operator, type, op, rawType, repr, [left', right']⟩ =
      some (scale scope ⟨.operator, type, op, rawType, repr, [left, right]⟩ * result) := by
  rw [cValue_binary hleft] at h
  rw [cValue_binary hleft']
  by_cases hconnective : op = .and ∨ op = .or
  · have hscale : scale scope ⟨.operator, type, op, rawType, repr, [left, right]⟩ = 1 := by
      rcases hconnective with rfl | rfl <;> simp [scale, IsPointerDifference]
    rw [hscale, one_mul, decidedValue_truth hconnective hsame.1]
    cases hdecided : decidedValue op value with
    | some decided => rwa [hdecided] at h
    | none =>
        rw [hdecided] at h
        obtain ⟨other, hother, hbinary⟩ := Option.bind_eq_some_iff.mp h
        obtain ⟨other', hother', hsame'⟩ := hright hdecided other hother
        simp only [hother', Option.bind_some]
        rw [← hbinary]
        exact binaryValue_truth hconnective hsame'.1
  · have hdecided : decidedValue op value = none := by
      cases op <;> simp at hconnective <;> rfl
    obtain rfl := hsame.2 hconnective
    rw [hdecided] at h ⊢
    obtain ⟨other, hother, hbinary⟩ := Option.bind_eq_some_iff.mp h
    obtain ⟨other', hother', hsame'⟩ := hright hdecided other hother
    obtain rfl := hsame'.2 hconnective
    simp only [hother', Option.bind_some]
    exact binaryValue_scale hop hdifference hbinary

/-! Below, the arguments have their checked values, as the induction gives them. -/

theorem cValue_unary_checked {type argContext : ExprType} {rawType : String}
    {arg correctedArg : Expression} {argValue : Int} (hop : op = .neg ∨ op = .not ∨ op = .bvNot)
    (hcontext : operatorFirstArgType op = .ok argContext) (hsafe : Safe scope arg argContext)
    (hargValue : cValue scope arg = some argValue)
    (hcorrected : cValue scope correctedArg =
      some (checkedValue arg argContext (scale scope arg * argValue)))
    (hunary : unaryValue op argValue = some value) :
    cValue scope ⟨.operator, type, op, rawType, operatorText op, [correctedArg]⟩ =
      some value := by
  obtain ⟨htruth, hsame⟩ := checkedValue_safe hsafe hargValue
  rw [cValue_unary, hcorrected, Option.bind_some]
  by_cases hnot : op = .not
  · subst hnot
    simpa [unaryValue, operatorText, UnaryOp.ofText, Integers.unary, htruth] using hunary
  · have hne : argContext ≠ .boolean := by
      rcases hop with rfl | rfl | rfl <;> cases hcontext <;> simp at hnot ⊢
    rw [hsame fun h => hne h.1, hunary]

private theorem cValue_pointer_checked {type : ExprType} {rawType : String}
    {correctedRight : Expression} {leftValue rightValue : Int}
    (hop : op = .ptrAdd ∨ op = .ptrSub) (hleftValue : cValue scope left = some leftValue)
    (hrightValue : cValue scope right = some rightValue) (hsafe : Safe scope right .integer)
    (hcorrected : cValue scope correctedRight =
      some (checkedValue right .integer (scale scope right * rightValue)))
    (hbinary : binaryValue scope op left right leftValue rightValue = some value) :
    cValue scope ⟨.operator, type, op, rawType, operatorText op, [left, correctedRight]⟩ =
      some value := by
  have hdecided : decidedValue op leftValue = none := by
    rcases hop with rfl | rfl <;> rfl
  have hsame := (checkedValue_safe hsafe hrightValue).2 (by simp)
  rw [cValue_binary hleftValue, hdecided, hcorrected, hsame]
  rcases hop with rfl | rfl <;> exact hbinary

/-- A pointer that is compared with the null pointer is an argument of `&&` or `||`. -/
theorem sameFor_checkedValue {argContext : ExprType} {arg : Expression}
    (hbinary : isBinaryOperator op = true)
    (hcontext : binaryArgContext op left right = .ok argContext)
    (harg : arg = left ∨ arg = right) (hsafe : Safe scope arg argContext)
    (hvalue : cValue scope arg = some value) :
    SameFor op value (checkedValue arg argContext (scale scope arg * value)) := by
  obtain ⟨htruth, hequal⟩ := checkedValue_safe hsafe hvalue
  refine ⟨htruth, fun hconnective => hequal ?_⟩
  rintro ⟨hboolean, htype⟩
  refine hconnective (pointer_argument hbinary hcontext hboolean ?_)
  rcases harg with rfl | rfl
  · exact .inl htype
  · exact .inr htype

private theorem not_isPointerDifference_corrected {argContext : ExprType}
    {correctedLeft correctedRight : Expression}
    (hcontext : binaryArgContext op left right = .ok argContext)
    (hcorrected : correctTypes left argContext = .ok correctedLeft) :
    ¬ IsPointerDifference op correctedLeft correctedRight := by
  rintro ⟨rfl, hleftType, -⟩
  cases hcontext
  rw [correctTypes_type hcorrected (by simp)] at hleftType
  cases hleftType

private theorem correctTypes_value (hloaded : expression.Loaded)
    (hparts : Parts scope (Safe scope) expression)
    (hcorrect : correctTypes expression context = .ok corrected)
    (hvalue : cValue scope expression = some value) :
    cValue scope corrected =
      some (checkedValue expression context (scale scope expression * value)) := by
  induction hloaded generalizing context corrected value with
  | leaf hkind htype rawType repr =>
      obtain ⟨-, rfl⟩ := correctTypes_leaf_iff.mp hcorrect
      rw [show scale scope ⟨_, _, _, rawType, repr, []⟩ = 1 from rfl, one_mul]
      exact cValue_correctTopNode (fun _ => ⟨rfl, htype⟩) hvalue context
  | @unary type op rawType arg hop htype harg ih =>
      obtain ⟨argContext, hcontext, correctedArg, hcorrectedArg, rfl⟩ :=
        correctTypes_unary_iff.mp hcorrect
      rw [cValue_unary] at hvalue
      obtain ⟨argValue, hargValue, hunary⟩ := Option.bind_eq_some_iff.mp hvalue
      obtain ⟨hsafe, hargParts⟩ := (parts_unary_iff hcontext).mp hparts
      rw [show scale scope ⟨_, _, _, rawType, _, [arg]⟩ = 1 from rfl, one_mul]
      refine cValue_correctTopNode (by simp) ?_ context
      exact cValue_unary_checked hop hcontext hsafe hargValue
        (ih hargParts hcorrectedArg hargValue) hunary
  | @binary type op rawType left right hop htype hleft hright ihLeft ihRight =>
      obtain ⟨leftValue, hleftValue, hright⟩ := cValue_binary_some hvalue
      by_cases hpointer : op = .ptrAdd ∨ op = .ptrSub
      · obtain ⟨-, correctedRight, hcorrectedRight, rfl⟩ :=
          (correctTypes_pointer_iff hpointer).mp hcorrect
        obtain ⟨hsafe, hrightParts⟩ := (parts_pointer_iff hpointer).mp hparts
        obtain ⟨rightValue, hrightValue, hbinary⟩ :=
          hright (by rcases hpointer with rfl | rfl <;> rfl)
        have hscale : scale scope
            ⟨.operator, type, op, rawType, operatorText op, [left, right]⟩ = 1 := by
          rcases hpointer with rfl | rfl <;> simp [scale, IsPointerDifference]
        rw [hscale, one_mul]
        refine cValue_correctTopNode (by simp) ?_ context
        exact cValue_pointer_checked hpointer hleftValue hrightValue hsafe
          (ihRight hrightParts hcorrectedRight hrightValue) hbinary
      · obtain ⟨argContext, hcontext, correctedLeft, hcorrectedLeft, correctedRight,
          hcorrectedRight, rfl⟩ := (correctTypes_binary_iff hpointer).mp hcorrect
        obtain ⟨⟨hleftSafe, hleftParts⟩, hrightWhere⟩ :=
          (parts_binary_iff hpointer hcontext).mp hparts
        refine cValue_correctTopNode (by simp) (cValue_binary_scale hpointer
          (not_isPointerDifference_corrected hcontext hcorrectedLeft) hleftValue
          (ihLeft hleftParts hcorrectedLeft hleftValue)
          (sameFor_checkedValue hop hcontext (.inl rfl) hleftSafe hleftValue) ?_ hvalue) context
        intro hdecided other hother
        obtain ⟨hrightSafe, hrightParts⟩ := hrightWhere (by simp [hleftValue, hdecided])
        exact ⟨_, ihRight hrightParts hcorrectedRight hother,
          sameFor_checkedValue hop hcontext (.inr rfl) hrightSafe hother⟩

/-- At one position: with safe parts, being safe is the same as being preserved. -/
theorem preserved_iff_safe (hloaded : expression.Loaded)
    (hparts : Parts scope (Safe scope) expression)
    (hcorrect : correctTypes expression context = .ok corrected)
    (hvalue : cValue scope expression = some value) :
    Preserved scope expression context ↔ Safe scope expression context := by
  have hresult := correctTypes_value hloaded hparts hcorrect hvalue
  constructor
  · intro hpreserved
    obtain ⟨result, hsome, hkept⟩ := hpreserved corrected hcorrect value hvalue
    obtain rfl := Option.some.inj (hresult.symm.trans hsome)
    by_cases hboolean : context = .boolean
    · rw [if_pos hboolean] at hkept
      have hneeds : ¬ NeedsZeroCheck expression := by
        intro hneeds
        rw [checkedValue, if_neg (fun h => hneeds.2.1 h.2), if_pos ⟨hboolean, hneeds⟩] at hkept
        simp [ofBool_eq_zero, scale_pos.ne'] at hkept
      exact ⟨fun _ => hneeds, .inl (scale_eq_one hloaded hneeds)⟩
    · rw [if_neg hboolean, checkedValue, if_neg (fun h => hboolean h.1),
        if_neg (fun h => hboolean h.1)] at hkept
      refine ⟨fun h => absurd h hboolean, ?_⟩
      by_cases hzero : value = 0
      · exact .inr (hzero ▸ hvalue)
      · exact .inl (Int.eq_one_of_mul_eq_self_left hzero hkept)
  · intro hsafe other hother otherValue hotherValue
    obtain rfl := Except.ok.inj (hcorrect.symm.trans hother)
    obtain rfl := Option.some.inj (hvalue.symm.trans hotherValue)
    obtain ⟨htruth, hsame⟩ := checkedValue_safe hsafe hvalue
    refine ⟨_, hresult, ?_⟩
    split
    · rw [not_iff_not, htruth]
    · rename_i hboolean
      exact hsame fun h => hboolean h.1

theorem everywhere_iff_of_parts (hloaded : expression.Loaded)
    (hcorrect : correctTypes expression context = .ok corrected)
    (hvalue : cValue scope expression = some value)
    (hparts : Parts scope (Preserved scope) expression ↔ Parts scope (Safe scope) expression) :
    Everywhere scope (Preserved scope) expression context ↔
      Everywhere scope (Safe scope) expression context := by
  rw [Everywhere, Everywhere, hparts]
  exact and_congr_left fun hsafe => preserved_iff_safe hloaded hsafe hcorrect hvalue

private theorem parts_preserved_iff (hloaded : expression.Loaded)
    (hcorrect : correctTypes expression context = .ok corrected)
    (hvalue : cValue scope expression = some value) :
    Parts scope (Preserved scope) expression ↔ Parts scope (Safe scope) expression := by
  induction hloaded generalizing context corrected value with
  | leaf hkind htype rawType repr => simp [Parts]
  | @unary type op rawType arg hop htype harg ih =>
      obtain ⟨argContext, hcontext, correctedArg, hcorrectedArg, -⟩ :=
        correctTypes_unary_iff.mp hcorrect
      rw [cValue_unary] at hvalue
      obtain ⟨argValue, hargValue, -⟩ := Option.bind_eq_some_iff.mp hvalue
      rw [parts_unary_iff hcontext, parts_unary_iff hcontext]
      exact everywhere_iff_of_parts harg hcorrectedArg hargValue (ih hcorrectedArg hargValue)
  | @binary type op rawType left right hop htype hleft hright ihLeft ihRight =>
      obtain ⟨leftValue, hleftValue, hrightValue⟩ := cValue_binary_some hvalue
      by_cases hpointer : op = .ptrAdd ∨ op = .ptrSub
      · obtain ⟨-, correctedRight, hcorrectedRight, -⟩ :=
          (correctTypes_pointer_iff hpointer).mp hcorrect
        have hdecided : decidedValue op leftValue = none := by
          rcases hpointer with rfl | rfl <;> rfl
        obtain ⟨rightValue, hrightValue, -⟩ := hrightValue hdecided
        rw [parts_pointer_iff hpointer, parts_pointer_iff hpointer]
        exact everywhere_iff_of_parts hright hcorrectedRight hrightValue
          (ihRight hcorrectedRight hrightValue)
      · obtain ⟨argContext, hcontext, correctedLeft, hcorrectedLeft, correctedRight,
          hcorrectedRight, -⟩ := (correctTypes_binary_iff hpointer).mp hcorrect
        rw [parts_binary_iff hpointer hcontext, parts_binary_iff hpointer hcontext]
        refine and_congr (everywhere_iff_of_parts hleft hcorrectedLeft hleftValue
          (ihLeft hcorrectedLeft hleftValue)) (imp_congr_right fun hdecided => ?_)
        rw [hleftValue, Option.bind_some] at hdecided
        obtain ⟨rightValue, hrightValue, -⟩ := hrightValue hdecided
        exact everywhere_iff_of_parts hright hcorrectedRight hrightValue
          (ihRight hcorrectedRight hrightValue)

end Values

/--
Type correction keeps the meaning of a safe expression, and of every evaluated
part of an expression exactly if all of them are safe.
-/
theorem correctTypes_meaning {json : ExpressionJson} {expression corrected : Expression}
    (scope : Scope) {context : ExprType} {value : Int}
    (hload : convertExpression json = .ok expression)
    (hcorrect : correctTypes expression context = .ok corrected)
    (hvalue : cValue scope expression = some value) :
    (Everywhere scope (Safe scope) expression context →
      ∃ result, cValue scope corrected = some result ∧
        if context = .boolean then (result ≠ 0 ↔ value ≠ 0) else result = value) ∧
    (Everywhere scope (Preserved scope) expression context ↔
      Everywhere scope (Safe scope) expression context) := by
  have hloaded := convertExpression_loaded hload
  have hiff := everywhere_iff_of_parts hloaded hcorrect hvalue
    (parts_preserved_iff hloaded hcorrect hvalue)
  exact ⟨fun hsafe => (hiff.mpr hsafe).1 corrected hcorrect value hvalue, hiff⟩

def smallScope : Scope where
  value name := if name = "x" then 1 else if name = "p" then 8 else 4
  isNull _ := false
  sizeof _ := 4
  literal _ text := if text = "1" then 1 else 0
  literal_zero _ := rfl
  literal_one _ := rfl
  literal_null := rfl
  sizeof_pos _ := by decide

/-- `p - q` for pointers to `int`. -/
def pointerDifference : ExpressionJson :=
  .node "operator" "integer" "long" "-"
    [.leaf "variable" "pointer" "int" "p", .leaf "variable" "pointer" "int" "q"]

/-- In `if (x)` and in an expression `p - q`. -/
theorem meaning_changed :
    (∃ expression corrected, convertExpression (integerVariable "x") = .ok expression ∧
      correctTypes expression .boolean = .ok corrected ∧
      cValue smallScope expression = some 1 ∧ cValue smallScope corrected = some 0) ∧
    ∃ expression corrected, convertExpression pointerDifference = .ok expression ∧
      correctTypes expression .any = .ok corrected ∧
      cValue smallScope expression = some 1 ∧ cValue smallScope corrected = some 4 :=
  ⟨⟨_, _, rfl, rfl, rfl, rfl⟩, ⟨_, _, rfl, rfl, rfl, rfl⟩⟩

theorem correctTypes_meaning_bitTest :
    ∃ expression corrected, convertExpression bitTest = .ok expression ∧
      correctTypes expression .any = .ok corrected ∧
      (Everywhere smallScope (Safe smallScope) expression .any →
        ∃ result, cValue smallScope corrected = some result ∧
          if ExprType.any = .boolean then (result ≠ 0 ↔ (0 : Int) ≠ 0) else result = 0) ∧
      (Everywhere smallScope (Preserved smallScope) expression .any ↔
        Everywhere smallScope (Safe smallScope) expression .any) :=
  ⟨_, _, rfl, rfl, @correctTypes_meaning bitTest _ _ smallScope .any 0 rfl rfl rfl⟩

end F1X
