import F1X.Semantics.RuntimeText

/-!
# The value of a printed patch

The tree that C reads of a printed expression.  It knows of no types, so it has
the value of the expression as long as no pointer is moved by elements.
-/

namespace F1X

open F1X.Library F1X.generator

/-! ## The tree -/

def Expression.printedTree : Expression → CTree
  | ⟨_, _, _, _, repr, args⟩ =>
      match args with
      | [arg] => unaryTree repr arg.printedTree
      | [left, right] => binaryTree left.printedTree repr right.printedTree
      | _ => .operand repr
termination_by structural expression => expression

theorem Expression.Printable.readsAs_printedTree {expression : Expression}
    (h : expression.Printable) :
    ∃ text, expressionText expression = .ok text ∧
      ReadsAs ParsesUnary text expression.printedTree := by
  induction h with
  | leaf kind type rawType hrepr => exact ⟨_, rfl, .ofOperand hrepr⟩
  | @unary type op rawType arg hop harg ih =>
      obtain ⟨argText, htext, hreads⟩ := ih
      obtain ⟨unary, hofText, hunary, -⟩ := exists_unaryOp_text hop
      refine ⟨chars (operatorText op ++ " ") ++ argText, ?_, ?_⟩
      · rw [expressionText, htext]
        rfl
      · rw [Expression.printedTree, unaryTree, hofText, ← hunary]
        exact hreads.unary unary
  | @binary type op rawType left right hop hleft hright ihLeft ihRight =>
      obtain ⟨leftText, htextLeft, hreadsLeft⟩ := ihLeft
      obtain ⟨rightText, htextRight, hreadsRight⟩ := ihRight
      obtain ⟨binary, hofText, hbinary⟩ := exists_binaryOp_text hop
      have hoperation := hreadsLeft.operator binary (hreadsRight.binary _) (Nat.zero_le _)
      refine ⟨chars "(" ++ ((leftText ++ (chars (" " ++ operatorText op ++ " ") ++ rightText)) ++
        chars ")"), ?_, ?_⟩
      · rw [expressionText, htextLeft, htextRight]
        rfl
      · rw [Expression.printedTree, binaryTree, hofText, ← hbinary]
        exact (hoperation.mono fun _ hparse => hparse.conditional).group

/-! ## The value -/

/-- Where the source has a value, the target has it, too; neither raises the flag. -/
def Reproduces {V : Type} (source target : Result V) : Prop :=
  ∀ value raised, source = some (value, raised) → raised = false ∧ target = some (value, false)

section Reproduces

variable {V : Type}

theorem reproduces_quiet (value : Option V) :
    Reproduces (Result.quiet value) (Result.quiet value) := by
  rintro result raised h
  cases value with
  | none => cases h
  | some value =>
      cases h
      exact ⟨rfl, rfl⟩

theorem Reproduces.andThen {source target : Result V} (h : Reproduces source target)
    {next next' : V → Result V} (hnext : ∀ value, Reproduces (next value) (next' value)) :
    Reproduces (source.andThen next) (target.andThen next') := by
  intro value raised hsource
  obtain ⟨first, early, later, hfirst, hlast⟩ := Result.andThen_eq_some hsource
  obtain ⟨rfl, htarget⟩ := h first early hfirst
  obtain ⟨rfl, hfinal⟩ := hnext first value later hlast
  rw [hfirst, Result.andThen_quiet, hlast] at hsource
  cases hsource
  exact ⟨rfl, by rw [htarget, Result.andThen_quiet, hfinal]⟩

end Reproduces

/-- The operands of the text have the values of the leaves, and no pointer is moved. -/
inductive OperandValues {V : Type} (machine : CMachine V) (valuation : Valuation V)
    (read : String → V) : Expression → Prop
  | constant (type : ExprType) {rawType repr : String}
      (hvalue : read repr = machine.literal rawType repr) :
      OperandValues machine valuation read ⟨.constant, type, .none, rawType, repr, []⟩
  | named (type : ExprType) (rawType : String) {repr : String}
      (hvalue : read repr = valuation.value repr) :
      OperandValues machine valuation read ⟨.variable, type, .none, rawType, repr, []⟩
  | dereference (type : ExprType) (rawType : String) {repr : String}
      (hvalue : read repr = valuation.value repr) :
      OperandValues machine valuation read ⟨.dereference, type, .none, rawType, repr, []⟩
  | unary (type : ExprType) {op : Operator} (rawType : String) {arg : Expression}
      (hop : isUnaryOperator op = true) (harg : OperandValues machine valuation read arg) :
      OperandValues machine valuation read
        ⟨.operator, type, op, rawType, operatorText op, [arg]⟩
  | binary (type : ExprType) {op : Operator} (rawType : String) {left right : Expression}
      (hop : isBinaryOperator op = true) (hplain : ¬isPointerArithmetic op)
      (hleft : OperandValues machine valuation read left)
      (hright : OperandValues machine valuation read right) :
      OperandValues machine valuation read
        ⟨.operator, type, op, rawType, operatorText op, [left, right]⟩

theorem OperandValues.reproduces {V : Type} {machine : CMachine V} {valuation : Valuation V}
    {read : String → V} {expression : Expression}
    (hplain : ∀ value, machine.unary .plain value = some value)
    (h : OperandValues machine valuation read expression) (flag : String) :
    Reproduces (evaluate machine valuation expression)
      (expression.printedTree.eval machine flag read) := by
  induction h with
  | constant type hvalue =>
      rintro value raised heval
      cases heval
      exact ⟨rfl, congrArg (fun value => some (value, false)) hvalue⟩
  | named type rawType hvalue =>
      rintro value raised heval
      cases heval
      exact ⟨rfl, congrArg (fun value => some (value, false)) hvalue⟩
  | dereference type rawType hvalue =>
      rintro value raised heval
      simp only [evaluate, evaluateWith, sourceTerm, SourceAtom.ofLeaf, Term.eval,
        Valuation.env] at heval
      split at heval
      · cases heval
      · cases heval
        exact ⟨rfl, congrArg (fun value => some (value, false)) hvalue⟩
  | @unary type op rawType arg hop harg ih =>
      obtain ⟨unary, hofText, -, -⟩ := exists_unaryOp_text hop
      have hunary := ih.andThen fun value => reproduces_quiet (machine.unary unary value)
      simp only [evaluate, evaluateWith, sourceTerm, unaryTerm, hofText, Term.eval,
        Expression.printedTree, unaryTree, UnaryOp.tree] at hunary ⊢
      split
      · rename_i hname
        subst hname
        have hpure : ∀ result : Result V,
            result.andThen (fun value => .quiet (machine.unary .plain value)) = result := by
          rintro (_ | ⟨value, raised⟩)
          · rfl
          · simp [Result.andThen, hplain]
        rw [hpure]
        exact ih
      · exact hunary
  | @binary type op rawType left right hop hpointer hleft hright ihLeft ihRight =>
      obtain ⟨binary, hofText, -⟩ := exists_binaryOp_text hop
      have hmoves : ¬(op = .ptrAdd ∨ op = .ptrSub) := hpointer
      simp only [evaluate, evaluateWith, sourceTerm, if_neg hmoves, binaryTerm, hofText,
        Term.eval, Expression.printedTree, binaryTree, CTree.eval]
      refine Reproduces.andThen ihLeft fun value => ?_
      cases machine.decided binary value with
      | some result => exact reproduces_quiet (some result)
      | none =>
          exact Reproduces.andThen ihRight fun other =>
            reproduces_quiet (machine.binary binary value other)

end F1X
