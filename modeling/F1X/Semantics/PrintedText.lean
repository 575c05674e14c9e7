import F1X.Library.CGrammar
import F1X.Semantics.Translation

/-!
# The text of a patch

`expressionToString` puts parentheses around binary nodes only, prints nothing
for implicit casts and separates by blanks.  The grammar of C reads its text
back, with every leaf taken as one operand.
-/

namespace F1X

open F1X.Library

/-- The symbols of `expressionToString`. -/
def expressionText : Expression → Except Failure (List Symbol)
  | ⟨_, _, _, _, repr, []⟩ => .ok (operand repr)
  | ⟨_, _, _, _, repr, [arg]⟩ => do
      let argText ← expressionText arg
      .ok (chars (repr ++ " ") ++ argText)
  | ⟨_, _, _, _, repr, [left, right]⟩ => do
      let leftText ← expressionText left
      let rightText ← expressionText right
      .ok (chars "(" ++
        ((leftText ++ (chars (" " ++ repr ++ " ") ++ rightText)) ++ chars ")"))
  | _ => .error (.invalidArgument "unsupported expression")

theorem expressionToString_eq (expression : Expression) :
    expressionToString expression = (expressionText expression).map spell := by
  induction expression with
  | node kind type op rawType repr args ih =>
      match args, ih with
      | [], _ => simp [expressionToString, expressionText, Except.map, spell_operand]
      | [arg], ih =>
          rw [expressionToString, expressionText, ih arg (by simp)]
          cases expressionText arg with
          | error failure => rfl
          | ok argText => simp [Except.map, bind, Except.bind, spell_append, spell_chars]
      | [left, right], ih =>
          rw [expressionToString, expressionText, ih left (by simp), ih right (by simp)]
          cases expressionText left with
          | error failure => rfl
          | ok leftText =>
              cases expressionText right with
              | error failure => rfl
              | ok rightText =>
                  simp [Except.map, bind, Except.bind, spell_append, spell_chars,
                    String.append_assoc]
      | _ :: _ :: _ :: _, _ => rfl

/-- Operator nodes with the text of their operator, over leaves that are operands. -/
inductive Expression.Printable : Expression → Prop
  | leaf (kind : NodeKind) (type : ExprType) (rawType : String) {repr : String}
      (hrepr : repr ≠ "") : Printable ⟨kind, type, .none, rawType, repr, []⟩
  | unary (type : ExprType) {op : Operator} (rawType : String) {arg : Expression}
      (hop : isUnaryOperator op = true) (harg : arg.Printable) :
      Printable ⟨.operator, type, op, rawType, operatorText op, [arg]⟩
  | binary (type : ExprType) {op : Operator} (rawType : String) {left right : Expression}
      (hop : isBinaryOperator op = true) (hleft : left.Printable)
      (hright : right.Printable) :
      Printable ⟨.operator, type, op, rawType, operatorText op, [left, right]⟩

/-! ## Trees of texts -/

inductive ReprTree where
  | leaf (repr : String)
  | unary (repr : String) (arg : ReprTree)
  | binary (repr : String) (left right : ReprTree)
  deriving DecidableEq, Repr

def isImplicitCast (op : Operator) : Prop := op = .implicitBvCast ∨ op = .implicitIntCast

instance (op : Operator) : Decidable (isImplicitCast op) :=
  inferInstanceAs (Decidable (_ ∨ _))

def Expression.reprs : Expression → ReprTree
  | ⟨_, _, op, _, repr, args⟩ =>
      match args with
      | [arg] => if isImplicitCast op then arg.reprs else .unary repr arg.reprs
      | [left, right] => .binary repr left.reprs right.reprs
      | _ => .leaf repr
termination_by structural expression => expression

def treeReprs : CTree → Option ReprTree
  | .operand text => some (.leaf text)
  | .unary op arg => (treeReprs arg).map (.unary op.text)
  | .binary op left right => do
      let leftTree ← treeReprs left
      let rightTree ← treeReprs right
      some (.binary op.text leftTree rightTree)
  | _ => none

theorem exists_unaryOp_text {op : Operator} (h : isUnaryOperator op = true) :
    ∃ unary : UnaryOp, UnaryOp.ofText (operatorText op) = some unary ∧
      unary.text = operatorText op ∧ (unary = .plain ↔ isImplicitCast op) := by
  obtain ⟨unary, hunary⟩ := unaryOp_ofText h
  refine ⟨unary, hunary, ?_⟩
  cases op <;> first
    | (cases h; done)
    | (simp [UnaryOp.ofText, operatorText, explicitBvCastType, explicitIntCastType,
        explicitPtrCastType, explicitUnsignedCastType] at hunary
       subst hunary
       exact ⟨rfl, by simp [isImplicitCast]⟩)

theorem exists_binaryOp_text {op : Operator} (h : isBinaryOperator op = true) :
    ∃ binary : BinaryOp, BinaryOp.ofText (operatorText op) = some binary ∧
      binary.text = operatorText op := by
  obtain ⟨binary, hbinary, -⟩ := binaryOp_ofText h
  refine ⟨binary, hbinary, ?_⟩
  cases op <;> first
    | (cases h; done)
    | (simp [BinaryOp.ofText, operatorText] at hbinary
       subst hbinary
       rfl)

theorem Expression.Printable.readsAs {expression : Expression} (h : expression.Printable) :
    ∃ text tree, expressionText expression = .ok text ∧ ReadsAs ParsesUnary text tree ∧
      treeReprs tree = some expression.reprs := by
  induction h with
  | leaf kind type rawType hrepr => exact ⟨_, _, rfl, .ofOperand hrepr, rfl⟩
  | @unary type op rawType arg hop harg ih =>
      obtain ⟨argText, argTree, htext, hreads, hreprs⟩ := ih
      obtain ⟨unary, -, hunary, hplain⟩ := exists_unaryOp_text hop
      refine ⟨_, _, ?_, hreads.unary unary, ?_⟩
      · rw [expressionText, htext, hunary]
        rfl
      · rw [UnaryOp.tree, Expression.reprs]
        by_cases himplicit : isImplicitCast op
        · rw [if_pos (hplain.mpr himplicit), if_pos himplicit, hreprs]
        · rw [if_neg (mt hplain.mp himplicit), if_neg himplicit, treeReprs, hreprs, hunary]
          rfl
  | @binary type op rawType left right hop hleft hright ihLeft ihRight =>
      obtain ⟨leftText, leftTree, htextLeft, hreadsLeft, hreprsLeft⟩ := ihLeft
      obtain ⟨rightText, rightTree, htextRight, hreadsRight, hreprsRight⟩ := ihRight
      obtain ⟨binary, -, hbinary⟩ := exists_binaryOp_text hop
      have hoperation := hreadsLeft.operator binary (hreadsRight.binary _)
        (Nat.zero_le _)
      refine ⟨_, .binary binary leftTree rightTree, ?_,
        (hoperation.mono fun _ hparse => hparse.conditional).group, ?_⟩
      · rw [expressionText, htextLeft, htextRight, hbinary]
        rfl
      · rw [treeReprs, hreprsLeft, hreprsRight, Expression.reprs, hbinary]
        rfl

/--
A printable expression has a text, C reads the whole of it as the tree of the
expression without its implicit casts, and so no other tree has this text.
-/
theorem expressionToString_readable {expression : Expression} (h : expression.Printable) :
    ∃ text, expressionText expression = .ok text ∧
      expressionToString expression = .ok (spell text) ∧
      (∃ tree, readText text = some tree ∧ treeReprs tree = some expression.reprs) ∧
      ∀ other : Expression, other.Printable → expressionText other = .ok text →
        other.reprs = expression.reprs := by
  obtain ⟨text, tree, htext, hreads, hreprs⟩ := h.readsAs
  have hread := hreads.conditional.readText_eq
  refine ⟨text, htext, ?_, ⟨tree, hread, hreprs⟩, ?_⟩
  · rw [expressionToString_eq, htext]
    rfl
  · intro other hother hsame
    obtain ⟨otherText, otherTree, hotherText, hotherReads, hotherReprs⟩ := hother.readsAs
    cases hsame.symm.trans hotherText
    cases hread.symm.trans hotherReads.conditional.readText_eq
    exact Option.some.inj (hotherReprs.symm.trans hreprs)

/-- `x - -y`. -/
def minusNegated : Expression :=
  ⟨.operator, .integer, .sub, "int", "-",
    [⟨.variable, .integer, .none, "int", "x", []⟩,
      ⟨.operator, .integer, .neg, "int", "-",
        [⟨.variable, .integer, .none, "int", "y", []⟩]⟩]⟩

private theorem minusNegated_printable : minusNegated.Printable :=
  .binary _ _ rfl (.leaf _ _ _ (by decide)) (.unary _ _ rfl (.leaf _ _ _ (by decide)))

theorem expressionToString_readable_minusNegated :
    ∃ text, expressionToString minusNegated = .ok "(x - - y)" ∧
      expressionText minusNegated = .ok text ∧
      ∃ tree, readText text = some tree ∧
        treeReprs tree = some (.binary "-" (.leaf "x") (.unary "-" (.leaf "y"))) := by
  obtain ⟨text, htext, -, htree, -⟩ := expressionToString_readable minusNegated_printable
  exact ⟨text, rfl, htext, htree⟩

end F1X
