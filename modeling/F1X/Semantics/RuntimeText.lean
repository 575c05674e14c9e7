import F1X.Library.CTrees
import F1X.Semantics.Faults
import F1X.Semantics.PrintedText

/-!
# The text of the generated code

`runtimeSemantics` writes text, which leaves out parentheses around casts, the
other unary operators, the test of a divisor and the operands of the pointer
formula.  The grammar of C reads it as the tree that the emitted expression
stands for, and the value of this tree is that of the source expression.
-/

namespace F1X

open F1X.Library F1X.generator

namespace generator

/-! ## The text -/

def panicText (pointer : Bool) : List Symbol :=
  chars "(\x7b current_panic = true; " ++
    ((if pointer then chars "(void*) " ++ chars "0" else chars "0") ++ chars "; \x7d)")

def RuntimeExpr.symbols : RuntimeExpr → List Symbol
  | .atom _ _ text => operand text
  | .guardedLoad condition pointer _ text =>
      chars "(" ++ ((operand condition ++ (chars " ? " ++
        (panicText pointer ++ (chars " : " ++ operand text)))) ++ chars ")")
  | .unary text arg => chars (text ++ " ") ++ arg.symbols
  | .binary left text right =>
      chars "(" ++ ((left.symbols ++ (chars (" " ++ text ++ " ") ++ right.symbols)) ++
        chars ")")
  | .guardedDivision left text right =>
      chars "(" ++ (((right.symbols ++ (chars " != " ++ chars "0")) ++ (chars " ? " ++
        ((left.symbols ++ (chars (" " ++ text ++ " ") ++ right.symbols)) ++
          (chars " : " ++ panicText false)))) ++ chars ")")
  | .pointerShift left text size right =>
      chars "(void*) " ++ (chars "(" ++ (((chars "(std::size_t) " ++ left.symbols) ++
        (chars (" " ++ text ++ " ") ++ (operand size ++ (chars " * " ++ right.symbols)))) ++
          chars ")"))

theorem spell_panicText (pointer : Bool) :
    spell (panicText pointer) =
      "(\x7b current_panic = true; " ++ (if pointer then "(void*) 0" else "0") ++
        "; \x7d)" := by
  rw [panicText, spell_append, spell_append, spell_chars, spell_chars]
  cases pointer with
  | false =>
      simp only [Bool.false_eq_true, if_false, spell_chars, String.append_assoc,
        -String.reduceAppend]
  | true =>
      simp only [if_true, spell_append, spell_chars, String.append_assoc,
        -String.reduceAppend]
      rfl

theorem RuntimeExpr.spell_symbols (expr : RuntimeExpr) : spell expr.symbols = expr.text := by
  induction expr with
  | atom kind rawType text => exact spell_operand text
  | guardedLoad condition pointer rawType text =>
      have hload : " ? (\x7b current_panic = true; " =
          " ? " ++ "(\x7b current_panic = true; " := rfl
      change _ = "(" ++ condition ++ " ? (\x7b current_panic = true; " ++ _ ++ "; \x7d)" ++
        " : " ++ text ++ ")"
      rw [hload]
      simp only [symbols, spell_append, spell_chars, spell_operand, spell_panicText,
        String.append_assoc, -String.reduceAppend]
  | unary text arg ih =>
      change _ = text ++ " " ++ arg.text
      rw [symbols, spell_append, spell_chars, ih]
  | binary left text right ihLeft ihRight =>
      change _ = "(" ++ left.text ++ " " ++ text ++ " " ++ right.text ++ ")"
      simp only [symbols, spell_append, spell_chars, ihLeft, ihRight, String.append_assoc,
        -String.reduceAppend]
  | guardedDivision left text right ihLeft ihRight =>
      have htest : " != 0 ? " = " != " ++ ("0" ++ " ? ") := rfl
      have hraise : " : (\x7b current_panic = true; 0; \x7d)" =
          " : " ++ ("(\x7b current_panic = true; " ++ ("0" ++ "; \x7d)")) := rfl
      change _ = "(" ++ right.text ++ " != 0 ? " ++ left.text ++ " " ++ text ++ " " ++
        right.text ++ " : (\x7b current_panic = true; 0; \x7d)" ++ ")"
      rw [htest, hraise]
      simp only [symbols, spell_append, spell_chars, ihLeft, ihRight, spell_panicText,
        Bool.false_eq_true, if_false, String.append_assoc, -String.reduceAppend]
  | pointerShift left text size right ihLeft ihRight =>
      have hopen : "(void*) (" = "(void*) " ++ "(" := rfl
      change _ = "(void*) (" ++ "(std::size_t) " ++ left.text ++ " " ++ text ++ " " ++ size ++
        " * " ++ right.text ++ ")"
      rw [hopen]
      simp only [symbols, spell_append, spell_chars, spell_operand, ihLeft, ihRight,
        String.append_assoc, -String.reduceAppend]

/-! ## The tree -/

def panicTree (pointer : Bool) : CTree :=
  .assign "current_panic" (.name "true")
    (if pointer then .unary (.cast .pointer) (.number "0") else .number "0")

/-- A text that is no operator leaves no tree; the generator writes none. -/
def unaryTree (text : String) (arg : CTree) : CTree :=
  match UnaryOp.ofText text with
  | some op => op.tree arg
  | none => .name text

def binaryTree (left : CTree) (text : String) (right : CTree) : CTree :=
  match BinaryOp.ofText text with
  | some op => .binary op left right
  | none => .name text

def RuntimeExpr.tree : RuntimeExpr → CTree
  | .atom _ _ text => .operand text
  | .guardedLoad condition pointer _ text =>
      .conditional (.operand condition) (panicTree pointer) (.operand text)
  | .unary text arg => unaryTree text arg.tree
  | .binary left text right => binaryTree left.tree text right.tree
  | .guardedDivision left text right =>
      .conditional (.binary .ne right.tree (.number "0"))
        (binaryTree left.tree text right.tree) (panicTree false)
  | .pointerShift left text size right =>
      .unary (.cast .pointer) (binaryTree (.unary (.cast .unsignedLong) left.tree) text
        (.binary .mul (.operand size) right.tree))

theorem readsAs_panic (pointer : Bool) :
    ReadsAs ParsesUnary (panicText pointer) (panicTree pointer) := by
  have hopen : LexesFully (chars "(\x7b current_panic = true; ")
      (.punct .lparen :: .punct .lbrace :: .word "current_panic" :: .punct .assign ::
        [.word "true"] ++ [.punct .semicolon]) := lexesFully_chars rfl
  have htrue : ParsesConditional [.word "true"] (.name "true") :=
    ((parsesUnary_name (by decide)).binary 0).conditional
  cases pointer with
  | false => exact ReadsAs.ofZero.conditional.block hopen htrue
  | true => exact (ReadsAs.ofZero.unary (.cast .pointer)).conditional.block hopen htrue

/-! ## Expressions with defined names -/

/--
A concrete expression whose runtime names, sizes and null flags are defined and
hold what the valuation says of the program.
-/
inductive Passed (names : Naming) (literal : String → String → Int)
    (valuation : Valuation Int) (read : String → Int) : Expression → Prop
  | constant (type : ExprType) {rawType repr : String} (hrepr : repr ≠ "")
      (hvalue : read repr = literal rawType repr) :
      Passed names literal valuation read ⟨.constant, type, .none, rawType, repr, []⟩
  | named (type : ExprType) (rawType : String) {repr : String}
      (hname : names.runtimeReprBySource repr ≠ "")
      (hvalue : read (names.runtimeReprBySource repr) = valuation.value repr) :
      Passed names literal valuation read ⟨.variable, type, .none, rawType, repr, []⟩
  | dereference (type : ExprType) (rawType : String) {repr : String}
      (hname : names.runtimeReprBySource repr ≠ "")
      (hvalue : read (names.runtimeReprBySource repr) = valuation.value repr)
      (hflagName : names.nullDerefByName (names.runtimeReprBySource repr) ≠ "")
      (hflag : read (names.nullDerefByName (names.runtimeReprBySource repr)) =
        ofBool (valuation.isNull repr)) :
      Passed names literal valuation read ⟨.dereference, type, .none, rawType, repr, []⟩
  | unary (type : ExprType) {op : Operator} (rawType : String) {arg : Expression}
      (hop : isUnaryOperator op = true)
      (harg : Passed names literal valuation read arg) :
      Passed names literal valuation read
        ⟨.operator, type, op, rawType, operatorText op, [arg]⟩
  | binary (type : ExprType) {op : Operator} (rawType : String) {left right : Expression}
      (hop : isBinaryOperator op = true)
      (hsizeName : isPointerArithmetic op → names.sizeByType left.rawType ≠ "")
      (hsize : isPointerArithmetic op →
        read (names.sizeByType left.rawType) = valuation.sizeof left.rawType)
      (hleft : Passed names literal valuation read left)
      (hright : Passed names literal valuation read right) :
      Passed names literal valuation read
        ⟨.operator, type, op, rawType, operatorText op, [left, right]⟩

namespace Passed

variable {names : Naming} {literal : String → String → Int} {valuation : Valuation Int}
  {read : String → Int} {expression : Expression}

theorem wellFormed (h : Passed names literal valuation read expression) :
    expression.WellFormed := by
  induction h with
  | constant | named | dereference => exact .leaf _ _ _ _
  | unary type rawType hop _ ih => exact .unary type rawType hop ih
  | binary type rawType hop _ _ _ _ ihLeft ihRight =>
      exact .binary type rawType hop ihLeft ihRight

theorem readsAs (h : Passed names literal valuation read expression) {expr : RuntimeExpr}
    (hexpr : names.runtimeExpr expression = .ok expr) :
    ReadsAs ParsesUnary expr.symbols expr.tree := by
  induction h generalizing expr with
  | constant type hrepr =>
      cases hexpr
      exact .ofOperand hrepr
  | named type rawType hname =>
      cases hexpr
      exact .ofOperand hname
  | dereference type rawType hname _ hflagName =>
      cases hexpr
      exact (((ReadsAs.ofOperand hflagName).binary 0).choose (readsAs_panic _).conditional
        (ReadsAs.ofOperand hname).conditional).group
  | unary type rawType hop _ ih =>
      obtain ⟨argExpr, hargExpr, rfl⟩ := runtimeExpr_unary hop hexpr
      obtain ⟨unary, hofText, htext, -⟩ := exists_unaryOp_text hop
      rw [RuntimeExpr.symbols, RuntimeExpr.tree, unaryTree, hofText, ← htext]
      exact (ih hargExpr).unary unary
  | @binary type op rawType left right hop hsizeName _ _ _ ihLeft ihRight =>
      obtain ⟨binary, hofText, htext⟩ := exists_binaryOp_text hop
      by_cases hpointer : isPointerArithmetic op
      · obtain ⟨leftExpr, rightExpr, hleftExpr, hrightExpr, rfl⟩ :=
          runtimeExpr_shift hpointer hexpr
        have hlevel : binary.level = 9 := by
          rcases hpointer with rfl | rfl <;>
          · cases hofText
            rfl
        have hoffset := (ReadsAs.ofOperand (hsizeName hpointer)).operator .mul
          ((ihRight hrightExpr).binary _) (show binary.level + 1 ≤ 10 by omega)
        have haddress := ((ihLeft hleftExpr).castSize).operator _ hoffset (Nat.zero_le _)
        rw [RuntimeExpr.symbols, RuntimeExpr.tree, binaryTree, hofText, ← htext]
        exact (haddress.mono fun _ hparse => hparse.conditional).group.unary (.cast .pointer)
      · obtain ⟨leftExpr, rightExpr, hleftExpr, hrightExpr, rfl⟩ :=
          runtimeExpr_binary hop hpointer hexpr
        have hoperation := (ihLeft hleftExpr).operator binary
          ((ihRight hrightExpr).binary _) (Nat.zero_le _)
        have hconditional := hoperation.mono fun _ hparse => hparse.conditional
        split
        · have htest := (ihRight hrightExpr).operator .ne (ReadsAs.ofZero.binary _)
            (Nat.zero_le _)
          rw [RuntimeExpr.symbols, RuntimeExpr.tree, binaryTree, hofText, ← htext]
          exact (htest.choose hconditional (readsAs_panic false).conditional).group
        · rw [RuntimeExpr.symbols, RuntimeExpr.tree, binaryTree, hofText, ← htext]
          exact hconditional.group

def tokenEnv (literal : String → String → Int) (read : String → Int) :
    RuntimeAtom → Result Int
  | .constant rawType text => some (literal rawType text, false)
  | .name text => some (read text, false)
  | .parameter | .bool2 | .illegal => none

private theorem carries (h : Passed names literal valuation read expression) :
    Carries (integers literal) valuation none none names (tokenEnv literal read)
      expression := by
  induction h with
  | constant type => exact .constant type rfl
  | named type rawType _ hvalue =>
      exact .named type rawType (congrArg (fun value => some (value, false)) hvalue)
  | dereference type rawType _ hvalue _ hflag =>
      exact .dereference type rawType (congrArg (fun value => some (value, false)) hvalue)
        (congrArg (fun value => some (value, false)) hflag)
  | unary type rawType hop _ ih => exact .unary type rawType hop ih
  | binary type rawType hop _ hsize _ _ ihLeft ihRight =>
      exact .binary type rawType hop
        (fun hpointer => congrArg (fun value => some (value, false)) (hsize hpointer))
        ihLeft ihRight

theorem eval_panic (hzero : literal "int" "0" = 0) (pointer : Bool) :
    (panicTree pointer).eval (integers literal) "current_panic" read = some (0, true) := by
  cases pointer <;>
    simp [panicTree, CTree.eval, integers, Result.andThen, ofBool, hzero, Integers.unary]

private theorem eval_unary_congr {env : RuntimeAtom → Result Int} {arg : CTree}
    {argTerm : CTerm RuntimeAtom} (op : UnaryOp)
    (h : arg.eval (integers literal) "current_panic" read =
      argTerm.eval (integers literal).toMachine env) :
    (CTree.unary op arg).eval (integers literal) "current_panic" read =
      (Term.unary op argTerm).eval (integers literal).toMachine env := by
  rw [CTree.eval, Term.eval, h]

private theorem eval_binary_congr {env : RuntimeAtom → Result Int} {left right : CTree}
    {leftTerm rightTerm : CTerm RuntimeAtom} (op : BinaryOp)
    (hleft : left.eval (integers literal) "current_panic" read =
      leftTerm.eval (integers literal).toMachine env)
    (hright : right.eval (integers literal) "current_panic" read =
      rightTerm.eval (integers literal).toMachine env) :
    (CTree.binary op left right).eval (integers literal) "current_panic" read =
      (Term.binary op leftTerm rightTerm).eval (integers literal).toMachine env := by
  rw [CTree.eval, Term.eval, hleft]
  refine congrArg _ (funext fun value => ?_)
  cases (integers literal).decided op value with
  | some result => rfl
  | none => exact congrArg (Result.andThen · _) hright

private theorem eval_tree (hzero : literal "int" "0" = 0)
    (h : Passed names literal valuation read expression) {expr : RuntimeExpr}
    (hexpr : names.runtimeExpr expression = .ok expr) :
    expr.tree.eval (integers literal) "current_panic" read =
      expr.term.eval (integers literal).toMachine (tokenEnv literal read) := by
  induction h generalizing expr with
  | constant type hrepr hvalue =>
      cases hexpr
      exact congrArg (fun value => some (value, false)) hvalue
  | named type rawType =>
      cases hexpr
      rfl
  | dereference type rawType =>
      cases hexpr
      simp only [RuntimeExpr.tree, RuntimeExpr.term, CTree.eval, Term.eval, tokenEnv,
        eval_panic hzero]
      rfl
  | unary type rawType hop _ ih =>
      obtain ⟨argExpr, hargExpr, rfl⟩ := runtimeExpr_unary hop hexpr
      obtain ⟨unary, hofText, -, -⟩ := exists_unaryOp_text hop
      simp only [RuntimeExpr.tree, RuntimeExpr.term, unaryTree, unaryTerm, hofText,
        Term.eval, ← ih hargExpr, UnaryOp.tree]
      split
      · rename_i hplain
        subst hplain
        cases argExpr.tree.eval (integers literal) "current_panic" read <;>
          simp [Result.andThen, integers, Integers.unary]
      · rfl
  | @binary type op rawType left right hop _ _ _ _ ihLeft ihRight =>
      obtain ⟨binary, hofText, -⟩ := exists_binaryOp_text hop
      by_cases hpointer : isPointerArithmetic op
      · obtain ⟨leftExpr, rightExpr, hleftExpr, hrightExpr, rfl⟩ :=
          runtimeExpr_shift hpointer hexpr
        simp only [RuntimeExpr.tree, RuntimeExpr.term, binaryTree, pointerTerm, hofText,
          shiftTerm]
        have haddress := eval_unary_congr (.cast .unsignedLong) (ihLeft hleftExpr)
        refine eval_unary_congr _ (eval_binary_congr _ haddress (eval_binary_congr _ ?_ ?_))
        · rw [CTree.eval, Term.eval, tokenEnv]
        · exact ihRight hrightExpr
      · obtain ⟨leftExpr, rightExpr, hleftExpr, hrightExpr, rfl⟩ :=
          runtimeExpr_binary hop hpointer hexpr
        split
        · simp only [RuntimeExpr.tree, RuntimeExpr.term, binaryTree, binaryTerm, hofText,
            CTree.eval, Term.eval, ihLeft hleftExpr, ihRight hrightExpr, tokenEnv,
            eval_panic hzero]
          rfl
        · simp only [RuntimeExpr.tree, RuntimeExpr.term, binaryTree, binaryTerm, hofText]
          exact eval_binary_congr binary (ihLeft hleftExpr) (ihRight hrightExpr)

end Passed

/--
The text emitted for a concrete expression is read as a tree that always has a
value, raises the flag exactly where the expression is undefined, and has the
value of the expression elsewhere.
-/
theorem runtimeSemantics_correct {names : Naming} {literal : String → String → Int}
    (hzero : literal "int" "0" = 0) {valuation : Valuation Int} {read : String → Int}
    {expression : Expression} (h : Passed names literal valuation read expression) :
    ∃ expr tree value raised, names.runtimeExpr expression = .ok expr ∧
      spell expr.symbols = expr.text ∧ readText expr.symbols = some tree ∧
      tree.eval (integers literal) "current_panic" read = some (value, raised) ∧
      (raised = true ↔ evaluate (integers literal) valuation expression = none) ∧
      ∀ result quiet, evaluate (integers literal) valuation expression = some (result, quiet) →
        value = result := by
  obtain ⟨expr, hexpr⟩ := runtimeSemantics_total names.sizeByType names.nullDerefByName
    (substituteWithRuntimeRepr_wellFormed names.runtimeReprBySource h.wellFormed)
  have hguarded : Guarded True (evaluate (integers literal) valuation expression)
      (expr.tree.eval (integers literal) "current_panic" read) := by
    rw [h.eval_tree hzero hexpr]
    exact h.carries.guarded (integers_lawful hzero) (fun _ => integers_total hzero) rfl hexpr
  have hread := (h.readsAs hexpr).conditional.readText_eq
  cases hsource : evaluate (integers literal) valuation expression with
  | none =>
      obtain ⟨value, hvalue⟩ := hguarded.faults trivial hsource
      exact ⟨expr, _, value, true, hexpr, expr.spell_symbols, hread, hvalue, by simp, by simp⟩
  | some pair =>
      obtain ⟨value, quiet⟩ := pair
      obtain ⟨rfl, hvalue⟩ := hguarded.eq_some hsource
      refine ⟨expr, _, value, false, hexpr, expr.spell_symbols, hread, hvalue, by simp, ?_⟩
      rintro result quiet heq
      cases heq
      rfl

/-- `x / p->count`. -/
def quotient : Expression :=
  ⟨.operator, .integer, .div, "int", "/",
    [⟨.variable, .integer, .none, "int", "x", []⟩,
      ⟨.dereference, .integer, .none, "int", "p->count", []⟩]⟩

def quotientNames : Naming where
  runtimeReprBySource := .ofEntries [("x", "__int_vals[0]"), ("p->count", "__int_vals[1]")]
  sizeByType := .ofEntries []
  nullDerefByName := .ofEntries [("__int_vals[1]", "__nullderef[0]")]

def quotientScope : Valuation Int where
  value name := if name = "x" then 7 else 0
  isNull name := name = "p->count"
  sizeof _ := 4

def quotientRead (text : String) : Int :=
  if text = "__int_vals[0]" then 7 else if text = "__nullderef[0]" then 1 else 0

private theorem quotient_passed :
    Passed quotientNames decimal quotientScope quotientRead quotient :=
  .binary _ _ rfl (by simp [isPointerArithmetic]) (by simp [isPointerArithmetic])
    (.named _ _ (by decide) (by decide))
    (.dereference _ _ (by decide) (by decide) (by decide) (by decide))

theorem runtimeSemantics_correct_quotient :
    ∃ expr tree value, quotientNames.runtimeExpr quotient = .ok expr ∧
      readText expr.symbols = some tree ∧
      tree.eval (integers decimal) "current_panic" quotientRead = some (value, true) := by
  obtain ⟨expr, tree, value, raised, hexpr, -, htree, hvalue, hraised, -⟩ :=
    runtimeSemantics_correct (decimal_toString 0) quotient_passed
  cases hraised.mpr rfl
  exact ⟨expr, tree, value, hexpr, htree, hvalue⟩

end generator

end F1X
