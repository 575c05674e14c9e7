import F1X.Library.TreeEdits
import F1X.Synthesis.WellFormed
import F1X.Transform.MatchedPositions

/-!
# The expressions of the matches

`StmtToJSON` keeps its results on a stack and pushes nothing for a node that it
does not know.  On what the matchers bind it misses no result, and what it writes
is loaded again, unless it comes to one of the nodes that only the compiler looks
through.
-/

namespace F1X

open Library

namespace SearchSpaceMatchers

open LabelledTree

/-! ## The visitor -/

def operatorNode (type : CType) (opcode : String) (args : List ExpressionJson) : ExpressionJson :=
  .node "operator" type.typeStr type.rawType opcode args

/-- A unary operator counts as an integer, whatever its type. -/
def unaryNode (type : CType) (opcode : String) (arg : ExpressionJson) : ExpressionJson :=
  .node "operator" "integer" (clangKindToString type.builtinKind) opcode [arg]

def popBinary (type : CType) (opcode : String) :
    List ExpressionJson → Option (List ExpressionJson)
  | right :: left :: path => some (operatorNode type opcode [left, right] :: path)
  | _ => none

def popUnary (type : CType) (opcode : String) :
    List ExpressionJson → Option (List ExpressionJson)
  | arg :: path => some (unaryNode type opcode arg :: path)
  | _ => none

/-- `Visit`: the stack afterwards; `none` when an empty stack is popped. -/
def visit : ClangStmt → List ExpressionJson → Option (List ExpressionJson)
  | .node (.declRefExpr _ type text) _, path =>
      some (stmtToJSON (.declRef type.type.ctype text) :: path)
  | .node (.memberExpr type isArrow text) _, path =>
      some (stmtToJSON (.member type.type.ctype isArrow text) :: path)
  | .node (.arraySubscriptExpr type text) _, path =>
      some (stmtToJSON (.arraySubscript type.type.ctype text) :: path)
  | .node (.cStyleCastExpr type text) _, path =>
      some (stmtToJSON (.cast type.type.ctype text) :: path)
  | .node (.integerLiteral kind _ text) _, path =>
      some (stmtToJSON (.integerLiteral kind text) :: path)
  | .node (.characterLiteral text) _, path =>
      some (stmtToJSON (.characterLiteral text) :: path)
  | .node (.implicitCastExpr _) [sub], path => visit sub path
  | .node .parenExpr [sub], path => visit sub path
  | .node (.extensionExpr type) [sub], path =>
      (visit sub path).bind (popUnary type.type.ctype "__extension__")
  | .node (.unaryOperator type opcode) [sub], path =>
      (visit sub path).bind (popUnary type.type.ctype opcode.text)
  | .node (.otherUnary type opcode) [sub], path =>
      (visit sub path).bind (popUnary type.type.ctype opcode)
  | .node (.binaryOperator type opcode) [lhs, rhs], path =>
      ((visit lhs path).bind (visit rhs)).bind (popBinary type.type.ctype opcode.text)
  | .node (.assignment type opcode) [lhs, rhs], path
  | .node (.otherBinary type opcode) [lhs, rhs], path =>
      ((visit lhs path).bind (visit rhs)).bind (popBinary type.type.ctype opcode)
  -- the visitor has no method for the node
  | _, path => some path

/-- `getValue`, which asserts that the stack has one element. -/
def visitedValue (stmt : ClangStmt) : Option ExpressionJson :=
  match visit stmt [] with
  | some [json] => some json
  | _ => none

/-- Nothing is written for the node that can be loaded. -/
def isUnwritten : StmtKind → Bool
  | .extensionExpr _ => true
  | kind => isSelection kind

def visitsChildren : StmtKind → Bool
  | .implicitCastExpr _ | .parenExpr | .extensionExpr _ | .unaryOperator _ _ | .otherUnary _ _
  | .binaryOperator _ _ | .assignment _ _ | .otherBinary _ _ => true
  | _ => false

/-- The visitor comes to a node of the kind. -/
def visits (kind : StmtKind → Bool) (stmt : ClangStmt) : Bool :=
  fold (fun label below => kind label || visitsChildren label && below.any id) stmt

theorem visits_node (kind : StmtKind → Bool) (label : StmtKind) (children : List ClangStmt) :
    visits kind (.node label children) =
      (kind label || visitsChildren label && children.any (visits kind)) := by
  rw [visits, fold_node, List.any_map]
  rfl

/-! ## The expression of a node -/

def toStmt : ClangStmt → Option Stmt
  | .node (.declRefExpr _ type text) _ => some (.declRef type.type.ctype text)
  | .node (.memberExpr type isArrow text) _ => some (.member type.type.ctype isArrow text)
  | .node (.arraySubscriptExpr type text) _ => some (.arraySubscript type.type.ctype text)
  | .node (.cStyleCastExpr type text) _ => some (.cast type.type.ctype text)
  | .node (.integerLiteral kind _ text) _ => some (.integerLiteral kind text)
  | .node (.characterLiteral text) _ => some (.characterLiteral text)
  | .node (.implicitCastExpr type) [sub] => (toStmt sub).map (.implicitCast type.type.ctype)
  | .node .parenExpr [sub] => (toStmt sub).map .paren
  | .node (.unaryOperator type opcode) [sub] =>
      (toStmt sub).map (.unaryOperator type.type.ctype opcode)
  | .node (.binaryOperator type opcode) [lhs, rhs] =>
      (toStmt lhs).bind fun left =>
        (toStmt rhs).map fun right => .binaryOperator type.type.ctype opcode left right
  | _ => none

/-- The visitor pushes what the recursive function returns. -/
theorem visit_eq {stmt : ClangStmt} {s : Stmt} (h : toStmt stmt = some s)
    (path : List ExpressionJson) : visit stmt path = some (stmtToJSON s :: path) := by
  fun_induction toStmt stmt generalizing s path with
  | case1 | case2 | case3 | case4 | case5 | case6 =>
      cases h
      rfl
  | case7 type sub ih | case8 sub ih =>
      obtain ⟨inner, hinner, rfl⟩ := Option.map_eq_some_iff.mp h
      exact ih hinner path
  | case9 type opcode sub ih =>
      obtain ⟨inner, hinner, rfl⟩ := Option.map_eq_some_iff.mp h
      rw [visit, ih hinner path]
      rfl
  | case10 type opcode lhs rhs ihl ihr =>
      obtain ⟨left, hleft, h⟩ := Option.bind_eq_some_iff.mp h
      obtain ⟨right, hright, rfl⟩ := Option.map_eq_some_iff.mp h
      rw [visit, ihl hleft path, Option.bind_some, ihr hright]
      rfl
  | case11 => cases h

/-! ## Loading what was written -/

theorem exists_convertArguments {json : List ExpressionJson}
    (h : ∀ arg ∈ json, ∃ expression, convertExpression arg = .ok expression) :
    ∃ args, convertArguments json = .ok args := by
  induction json with
  | nil => exact ⟨[], rfl⟩
  | cons arg json ih =>
      obtain ⟨expression, hexpression⟩ := h arg List.mem_cons_self
      obtain ⟨args, hargs⟩ := ih fun other hother => h other (List.mem_cons_of_mem arg hother)
      exact ⟨expression :: args, by rw [convertArguments, hexpression, hargs]; rfl⟩

theorem exists_convertNode {typeStr rawType repr : String} {args : List ExpressionJson}
    {op : Operator} {type : ExprType} {converted : List Expression}
    (hop : operatorByArity args.length repr (approxType typeStr) = .ok op)
    (htype : operatorOutputType op = .ok type) (hargs : convertArguments args = .ok converted) :
    convertExpression (.node "operator" typeStr rawType repr args) =
      .ok ⟨.operator, type, op, rawType, repr, converted⟩ := by
  rw [convertExpression]
  refine bind_eq_ok_iff.mpr ⟨.operator, rfl, bind_eq_ok_iff.mpr ⟨op, hop, ?_⟩⟩
  exact bind_eq_ok_iff.mpr ⟨type, htype, bind_eq_ok_iff.mpr ⟨converted, hargs, rfl⟩⟩

private theorem exists_outputType_unary (opcode : UnaryOpcode) :
    ∃ type, operatorOutputType opcode.operator = .ok type := by
  cases opcode <;> exact ⟨_, rfl⟩

private theorem exists_outputType_binary (pointer : Bool) (opcode : BinaryOpcode) :
    ∃ type, operatorOutputType (opcode.operator pointer) = .ok type := by
  cases pointer <;> cases opcode <;> exact ⟨_, rfl⟩

private theorem exists_convertExpression (stmt : Stmt) :
    ∃ expression, convertExpression (stmtToJSON stmt) = .ok expression := by
  induction stmt with
  | declRef | arraySubscript | cast | integerLiteral | characterLiteral => exact ⟨_, rfl⟩
  | member type isArrow text => cases isArrow <;> exact ⟨_, rfl⟩
  | implicitCast type subExpr ih | paren subExpr ih => exact ih
  | unaryOperator type opcode subExpr ih =>
      obtain ⟨args, hargs⟩ : ∃ args, convertArguments [stmtToJSON subExpr] = .ok args :=
        exists_convertArguments (by simpa using ih)
      obtain ⟨output, houtput⟩ := exists_outputType_unary opcode
      exact ⟨_, exists_convertNode (unaryOperatorByString_opcode opcode) houtput hargs⟩
  | binaryOperator type opcode lhs rhs ihl ihr =>
      obtain ⟨args, hargs⟩ :
          ∃ args, convertArguments [stmtToJSON lhs, stmtToJSON rhs] = .ok args :=
        exists_convertArguments (by simp [ihl, ihr])
      obtain ⟨output, houtput⟩ := exists_outputType_binary type.isPointerType opcode
      exact ⟨_, exists_convertNode (binaryOperatorByString_opcode type opcode) houtput hargs⟩

/-! ## What the matchers bind -/

/-- All nodes are repairable when they are looked through. -/
structure RepairableTree (stmt : ClangStmt) : Prop where
  shaped : ShapedTree stmt
  repairable : ∀ position found, stmt.subtree position = some found →
    isRepairableNode (ignoringParenImpCasts found) = true

namespace RepairableTree

theorem child {label : StmtKind} {children : List ClangStmt}
    (h : RepairableTree (.node label children)) {child : ClangStmt} (hchild : child ∈ children) :
    RepairableTree child := by
  obtain ⟨index, hindex⟩ := List.getElem?_of_mem hchild
  have hat : (LabelledTree.node label children).subtree [index] = some child :=
    subtree_cons_eq_some.mpr ⟨child, hindex, subtree_nil child⟩
  refine ⟨h.shaped.below hat, fun position found hfound => ?_⟩
  exact h.repairable (index :: position) found (subtree_cons_eq_some.mpr ⟨child, hindex, hfound⟩)

theorem only_child {label : StmtKind} {children : List ClangStmt} {expressions : Bool}
    (h : (decide (children.length = 1) && expressions) = true)
    (htree : RepairableTree (.node label children)) :
    ∃ sub, children = [sub] ∧ RepairableTree sub := by
  obtain ⟨sub, rfl⟩ :=
    List.length_eq_one_iff.mp (of_decide_eq_true (Bool.and_eq_true_iff.mp h).1)
  exact ⟨sub, rfl, htree.child (List.mem_singleton_self sub)⟩

theorem two_children {label : StmtKind} {children : List ClangStmt} {expressions : Bool}
    (h : (decide (children.length = 2) && expressions) = true)
    (htree : RepairableTree (.node label children)) :
    ∃ lhs rhs, children = [lhs, rhs] ∧ RepairableTree lhs ∧ RepairableTree rhs := by
  obtain ⟨lhs, rhs, rfl⟩ :=
    List.length_eq_two.mp (of_decide_eq_true (Bool.and_eq_true_iff.mp h).1)
  exact ⟨lhs, rhs, rfl, htree.child List.mem_cons_self,
    htree.child (List.mem_cons_of_mem lhs List.mem_cons_self)⟩

end RepairableTree

private theorem exists_toStmt {stmt : ClangStmt} (htree : RepairableTree stmt)
    (hwritten : visits isUnwritten stmt = false) : ∃ s, toStmt stmt = some s := by
  induction stmt using LabelledTree.induct with
  | node label children ih =>
      have hshaped := htree.shaped [] _ rfl
      have hroot := htree.repairable [] _ rfl
      rw [visits_node, Bool.or_eq_false_iff] at hwritten
      have hchild : visitsChildren label = true →
          ∀ child ∈ children, ∃ s, toStmt child = some s := by
        intro hlabel child hchild
        rw [hlabel, Bool.true_and, List.any_eq_false] at hwritten
        exact ih child hchild (htree.child hchild) (by simpa using hwritten.2 child hchild)
      cases label with
      | declRefExpr | integerLiteral | characterLiteral | memberExpr | arraySubscriptExpr
      | cStyleCastExpr => exact ⟨_, rfl⟩
      | extensionExpr _ | genericSelectionExpr _ | chooseExpr _ => cases hwritten.1
      | implicitCastExpr _ | parenExpr | unaryOperator _ _ =>
          obtain ⟨sub, rfl, -⟩ := RepairableTree.only_child hshaped htree
          obtain ⟨inner, hinner⟩ := hchild rfl sub List.mem_cons_self
          exact ⟨_, by rw [toStmt, hinner, Option.map_some]⟩
      | binaryOperator type opcode =>
          obtain ⟨lhs, rhs, rfl, -⟩ := RepairableTree.two_children hshaped htree
          obtain ⟨left, hleft⟩ := hchild rfl lhs List.mem_cons_self
          obtain ⟨right, hright⟩ := hchild rfl rhs (List.mem_cons_of_mem lhs List.mem_cons_self)
          exact ⟨_, by rw [toStmt, hleft, Option.bind_some, hright, Option.map_some]⟩
      | _ => cases hroot

theorem args_of_convertExpression {typeStr rawType repr : String} {args : List ExpressionJson}
    {expression : Expression}
    (h : convertExpression (.node "operator" typeStr rawType repr args) = .ok expression) :
    (∃ op, operatorByArity args.length repr (approxType typeStr) = .ok op) ∧
      ∃ converted, convertArguments args = .ok converted := by
  rw [convertExpression] at h
  obtain ⟨kind, hkind, h⟩ := bind_eq_ok_iff.mp h
  obtain rfl := Except.ok.inj hkind
  obtain ⟨op, hop, h⟩ := bind_eq_ok_iff.mp h
  obtain ⟨type, -, h⟩ := bind_eq_ok_iff.mp h
  obtain ⟨converted, hconverted, -⟩ := bind_eq_ok_iff.mp h
  exact ⟨⟨op, hop⟩, converted, hconverted⟩

theorem loaded_of_convertArguments {args : List ExpressionJson} {converted : List Expression}
    (h : convertArguments args = .ok converted) {arg : ExpressionJson} (harg : arg ∈ args) :
    ∃ expression, convertExpression arg = .ok expression := by
  induction args generalizing converted with
  | nil => cases harg
  | cons first args ih =>
      rw [convertArguments] at h
      obtain ⟨expression, hexpression, h⟩ := bind_eq_ok_iff.mp h
      obtain ⟨rest, hrest, -⟩ := bind_eq_ok_iff.mp h
      rcases List.mem_cons.mp harg with rfl | harg
      · exact ⟨expression, hexpression⟩
      · exact ih hrest harg

/-- Without selections one result is pushed; it is loaded only if nothing is unwritten. -/
theorem visit_of_selectionFree {stmt : ClangStmt} (htree : RepairableTree stmt)
    (hfree : visits isSelection stmt = false) :
    ∃ json, (∀ path, visit stmt path = some (json :: path)) ∧
      ∀ expression, convertExpression json = .ok expression → visits isUnwritten stmt = false := by
  induction stmt using LabelledTree.induct with
  | node label children ih =>
      have hshaped := htree.shaped [] _ rfl
      have hroot := htree.repairable [] _ rfl
      rw [visits_node, Bool.or_eq_false_iff] at hfree
      have hchild : visitsChildren label = true → ∀ child ∈ children, ∃ json,
          (∀ path, visit child path = some (json :: path)) ∧ ∀ expression,
            convertExpression json = .ok expression → visits isUnwritten child = false := by
        intro hlabel child hchild
        rw [hlabel, Bool.true_and, List.any_eq_false] at hfree
        exact ih child hchild (htree.child hchild) (by simpa using hfree.2 child hchild)
      rw [visits_node]
      cases label with
      | declRefExpr | integerLiteral | characterLiteral | memberExpr | arraySubscriptExpr
      | cStyleCastExpr => exact ⟨_, fun _ => rfl, fun _ _ => rfl⟩
      | genericSelectionExpr _ | chooseExpr _ => cases hfree.1
      | implicitCastExpr _ | parenExpr =>
          obtain ⟨sub, rfl, -⟩ := RepairableTree.only_child hshaped htree
          obtain ⟨json, hvisit, hload⟩ := hchild rfl sub List.mem_cons_self
          refine ⟨json, hvisit, fun expression hexpression => ?_⟩
          rw [List.any_cons, hload expression hexpression]
          rfl
      | extensionExpr type =>
          obtain ⟨sub, rfl, -⟩ := RepairableTree.only_child hshaped htree
          obtain ⟨json, hvisit, -⟩ := hchild rfl sub List.mem_cons_self
          refine ⟨_, fun path => by rw [visit, hvisit path]; rfl, fun expression hexpression => ?_⟩
          -- no unary operator has this text
          obtain ⟨⟨op, hop⟩, -⟩ := args_of_convertExpression hexpression
          cases hop
      | unaryOperator type opcode =>
          obtain ⟨sub, rfl, -⟩ := RepairableTree.only_child hshaped htree
          obtain ⟨json, hvisit, hload⟩ := hchild rfl sub List.mem_cons_self
          refine ⟨_, fun path => by rw [visit, hvisit path]; rfl, fun expression hexpression => ?_⟩
          obtain ⟨-, converted, hconverted⟩ := args_of_convertExpression hexpression
          obtain ⟨arg, harg⟩ := loaded_of_convertArguments hconverted List.mem_cons_self
          rw [List.any_cons, hload arg harg]
          rfl
      | binaryOperator type opcode =>
          obtain ⟨lhs, rhs, rfl, -⟩ := RepairableTree.two_children hshaped htree
          obtain ⟨left, hleft, hloadLeft⟩ := hchild rfl lhs List.mem_cons_self
          obtain ⟨right, hright, hloadRight⟩ :=
            hchild rfl rhs (List.mem_cons_of_mem lhs List.mem_cons_self)
          refine ⟨operatorNode type.type.ctype opcode.text [left, right], fun path => ?_,
            fun expression hexpression => ?_⟩
          · rw [visit, hleft path, Option.bind_some, hright]
            rfl
          · obtain ⟨-, converted, hconverted⟩ := args_of_convertExpression hexpression
            obtain ⟨first, hfirst⟩ := loaded_of_convertArguments hconverted List.mem_cons_self
            obtain ⟨second, hsecond⟩ := loaded_of_convertArguments hconverted
              (List.mem_cons_of_mem _ List.mem_cons_self)
            rw [List.any_cons, List.any_cons, hloadLeft first hfirst, hloadRight second hsecond]
            rfl
      | _ => cases hroot

private theorem length_of_popUnary {type : CType} {opcode : String}
    {path after : List ExpressionJson}
    (h : popUnary type opcode path = some after) : after.length = path.length := by
  cases path with
  | nil => cases h
  | cons arg path =>
      obtain rfl := Option.some.inj h
      rfl

private theorem length_of_popBinary {type : CType} {opcode : String}
    {path after : List ExpressionJson}
    (h : popBinary type opcode path = some after) : after.length + 1 = path.length := by
  match path, h with
  | right :: left :: path, h =>
      obtain rfl := Option.some.inj h
      rfl

/-- For a selection the visitor pushes nothing, and no other node makes up for it. -/
theorem length_of_selection {stmt : ClangStmt} (htree : RepairableTree stmt)
    (hselection : visits isSelection stmt = true) {path after : List ExpressionJson}
    (hvisit : visit stmt path = some after) : after.length ≤ path.length := by
  induction stmt using LabelledTree.induct generalizing path after with
  | node label children ih =>
      have hshaped := htree.shaped [] _ rfl
      have hroot := htree.repairable [] _ rfl
      have hlength : ∀ child ∈ children, ∀ path after, visit child path = some after →
          after.length ≤ path.length + 1 ∧
            (visits isSelection child = true → after.length ≤ path.length) := by
        intro child hchild path after hvisit
        refine ⟨?_, fun h => ih child hchild (htree.child hchild) h hvisit⟩
        cases h : visits isSelection child with
        | true => exact (ih child hchild (htree.child hchild) h hvisit).trans (Nat.le_succ _)
        | false =>
            obtain ⟨json, hpush, -⟩ := visit_of_selectionFree (htree.child hchild) h
            obtain rfl := Option.some.inj ((hpush path).symm.trans hvisit)
            rfl
      rw [visits_node] at hselection
      cases label with
      | declRefExpr | integerLiteral | characterLiteral | memberExpr | arraySubscriptExpr
      | cStyleCastExpr => cases hselection
      | genericSelectionExpr _ | chooseExpr _ =>
          obtain rfl := Option.some.inj hvisit
          exact le_rfl
      | implicitCastExpr _ | parenExpr =>
          obtain ⟨sub, rfl, -⟩ := RepairableTree.only_child hshaped htree
          have hsub : visits isSelection sub = true := by
            simpa [isSelection, visitsChildren] using hselection
          exact (hlength sub List.mem_cons_self path after hvisit).2 hsub
      | extensionExpr _ | unaryOperator _ _ =>
          obtain ⟨sub, rfl, -⟩ := RepairableTree.only_child hshaped htree
          have hsub : visits isSelection sub = true := by
            simpa [isSelection, visitsChildren] using hselection
          rw [visit] at hvisit
          obtain ⟨between, hbetween, hpop⟩ := Option.bind_eq_some_iff.mp hvisit
          rw [length_of_popUnary hpop]
          exact (hlength sub List.mem_cons_self path between hbetween).2 hsub
      | binaryOperator _ _ =>
          obtain ⟨lhs, rhs, rfl, -⟩ := RepairableTree.two_children hshaped htree
          rw [visit] at hvisit
          obtain ⟨both, hboth, hpop⟩ := Option.bind_eq_some_iff.mp hvisit
          obtain ⟨left, hleft, hright⟩ := Option.bind_eq_some_iff.mp hboth
          have hpopped := length_of_popBinary hpop
          obtain ⟨hlhs, hlhsSelection⟩ := hlength lhs List.mem_cons_self path left hleft
          obtain ⟨hrhs, hrhsSelection⟩ :=
            hlength rhs (List.mem_cons_of_mem lhs List.mem_cons_self) left both hright
          have hside : visits isSelection lhs = true ∨ visits isSelection rhs = true := by
            simpa [isSelection, visitsChildren] using hselection
          rcases hside with hside | hside
          · have := hlhsSelection hside
            omega
          · have := hrhsSelection hside
            omega
      | _ => cases hroot

/--
A bound expression is written without a missing result and loaded if and only if
the visitor comes to no node that only the compiler looks through.
-/
theorem bound_expression_loaded (unit : TranslationUnit) {position : Position}
    (h : position ∈ expressionMatches unit.root) :
    ∃ stmt, unit.root.subtree position = some stmt ∧
      ((∃ json expression, visitedValue stmt = some json ∧
        convertExpression json = .ok expression ∧ expression.Loaded) ↔
          visits isUnwritten stmt = false) := by
  obtain ⟨m, rfl, -⟩ := matched_of_mem unit.shapedTree h
  have hshaped := unit.shapedTree.below m.subtree_position
  have htree : RepairableTree (ignoringParenImpCasts m.child) :=
    ⟨hshaped, fun position found hfound =>
      (repairable_below hshaped m.isBase (ignoringParenImpCasts_idempotent m.child) hfound).2⟩
  refine ⟨_, m.subtree_position, ?_, fun hwritten => ?_⟩
  · rintro ⟨json, expression, hvalue, hload, -⟩
    cases hselection : visits isSelection (ignoringParenImpCasts m.child) with
    | false =>
        obtain ⟨pushed, hpush, hloaded⟩ := visit_of_selectionFree htree hselection
        rw [visitedValue, hpush []] at hvalue
        obtain rfl := Option.some.inj hvalue
        exact hloaded expression hload
    | true =>
        unfold visitedValue at hvalue
        split at hvalue
        · rename_i hvisit
          exact absurd (length_of_selection htree hselection hvisit) (by simp)
        · cases hvalue
  · obtain ⟨s, hs⟩ := exists_toStmt htree hwritten
    obtain ⟨expression, hexpression⟩ := exists_convertExpression s
    refine ⟨stmtToJSON s, expression, ?_, hexpression, convertExpression_loaded hexpression⟩
    rw [visitedValue, visit_eq hs]

theorem bound_expression_loaded_guardedCall :
    ∃ stmt, guardedCall.root.subtree [0, 0, 0, 0] = some stmt ∧
      ((∃ json expression, visitedValue stmt = some json ∧
        convertExpression json = .ok expression ∧ expression.Loaded) ↔
          visits isUnwritten stmt = false) :=
  bound_expression_loaded guardedCall (by decide)

/-- `x > _Generic(y, int: 1)` is repairable, but it is not written. -/
example :
    let generic := .node (.genericSelectionExpr 0)
      [variableNode "y", .node (.integerLiteral .int 1 "1") []]
    let stmt := .node (.binaryOperator intType .gt) [variableNode "x", generic]
    isBaseRepairable stmt = true ∧ visitedValue stmt = none :=
  ⟨by decide, rfl⟩

end SearchSpaceMatchers

end F1X
