import F1X.Library.LabelledTrees
import F1X.Transform.Expr
import F1X.Transform.GuardedStatements

/-!
# The matchers of the search space

`transform/SearchSpaceMatchers.cpp` over the syntax tree of the compiler.  A
matcher returns the positions that it binds; a node may match without a binding.
-/

namespace F1X

open Library

/-! ## The syntax tree -/

/-- A type with the questions that the matchers ask about it. -/
structure MatchedType where
  type : QualType
  isInteger : Bool
  isPointerType : Bool
  isVoidPointer : Bool
  isIntegerArray : Bool
  deriving DecidableEq

inductive DeclKind where
  | varDecl
  | enumConstantDecl
  | otherDecl
  deriving DecidableEq

/-- A node without its children; an absent part of a statement is `absent`. -/
inductive StmtKind where
  | declRefExpr (decl : DeclKind) (type : MatchedType) (text : String)
  | integerLiteral (kind : BuiltinKind) (value : Nat) (text : String)
  | characterLiteral (text : String)
  | memberExpr (type : MatchedType) (isArrow : Bool) (text : String)
  | arraySubscriptExpr (type : MatchedType) (text : String)
  | cStyleCastExpr (type : MatchedType) (text : String)
  | implicitCastExpr (type : MatchedType)
  | parenExpr
  /-- `__extension__` before an expression, a unary operator of the compiler. -/
  | extensionExpr (type : MatchedType)
  /-- `_Generic`: the controlling expression, then the associations. -/
  | genericSelectionExpr (result : Nat)
  /-- `__builtin_choose_expr`: the condition, then the two choices. -/
  | chooseExpr (isConditionTrue : Bool)
  | unaryOperator (type : MatchedType) (opcode : UnaryOpcode)
  | binaryOperator (type : MatchedType) (opcode : BinaryOpcode)
  /-- `=` and the compound assignments. -/
  | assignment (type : MatchedType) (opcode : String)
  | otherUnary (type : MatchedType) (opcode : String)
  | otherBinary (type : MatchedType) (opcode : String)
  | callExpr (type : MatchedType)
  | otherExpr
  | compoundStmt
  | ifStmt
  | whileStmt
  | forStmt
  | returnStmt
  | breakStmt
  | continueStmt
  | otherStmt
  | absent
  deriving DecidableEq

abbrev ClangStmt := LabelledTree StmtKind

def StmtKind.isExpr : StmtKind → Bool
  | .compoundStmt | .ifStmt | .whileStmt | .forStmt | .returnStmt | .breakStmt
  | .continueStmt | .otherStmt | .absent => false
  | _ => true

namespace SearchSpaceMatchers

open LabelledTree

/-! ## Parentheses and casts -/

def castChild : StmtKind → Option Nat
  | .implicitCastExpr _ => some 0
  | _ => none

/-- The compiler looks through more than parentheses. -/
def innerChild : StmtKind → Option Nat
  | .implicitCastExpr _ | .parenExpr | .extensionExpr _ => some 0
  | .genericSelectionExpr result => some (result + 1)
  | .chooseExpr isConditionTrue => some (if isConditionTrue then 1 else 2)
  | _ => none

/-- Some of the children are not part of what is left. -/
def isSelection : StmtKind → Bool
  | .genericSelectionExpr _ | .chooseExpr _ => true
  | _ => false

def ignoringImpCasts (stmt : ClangStmt) : ClangStmt := through castChild stmt

def ignoringParenImpCasts (stmt : ClangStmt) : ClangStmt := through innerChild stmt

def innerPosition (stmt : ClangStmt) : Position := throughPosition innerChild stmt

/-! ## Repairable nodes -/

/-- `anyOf(integerLiteral(), declRefExpr(), memberExpr())`. -/
def isIndexKind : StmtKind → Bool
  | .integerLiteral _ _ _ | .declRefExpr _ _ _ | .memberExpr _ _ _ => true
  | _ => false

def isIntegerArray : ClangStmt → Bool
  | .node (.implicitCastExpr _) [.node (.declRefExpr _ type _) _] => type.isIntegerArray
  | _ => false

/-- `hasDescendant(integerLiteral(equals(0)))`. -/
def hasZero (stmt : ClangStmt) : Bool :=
  anyBelow (fun found => match found.label with
    | .integerLiteral _ value _ => value = 0
    | _ => false) stmt

/-- The source expression of a cast is an implicit cast of an atom. -/
def castsAtom : List ClangStmt → Bool
  | [.node (.implicitCastExpr _) [atom]] => isIndexKind atom.label
  | _ => false

/-- `RepairableNode`: whether the node matches, and then whether it is bound. -/
def repairableNode (stmt : ClangStmt) : Option Bool :=
  match stmt.label with
  | .binaryOperator _ _ => some true
  | .unaryOperator _ opcode =>
      match opcode with
      | .lnot | .not => some true
      | .minus => none
  | .arraySubscriptExpr _ _ =>
      match stmt.children with
      | [base, index] =>
          if isIndexKind (ignoringImpCasts index).label && isIntegerArray base then some true
          else none
      | _ => none
  | .declRefExpr decl type _ =>
      match decl with
      | .varDecl => some (type.isInteger || type.isPointerType)
      | .enumConstantDecl => some true
      -- a match without a binding
      | .otherDecl => some false
  | .integerLiteral _ _ _ | .characterLiteral _ => some true
  | .memberExpr type _ _ =>
      if type.isInteger || type.isPointerType then some true else none
  | .cStyleCastExpr type _ =>
      if type.isInteger && castsAtom stmt.children then some true
      else if type.isVoidPointer && hasZero stmt then some true
      else none
  | .implicitCastExpr type =>
      if type.isVoidPointer && hasZero stmt then some true else none
  | _ => none

def isRepairableNode (stmt : ClangStmt) : Bool := (repairableNode stmt).isSome

/-- `hasDescendant(expr(ignoringParenImpCasts(NonRepairableNode)))`. -/
def hasNonRepairable (stmt : ClangStmt) : Bool :=
  anyBelow (fun found =>
    found.label.isExpr && !isRepairableNode (ignoringParenImpCasts found)) stmt

def isBaseRepairable (stmt : ClangStmt) : Bool :=
  isRepairableNode stmt && !hasNonRepairable stmt

def isNonBaseRepairable (stmt : ClangStmt) : Bool :=
  !isRepairableNode stmt || hasNonRepairable stmt

/-- `ignoringParenImpCasts(BaseRepairableExpression)` for a child. -/
def matchesChild (child : ClangStmt) : Bool := isBaseRepairable (ignoringParenImpCasts child)

def bindChild (index : Nat) (child : ClangStmt) : List Position :=
  if repairableNode (ignoringParenImpCasts child) = some true then
    [index :: innerPosition child]
  else []

/-! ## Conditions -/

def isLogical : BinaryOpcode → Bool
  | .lor | .land => true
  | _ => false

/-- `Splittable`; it binds the side that is repairable as a whole. -/
def splittable : ClangStmt → List Position
  | .node (.binaryOperator _ opcode) [lhs, rhs] =>
      if isLogical opcode then
        if matchesChild lhs && isNonBaseRepairable (ignoringParenImpCasts rhs) then
          bindChild 0 lhs
        else if isNonBaseRepairable (ignoringParenImpCasts lhs) && matchesChild rhs then
          bindChild 1 rhs
        else []
      else []
  | _ => []

def isSplittable : ClangStmt → Bool
  | .node (.binaryOperator _ opcode) [lhs, rhs] =>
      isLogical opcode &&
        (matchesChild lhs && isNonBaseRepairable (ignoringParenImpCasts rhs) ||
          isNonBaseRepairable (ignoringParenImpCasts lhs) && matchesChild rhs)
  | _ => false

/-- `hasSplittableCondition` for the condition at an index. -/
def splittableCondition (index : Nat) (cond : ClangStmt) : List Position :=
  if matchesChild cond then bindChild index cond
  -- the condition itself, or each of its descendants
  else (everywhere splittable cond).map (index :: ·)

def hasSplittableCondition (cond : ClangStmt) : Bool :=
  matchesChild cond || (isSplittable cond || anyBelow isSplittable cond)

/-! ## The expression schema -/

def isAssignable : StmtKind → Bool
  | .declRefExpr _ _ _ | .memberExpr _ _ _ | .arraySubscriptExpr _ _ => true
  | _ => false

def matchesAssignment (lhs rhs : ClangStmt) : Bool :=
  isAssignable (ignoringParenImpCasts lhs).label && matchesChild rhs

/-- What `ExpressionSchemaMatcher` binds. -/
def expressionSchema : ClangStmt → List Position
  | .node .ifStmt (cond :: _) => splittableCondition 0 cond
  | .node .whileStmt (cond :: _) => splittableCondition 0 cond
  | .node .forStmt (_ :: cond :: _) => splittableCondition 1 cond
  | .node (.assignment _ _) [lhs, rhs] => if matchesAssignment lhs rhs then bindChild 1 rhs else []
  | .node .returnStmt [value] => if matchesChild value then bindChild 0 value else []
  | _ => []

def matchesExpressionSchema : ClangStmt → Bool
  | .node .ifStmt (cond :: _) => hasSplittableCondition cond
  | .node .whileStmt (cond :: _) => hasSplittableCondition cond
  | .node .forStmt (_ :: cond :: _) => hasSplittableCondition cond
  | .node (.assignment _ _) [lhs, rhs] => matchesAssignment lhs rhs
  | .node .returnStmt [value] => matchesChild value
  | _ => false

def expressionMatches (root : ClangStmt) : List Position := everywhere expressionSchema root

/-! ## The guard schema -/

/-- What `IfGuardSchemaMatcher` binds: the node itself. -/
def ifGuardSchema (stmt : ClangStmt) : List Position :=
  match stmt.label with
  | .callExpr _ =>
      if anyBelow (fun found =>
            found.label.isExpr && matchesExpressionSchema (ignoringParenImpCasts found)) stmt ||
          anyBelow (fun found => found.label = .compoundStmt) stmt then []
      else [[]]
  | .breakStmt | .continueStmt => [[]]
  | _ => []

def ifGuardMatches (root : ClangStmt) : List Position := everywhere ifGuardSchema root

/-- A parent with the part of it that its child at an index is. -/
def partNode (parent : StmtKind) (index : Nat) : ParentNode :=
  match parent with
  | .compoundStmt => .compoundStmt
  | .ifStmt => .ifStmt (index = 0)
  | .whileStmt => .whileStmt (index = 0)
  | .forStmt =>
      match index with
      | 0 => .forStmt .init
      | 1 => .forStmt .cond
      | 2 => .forStmt .inc
      | _ => .forStmt .body
  | _ => .other

def parentNode (root : ClangStmt) (position : Position) : Option ParentNode :=
  match position.getLast?, root.subtree position.dropLast with
  | some index, some parent => some (partNode parent.label index)
  | _, _ => none

/-- The positions that the handlers of the profile take, the filters of the source apart. -/
def selected (root : ClangStmt) : List Position :=
  expressionMatches root ++
    (ifGuardMatches root).filter fun position => isTopLevelStatement (parentNode root position)

/-! ## The shape of a syntax tree -/

/-- The children that the compiler gives a node; a statement expression holds a block. -/
def isShaped (stmt : ClangStmt) : Bool :=
  match stmt.label, stmt.children with
  | .declRefExpr _ _ _, children | .integerLiteral _ _ _, children
  | .characterLiteral _, children => children.isEmpty
  | .memberExpr _ _ _, children | .cStyleCastExpr _ _, children | .implicitCastExpr _, children
  | .parenExpr, children | .extensionExpr _, children | .unaryOperator _ _, children
  | .otherUnary _ _, children => children.length = 1 && children.all (·.label.isExpr)
  | .arraySubscriptExpr _ _, children | .binaryOperator _ _, children
  | .assignment _ _, children | .otherBinary _ _, children =>
      children.length = 2 && children.all (·.label.isExpr)
  | .genericSelectionExpr result, children =>
      result + 1 < children.length && children.all (·.label.isExpr)
  | .chooseExpr _, children => children.length = 3 && children.all (·.label.isExpr)
  | .callExpr _, children => children.all (·.label.isExpr)
  | .otherExpr, children =>
      children.all fun child => child.label.isExpr || child.label = .compoundStmt
  | .breakStmt, children | .continueStmt, children | .absent, children => children.isEmpty
  | .ifStmt, cond :: _ | .whileStmt, cond :: _ => cond.label.isExpr
  | .forStmt, _ :: cond :: _ => cond.label.isExpr || cond.label = .absent
  | .returnStmt, children => children.all (·.label.isExpr)
  | _, _ => true

/-- A translation unit as the compiler builds it. -/
structure TranslationUnit where
  root : ClangStmt
  shaped : isShaped root && !anyBelow (fun found => !isShaped found) root

/-- No expression holds a statement, as in C without the extensions of the compiler. -/
def TranslationUnit.isStandard (unit : TranslationUnit) : Bool :=
  let isExprTree := fun (found : ClangStmt) =>
    !found.label.isExpr || found.children.all (·.label.isExpr)
  isExprTree unit.root && !anyBelow (fun found => !isExprTree found) unit.root

/-! ## A translation unit -/

def intType : MatchedType where
  type := .builtin .int true
  isInteger := true
  isPointerType := false
  isVoidPointer := false
  isIntegerArray := false

def variableNode (name : String) : ClangStmt := .node (.declRefExpr .varDecl intType name) []

def callNode (function argument : String) : ClangStmt :=
  .node (.callExpr intType)
    [.node (.declRefExpr .otherDecl intType function) [], variableNode argument]

/-- A block with `if ((x > 0) && f(x)) g(y);`. -/
def guardedCall : TranslationUnit where
  root :=
    .node .compoundStmt
      [.node .ifStmt
        [.node (.binaryOperator intType .land)
          [.node .parenExpr
            [.node (.binaryOperator intType .gt)
              [variableNode "x", .node (.integerLiteral .int 0 "0") []]],
           callNode "f" "x"],
         callNode "g" "y",
         .node .absent []]]
  shaped := by decide

/-! ## Below parentheses and casts -/

theorem subtree_innerPosition (stmt : ClangStmt) :
    stmt.subtree (innerPosition stmt) = some (ignoringParenImpCasts stmt) :=
  subtree_throughPosition innerChild stmt

@[simp] theorem ignoringParenImpCasts_idempotent (stmt : ClangStmt) :
    ignoringParenImpCasts (ignoringParenImpCasts stmt) = ignoringParenImpCasts stmt :=
  through_idempotent stmt

theorem eq_innerPosition {stmt found : ClangStmt} {position : Position}
    (hfront : position <+: innerPosition stmt) (hfound : stmt.subtree position = some found)
    (hinner : ignoringParenImpCasts found = found) : position = innerPosition stmt :=
  eq_throughPosition hfront hfound hinner

/-! ## Below a repairable expression -/

def ShapedTree (stmt : ClangStmt) : Prop :=
  ∀ position found, stmt.subtree position = some found → isShaped found = true

theorem ShapedTree.below {stmt found : ClangStmt} (h : ShapedTree stmt) {position : Position}
    (hfound : stmt.subtree position = some found) : ShapedTree found :=
  fun back below hbelow =>
    h (position ++ back) below (subtree_append_eq_some.mpr ⟨found, hfound, hbelow⟩)

theorem TranslationUnit.shapedTree (unit : TranslationUnit) : ShapedTree unit.root := by
  intro position found h
  obtain ⟨hroot, hbelow⟩ := Bool.and_eq_true_iff.mp unit.shaped
  cases position with
  | nil =>
      cases h
      exact hroot
  | cons index position =>
      by_contra hshaped
      rw [Bool.not_eq_true', ← Bool.not_eq_true, anyBelow_eq_true] at hbelow
      exact hbelow ⟨index, position, found, h, by simpa using hshaped⟩

theorem isBaseRepairable_iff {stmt : ClangStmt} :
    isBaseRepairable stmt = true ↔ isRepairableNode stmt = true ∧
      ∀ index position found, stmt.subtree (index :: position) = some found →
        found.label.isExpr = true → isRepairableNode (ignoringParenImpCasts found) = true := by
  rw [isBaseRepairable, Bool.and_eq_true_iff, Bool.not_eq_true', ← Bool.not_eq_true,
    hasNonRepairable, anyBelow_eq_true]
  refine and_congr_right fun _ => ⟨fun h index position found hfound hexpr => ?_,
    fun h ⟨index, position, found, hfound, hnon⟩ => ?_⟩
  · by_contra hnon
    exact h ⟨index, position, found, hfound, by simp [hexpr, hnon]⟩
  · obtain ⟨hexpr, hnon⟩ := Bool.and_eq_true_iff.mp hnon
    simp [h index position found hfound hexpr] at hnon

theorem isNonBaseRepairable_iff {stmt : ClangStmt} :
    isNonBaseRepairable stmt = true ↔ isBaseRepairable stmt = false := by
  rw [isNonBaseRepairable, isBaseRepairable]
  cases isRepairableNode stmt <;> cases hasNonRepairable stmt <;> decide

private theorem isExpr_children {stmt child : ClangStmt} (hshaped : isShaped stmt = true)
    (hrepairable : isRepairableNode (ignoringParenImpCasts stmt) = true)
    (hchild : child ∈ stmt.children) : child.label.isExpr = true := by
  obtain ⟨label, children⟩ := stmt
  rw [children_node] at hchild
  cases label with
  | declRefExpr _ _ _ | integerLiteral _ _ _ | characterLiteral _ =>
      obtain rfl : children = [] := List.isEmpty_iff.mp hshaped
      exact absurd hchild List.not_mem_nil
  | memberExpr _ _ _ | cStyleCastExpr _ _ | implicitCastExpr _ | parenExpr | extensionExpr _
  | unaryOperator _ _ | arraySubscriptExpr _ _ | binaryOperator _ _ | genericSelectionExpr _
  | chooseExpr _ => exact List.all_eq_true.mp (Bool.and_eq_true_iff.mp hshaped).2 child hchild
  | _ => cases hrepairable

private theorem isExpr_of_isRepairableNode {stmt : ClangStmt} (h : isRepairableNode stmt = true) :
    stmt.label.isExpr = true := by
  cases stmt with
  | node label children =>
      rw [label_node]
      cases label <;> first | rfl | cases h

theorem repairable_below {stmt found : ClangStmt} (htree : ShapedTree stmt)
    (hbase : isBaseRepairable stmt = true) (hinner : ignoringParenImpCasts stmt = stmt)
    {position : Position} (hfound : stmt.subtree position = some found) :
    found.label.isExpr = true ∧ isRepairableNode (ignoringParenImpCasts found) = true := by
  obtain ⟨hroot, hbelow⟩ := isBaseRepairable_iff.mp hbase
  induction position using List.reverseRecOn generalizing found with
  | nil =>
      cases hfound
      rw [hinner]
      exact ⟨isExpr_of_isRepairableNode hroot, hroot⟩
  | append_singleton front index ih =>
      obtain ⟨parent, hparent, hindex⟩ := subtree_append_eq_some.mp hfound
      obtain ⟨child, hchild, hnil⟩ := subtree_cons_eq_some.mp hindex
      cases hnil
      have hexpr : found.label.isExpr = true :=
        isExpr_children (htree front parent hparent) (ih hparent).2
          (List.mem_of_getElem? hchild)
      refine ⟨hexpr, ?_⟩
      cases front with
      | nil => exact hbelow index [] found hfound hexpr
      | cons first front => exact hbelow first (front ++ [index]) found hfound hexpr

theorem base_below {stmt found : ClangStmt} (htree : ShapedTree stmt)
    (hbase : isBaseRepairable stmt = true) (hinner : ignoringParenImpCasts stmt = stmt)
    {position : Position} (hfound : stmt.subtree position = some found) :
    isBaseRepairable (ignoringParenImpCasts found) = true := by
  refine isBaseRepairable_iff.mpr
    ⟨(repairable_below htree hbase hinner hfound).2, fun index back below hbelow _ => ?_⟩
  have hlower : stmt.subtree (position ++ (innerPosition found ++ index :: back)) = some below :=
    subtree_append_eq_some.mpr ⟨found, hfound,
      subtree_append_eq_some.mpr ⟨_, subtree_innerPosition found, hbelow⟩⟩
  exact (repairable_below htree hbase hinner hlower).2

end SearchSpaceMatchers

end F1X
