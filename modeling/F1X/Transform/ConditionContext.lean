import F1X.Transform.StmtToJSON
import Mathlib.Data.List.Infix

/-!
# Condition contexts

`inConditionContext` of `transform/TransformUtil.cpp`.  Nodes of an AST are
compared by address, so that a node is a position: the child indices on the way
from it up to the root.
-/

namespace F1X

/-- `other` is every other node; assignments and the comma operator are among them. -/
inductive AstNode where
  | implicitCastExpr (sub : AstNode)
  | parenExpr (sub : AstNode)
  | binaryOperator (opcode : BinaryOpcode) (lhs rhs : AstNode)
  | ifStmt (cond thenStmt : AstNode) (elseStmt : Option AstNode)
  | forStmt (init cond inc : Option AstNode) (body : AstNode)
  | whileStmt (cond body : AstNode)
  | other (children : List AstNode)

namespace AstNode

abbrev Position := List Nat

/-- The children in the order of the source, a missing one keeps its index. -/
def children : AstNode → List (Option AstNode)
  | .implicitCastExpr sub => [sub]
  | .parenExpr sub => [sub]
  | .binaryOperator _ lhs rhs => [lhs, rhs]
  | .ifStmt cond thenStmt elseStmt => [cond, thenStmt, elseStmt]
  | .forStmt init cond inc body => [init, cond, inc, body]
  | .whileStmt cond body => [cond, body]
  | .other children => children.map some

def nodeAt (root : AstNode) : Position → Option AstNode
  | [] => some root
  | index :: parent => do
      let node ← nodeAt root parent
      (← node.children[index]?)

/-- The address that `getCond` returns for the statement at a position. -/
def getCond (root : AstNode) (stmt : Position) : Option Position :=
  match nodeAt root stmt with
  | some (.ifStmt _ _ _) => some (0 :: stmt)
  | some (.forStmt _ cond _ _) => if cond.isSome then some (1 :: stmt) else none
  | some (.whileStmt _ _) => some (0 :: stmt)
  | _ => none

/-- The loop: the parent, as long as it is an implicit cast. -/
def skipImplicitCasts (root : AstNode) : Position → Option Position
  | [] => none
  | _ :: parent =>
      match nodeAt root parent with
      | some (.implicitCastExpr _) => skipImplicitCasts root parent
      | _ => some parent

def inConditionContext (root : AstNode) (expr : Position) : Bool :=
  match skipImplicitCasts root expr with
  -- only the translation unit has no parent
  | none => false
  | some it =>
      match nodeAt root it with
      | some (.ifStmt _ _ _) => getCond root it = some expr
      | some (.forStmt _ _ _ _) => getCond root it = some expr
      | some (.whileStmt _ _) => getCond root it = some expr
      | some (.binaryOperator opcode _ _) => opcode = .land ∨ opcode = .lor
      | _ => false

/-! ## Conditions through parentheses and casts -/

/-- The expression after climbing through parentheses and implicit casts. -/
def outermost (root : AstNode) : Position → Position
  | [] => []
  | index :: parent =>
      match nodeAt root parent with
      | some (.implicitCastExpr _) => outermost root parent
      | some (.parenExpr _) => outermost root parent
      | _ => index :: parent

/-- The expression after climbing through implicit casts alone. -/
def outermostCast (root : AstNode) : Position → Position
  | [] => []
  | index :: parent =>
      match nodeAt root parent with
      | some (.implicitCastExpr _) => outermostCast root parent
      | _ => index :: parent

def IsStatementCondition (root : AstNode) (expr : Position) : Prop :=
  ∃ stmt, getCond root stmt = some expr

def IsLogicalOperand (root : AstNode) (expr : Position) : Prop :=
  ∃ index parent opcode lhs rhs, expr = index :: parent ∧
    nodeAt root parent = some (.binaryOperator opcode lhs rhs) ∧
    (opcode = .land ∨ opcode = .lor)

def InCondition (root : AstNode) (expr : Position) : Prop :=
  IsStatementCondition root (outermost root expr) ∨ IsLogicalOperand root (outermost root expr)

section Climbing

variable {root : AstNode}

theorem getCond_eq_some {stmt expr : Position} (h : getCond root stmt = some expr) :
    ∃ index, expr = index :: stmt := by
  unfold getCond at h
  split at h
  · exact ⟨0, (Option.some.inj h).symm⟩
  · split at h
    · exact ⟨1, (Option.some.inj h).symm⟩
    · cases h
  · exact ⟨0, (Option.some.inj h).symm⟩
  · cases h

theorem isStatementCondition_cons {index : Nat} {parent : Position} :
    IsStatementCondition root (index :: parent) ↔
      getCond root parent = some (index :: parent) := by
  constructor
  · rintro ⟨stmt, hstmt⟩
    obtain ⟨other, hother⟩ := getCond_eq_some hstmt
    obtain rfl := (List.cons.inj hother).2
    exact hstmt
  · exact fun h => ⟨parent, h⟩

private theorem not_isStatementCondition_nil : ¬ IsStatementCondition root [] := by
  rintro ⟨stmt, hstmt⟩
  obtain ⟨index, hindex⟩ := getCond_eq_some hstmt
  cases hindex

private theorem not_isLogicalOperand_nil : ¬ IsLogicalOperand root [] := by
  rintro ⟨index, parent, opcode, lhs, rhs, hcons, -⟩
  cases hcons

theorem isLogicalOperand_cons {index : Nat} {parent : Position} :
    IsLogicalOperand root (index :: parent) ↔
      ∃ opcode lhs rhs, nodeAt root parent = some (.binaryOperator opcode lhs rhs) ∧
        (opcode = .land ∨ opcode = .lor) := by
  constructor
  · rintro ⟨other, stmt, opcode, lhs, rhs, hcons, hnode, hopcode⟩
    obtain ⟨rfl, rfl⟩ := List.cons.inj hcons
    exact ⟨opcode, lhs, rhs, hnode, hopcode⟩
  · rintro ⟨opcode, lhs, rhs, hnode, hopcode⟩
    exact ⟨index, parent, opcode, lhs, rhs, rfl, hnode, hopcode⟩

theorem outermostCast_suffix (expr : Position) : outermostCast root expr <:+ expr := by
  induction expr with
  | nil => exact List.suffix_rfl
  | cons index parent ih =>
      unfold outermostCast
      split
      · exact List.IsSuffix.trans ih (List.suffix_cons index parent)
      · exact List.suffix_rfl

private theorem outermost_length_le (expr : Position) :
    (outermost root expr).length ≤ expr.length := by
  induction expr with
  | nil => exact Nat.le_refl _
  | cons index parent ih =>
      unfold outermost
      split
      · exact Nat.le_succ_of_le ih
      · exact Nat.le_succ_of_le ih
      · exact Nat.le_refl _

private theorem outermost_outermostCast (expr : Position) :
    outermost root (outermostCast root expr) = outermost root expr := by
  induction expr with
  | nil => rfl
  | cons index parent ih =>
      unfold outermostCast
      split
      · rename_i hcast
        rw [ih]
        simp only [outermost, hcast]
      · rfl

theorem skipImplicitCasts_eq (expr : Position) :
    skipImplicitCasts root expr = (outermostCast root expr).tail? := by
  induction expr with
  | nil => rfl
  | cons index parent ih =>
      unfold skipImplicitCasts outermostCast
      split
      · exact ih
      · rfl

private theorem outermostCast_stops {expr : Position} {index : Nat} {parent : Position}
    (h : outermostCast root expr = index :: parent) (sub : AstNode) :
    nodeAt root parent ≠ some (.implicitCastExpr sub) := by
  induction expr with
  | nil => cases h
  | cons other stmt ih =>
      unfold outermostCast at h
      split at h
      · exact ih h
      · rename_i hnot
        obtain ⟨rfl, rfl⟩ := List.cons.inj h
        exact hnot sub

/-- At a statement the code compares the address of the condition with the expression itself. -/
theorem inConditionContext_statement {expr parent : Position} {node : AstNode}
    (hskip : skipImplicitCasts root expr = some parent) (hnode : nodeAt root parent = some node)
    (hstmt : (∃ cond thenStmt elseStmt, node = .ifStmt cond thenStmt elseStmt) ∨
      (∃ init cond inc body, node = .forStmt init cond inc body) ∨
      ∃ cond body, node = .whileStmt cond body) :
    inConditionContext root expr = true ↔ getCond root parent = some expr := by
  unfold inConditionContext
  rw [hskip]
  dsimp only
  rw [hnode]
  rcases hstmt with ⟨_, _, _, rfl⟩ | ⟨_, _, _, _, rfl⟩ | ⟨_, _, rfl⟩ <;>
    exact decide_eq_true_iff

theorem getCond_below_casts {expr parent : Position} {index : Nat}
    (hcast : outermostCast root expr = index :: parent)
    (h : getCond root parent = some expr) : index :: parent = expr := by
  obtain ⟨other, rfl⟩ := getCond_eq_some h
  have hsuffix := @outermostCast_suffix root (other :: parent)
  rw [hcast] at hsuffix
  exact hsuffix.eq_of_length (by simp)

end Climbing

section Correctness

variable {root : AstNode} {expr : Position}

/-- What the theorem below says of one expression. -/
def CorrectExactlyUnwrapped (root : AstNode) (expr : Position) : Prop :=
  (inConditionContext root expr = true ↔ InCondition root expr) ↔
    (IsStatementCondition root (outermost root expr) → outermost root expr = expr) ∧
      (IsLogicalOperand root (outermost root expr) →
        outermostCast root expr = outermost root expr)

theorem correct_of_neither (hcode : inConditionContext root expr = false)
    (hstmt : ¬ IsStatementCondition root (outermost root expr))
    (hlogical : ¬ IsLogicalOperand root (outermost root expr)) :
    CorrectExactlyUnwrapped root expr := by
  refine iff_of_true ?_ ⟨fun h => absurd h hstmt, fun h => absurd h hlogical⟩
  rw [hcode]
  exact iff_of_false Bool.false_ne_true (not_or.mpr ⟨hstmt, hlogical⟩)

variable {index : Nat} {parent : Position} {node : AstNode}

theorem correct_at_statement (hcast : outermostCast root expr = index :: parent)
    (hout : outermost root expr = index :: parent) (hnode : nodeAt root parent = some node)
    (hstmt : (∃ cond thenStmt elseStmt, node = .ifStmt cond thenStmt elseStmt) ∨
      (∃ init cond inc body, node = .forStmt init cond inc body) ∨
      ∃ cond body, node = .whileStmt cond body) :
    CorrectExactlyUnwrapped root expr := by
  have hskip : skipImplicitCasts root expr = some parent := by
    rw [skipImplicitCasts_eq, hcast]
    rfl
  have hlogical : ¬ IsLogicalOperand root (index :: parent) := by
    rw [isLogicalOperand_cons, hnode]
    rintro ⟨opcode, lhs, rhs, hbinary, -⟩
    cases hbinary
    rcases hstmt with ⟨_, _, _, h⟩ | ⟨_, _, _, _, h⟩ | ⟨_, _, h⟩ <;> cases h
  unfold CorrectExactlyUnwrapped InCondition
  rw [inConditionContext_statement hskip hnode hstmt, hout, or_iff_left hlogical,
    isStatementCondition_cons, hcast, and_iff_left fun _ => rfl]
  constructor
  · intro hcorrect hcond
    exact getCond_below_casts hcast (hcorrect.mpr hcond)
  · intro hunwrapped
    constructor
    · intro hcond
      rwa [getCond_below_casts hcast hcond]
    · intro hcond
      rwa [← hunwrapped hcond]

private theorem correct_at_binaryOperator {opcode : BinaryOpcode} {lhs rhs : AstNode}
    (hcast : outermostCast root expr = index :: parent)
    (hout : outermost root expr = index :: parent)
    (hnode : nodeAt root parent = some (.binaryOperator opcode lhs rhs)) :
    CorrectExactlyUnwrapped root expr := by
  have hcond : ¬ IsStatementCondition root (index :: parent) := by
    rw [isStatementCondition_cons, getCond, hnode]
    exact nofun
  have hcode : inConditionContext root expr = true ↔ opcode = .land ∨ opcode = .lor := by
    unfold inConditionContext
    rw [skipImplicitCasts_eq, hcast]
    dsimp only [List.tail?_cons]
    rw [hnode]
    exact decide_eq_true_iff
  have hlogical : IsLogicalOperand root (index :: parent) ↔ opcode = .land ∨ opcode = .lor := by
    rw [isLogicalOperand_cons, hnode]
    constructor
    · rintro ⟨_, _, _, heq, hopcode⟩
      cases heq
      exact hopcode
    · exact fun hopcode => ⟨opcode, lhs, rhs, rfl, hopcode⟩
  unfold CorrectExactlyUnwrapped InCondition
  rw [hout, or_iff_right hcond, hcode, hlogical, hcast]
  exact iff_of_true Iff.rfl ⟨fun h => absurd h hcond, fun _ => rfl⟩

private theorem correct_at_parenExpr {sub : AstNode}
    (hcast : outermostCast root expr = index :: parent)
    (hout : outermost root expr = outermost root parent)
    (hnode : nodeAt root parent = some (.parenExpr sub)) :
    CorrectExactlyUnwrapped root expr := by
  have hcode : inConditionContext root expr = false := by
    unfold inConditionContext
    rw [skipImplicitCasts_eq, hcast]
    dsimp only [List.tail?_cons]
    rw [hnode]
  have hlength := @outermost_length_le root parent
  have hsuffix := (@outermostCast_suffix root expr).length_le
  rw [hcast, List.length_cons] at hsuffix
  have hunwrapped : outermost root parent ≠ expr := by
    intro h
    rw [h] at hlength
    omega
  have hcasts : index :: parent ≠ outermost root parent := by
    intro h
    rw [← h, List.length_cons] at hlength
    omega
  unfold CorrectExactlyUnwrapped InCondition
  rw [hcode, hout, hcast]
  simp only [Bool.false_eq_true, false_iff, not_or, hunwrapped, hcasts, imp_false]

theorem correct_at_other (hcast : outermostCast root expr = index :: parent)
    (hout : outermost root expr = index :: parent)
    (hnode : nodeAt root parent = none ∨ ∃ children, nodeAt root parent = some (.other children)) :
    CorrectExactlyUnwrapped root expr := by
  refine correct_of_neither ?_ ?_ ?_
  · unfold inConditionContext
    rw [skipImplicitCasts_eq, hcast]
    dsimp only [List.tail?_cons]
    rcases hnode with hnode | ⟨children, hnode⟩ <;> rw [hnode]
  · rw [hout, isStatementCondition_cons, getCond]
    rcases hnode with hnode | ⟨children, hnode⟩ <;>
    · rw [hnode]
      exact nofun
  · rw [hout, isLogicalOperand_cons]
    rcases hnode with hnode | ⟨children, hnode⟩ <;>
    · rw [hnode]
      rintro ⟨opcode, lhs, rhs, heq, -⟩
      cases heq

private theorem correct_at_root (hcast : outermostCast root expr = [])
    (hout : outermost root expr = []) : CorrectExactlyUnwrapped root expr := by
  refine correct_of_neither ?_ ?_ ?_
  · unfold inConditionContext
    rw [skipImplicitCasts_eq, hcast]
    rfl
  · rw [hout]
    exact not_isStatementCondition_nil
  · rw [hout]
    exact not_isLogicalOperand_nil

end Correctness

/--
The function agrees with the climb through parentheses and casts exactly if the
condition of a statement is not wrapped at all and an operand of a logical
operator only in implicit casts.
-/
theorem inConditionContext_correct_iff (root : AstNode) (expr : Position) :
    (inConditionContext root expr = true ↔ InCondition root expr) ↔
      (IsStatementCondition root (outermost root expr) → outermost root expr = expr) ∧
        (IsLogicalOperand root (outermost root expr) →
          outermostCast root expr = outermost root expr) := by
  have hout := @outermost_outermostCast root expr
  change CorrectExactlyUnwrapped root expr
  cases hcast : outermostCast root expr with
  | nil =>
      rw [hcast] at hout
      exact correct_at_root hcast hout.symm
  | cons index parent =>
      rw [hcast] at hout
      cases hnode : nodeAt root parent with
      | none =>
          rw [outermost, hnode] at hout
          exact correct_at_other hcast hout.symm (Or.inl hnode)
      | some node =>
          rw [outermost, hnode] at hout
          cases node with
          | implicitCastExpr sub => exact absurd hnode (outermostCast_stops hcast sub)
          | parenExpr sub => exact correct_at_parenExpr hcast hout.symm hnode
          | binaryOperator opcode lhs rhs =>
              exact correct_at_binaryOperator hcast hout.symm hnode
          | ifStmt cond thenStmt elseStmt =>
              exact correct_at_statement hcast hout.symm hnode (Or.inl ⟨_, _, _, rfl⟩)
          | forStmt init cond inc body =>
              exact correct_at_statement hcast hout.symm hnode
                (Or.inr (Or.inl ⟨_, _, _, _, rfl⟩))
          | whileStmt cond body =>
              exact correct_at_statement hcast hout.symm hnode
                (Or.inr (Or.inr ⟨_, _, rfl⟩))
          | other children =>
              exact correct_at_other hcast hout.symm (Or.inr ⟨children, hnode⟩)

/-- A variable is read through an implicit cast: the condition of `if (x) ;`. -/
theorem variable_condition_missed :
    inConditionContext
        (.other [.ifStmt (.implicitCastExpr (.other [])) (.other []) none]) [0, 0, 0] = false ∧
      InCondition
        (.other [.ifStmt (.implicitCastExpr (.other [])) (.other []) none]) [0, 0, 0] :=
  ⟨rfl, Or.inl ⟨[0], rfl⟩⟩

end AstNode

end F1X
