import Mathlib.Data.List.Basic

/-!
# C statements

How statements are read from tokens: blocks, loops and conditionals, where an
`else` belongs to the nearest `if` that is still open.  Simple statements and the
parenthesised headers of the others are single tokens.
-/

namespace F1X.Library

variable {L H : Type*}

inductive StmtToken (L H : Type*) where
  | leftBrace
  | rightBrace
  | semicolon
  | ifWord
  | elseWord
  | whileWord
  | forWord
  | header (h : H)
  | leaf (l : L)
  deriving DecidableEq

inductive StmtTree (L H : Type*) where
  | leaf (l : L)
  | block (body : List (StmtTree L H))
  | ifThen (condition : H) (body : StmtTree L H)
  | ifElse (condition : H) (body other : StmtTree L H)
  | whileLoop (condition : H) (body : StmtTree L H)
  | forLoop (header : H) (body : StmtTree L H)

inductive Phrase where
  | statement
  | body

/--
The trees that a phrase is read as, and the tokens behind it; a statement is one
tree, a body ends with its brace.
-/
inductive Parses :
    Phrase → List (StmtToken L H) → List (StmtTree L H) → List (StmtToken L H) → Prop
  | leaf (l : L) (rest : List (StmtToken L H)) :
      Parses .statement (.leaf l :: .semicolon :: rest) [.leaf l] rest
  | block {ts rest : List (StmtToken L H)} {trees : List (StmtTree L H)}
      (hbody : Parses .body ts trees rest) :
      Parses .statement (.leftBrace :: ts) [.block trees] rest
  | ifThen {condition : H} {ts rest : List (StmtToken L H)} {body : StmtTree L H}
      (hbody : Parses .statement ts [body] rest) (hrest : rest.head? ≠ some .elseWord) :
      Parses .statement (.ifWord :: .header condition :: ts) [.ifThen condition body] rest
  | ifElse {condition : H} {ts us rest : List (StmtToken L H)} {body other : StmtTree L H}
      (hbody : Parses .statement ts [body] (.elseWord :: us))
      (hother : Parses .statement us [other] rest) :
      Parses .statement (.ifWord :: .header condition :: ts) [.ifElse condition body other] rest
  | whileLoop {condition : H} {ts rest : List (StmtToken L H)} {body : StmtTree L H}
      (hbody : Parses .statement ts [body] rest) :
      Parses .statement (.whileWord :: .header condition :: ts) [.whileLoop condition body] rest
  | forLoop {header : H} {ts rest : List (StmtToken L H)} {body : StmtTree L H}
      (hbody : Parses .statement ts [body] rest) :
      Parses .statement (.forWord :: .header header :: ts) [.forLoop header body] rest
  | bodyEnd (rest : List (StmtToken L H)) : Parses .body (.rightBrace :: rest) [] rest
  | bodyNext {ts us rest : List (StmtToken L H)} {first : StmtTree L H}
      {others : List (StmtTree L H)} (hfirst : Parses .statement ts [first] us)
      (hothers : Parses .body us others rest) :
      Parses .body ts (first :: others) rest

namespace Parses

variable {phrase : Phrase} {ts rest rest' : List (StmtToken L H)}
  {trees trees' : List (StmtTree L H)}

theorem statement_head (h : Parses .statement ts trees rest) (t : StmtToken L H)
    (ht : t = .elseWord ∨ t = .rightBrace) : ts.head? ≠ some t := by
  rcases ht with rfl | rfl <;> cases h <;> simp

private theorem body_head (h : Parses .body ts trees rest) : ts.head? ≠ some .elseWord := by
  cases h with
  | bodyEnd => simp
  | bodyNext hfirst hothers => exact hfirst.statement_head _ (Or.inl rfl)

theorem unique (h : Parses phrase ts trees rest) (h' : Parses phrase ts trees' rest') :
    trees = trees' ∧ rest = rest' := by
  induction h generalizing trees' rest' with
  | leaf l rest =>
      cases h'
      exact ⟨rfl, rfl⟩
  | block _ ih =>
      cases h' with
      | block hbody =>
          obtain ⟨rfl, rfl⟩ := ih hbody
          exact ⟨rfl, rfl⟩
  | ifThen _ hrest ih =>
      cases h' with
      | ifThen hbody =>
          obtain ⟨htrees, rfl⟩ := ih hbody
          obtain rfl := List.singleton_inj.mp htrees
          exact ⟨rfl, rfl⟩
      | ifElse hbody =>
          obtain ⟨-, rfl⟩ := ih hbody
          exact absurd rfl hrest
  | ifElse _ _ ihBody ihOther =>
      cases h' with
      | ifThen hbody hrest =>
          obtain ⟨-, rfl⟩ := ihBody hbody
          exact absurd rfl hrest
      | ifElse hbody hother =>
          obtain ⟨htrees, hus⟩ := ihBody hbody
          obtain rfl := List.singleton_inj.mp htrees
          obtain rfl := (List.cons.inj hus).2
          obtain ⟨hothers, rfl⟩ := ihOther hother
          obtain rfl := List.singleton_inj.mp hothers
          exact ⟨rfl, rfl⟩
  | whileLoop _ ih =>
      cases h' with
      | whileLoop hbody =>
          obtain ⟨htrees, rfl⟩ := ih hbody
          obtain rfl := List.singleton_inj.mp htrees
          exact ⟨rfl, rfl⟩
  | forLoop _ ih =>
      cases h' with
      | forLoop hbody =>
          obtain ⟨htrees, rfl⟩ := ih hbody
          obtain rfl := List.singleton_inj.mp htrees
          exact ⟨rfl, rfl⟩
  | bodyEnd =>
      cases h' with
      | bodyEnd => exact ⟨rfl, rfl⟩
      | bodyNext hfirst => exact absurd rfl (hfirst.statement_head _ (Or.inr rfl))
  | bodyNext hfirst _ ihFirst ihOthers =>
      cases h' with
      | bodyEnd => exact absurd rfl (hfirst.statement_head _ (Or.inr rfl))
      | bodyNext hfirst' hothers' =>
          obtain ⟨htrees, rfl⟩ := ihFirst hfirst'
          obtain rfl := List.singleton_inj.mp htrees
          obtain ⟨rfl, rfl⟩ := ihOthers hothers'
          exact ⟨rfl, rfl⟩

end Parses

/-! ## Leaves -/

/-- The statement that a leaf stands in. -/
inductive Slot where
  | inBlock
  | inIf
  | inWhile
  | inFor
  deriving DecidableEq

mutual

def StmtTree.leaves (slot : Slot) : StmtTree L H → List (L × Slot)
  | .leaf l => [(l, slot)]
  | .block body => leavesOfAll .inBlock body
  | .ifThen _ body => body.leaves .inIf
  | .ifElse _ body other => body.leaves .inIf ++ other.leaves .inIf
  | .whileLoop _ body => body.leaves .inWhile
  | .forLoop _ body => body.leaves .inFor

def leavesOfAll (slot : Slot) : List (StmtTree L H) → List (L × Slot)
  | [] => []
  | tree :: trees => tree.leaves slot ++ leavesOfAll slot trees

end

def leafTokens : List (StmtToken L H) → List L
  | [] => []
  | .leaf l :: ts => l :: leafTokens ts
  | _ :: ts => leafTokens ts

/-- Every leaf is followed by its semicolon. -/
def LeavesEnd : List (StmtToken L H) → Prop
  | [] => True
  | .leaf _ :: ts => ts.head? = some .semicolon ∧ LeavesEnd ts
  | _ :: ts => LeavesEnd ts

theorem leavesOfAll_singleton (slot : Slot) (tree : StmtTree L H) :
    leavesOfAll slot [tree] = tree.leaves slot := by
  rw [leavesOfAll, leavesOfAll, List.append_nil]

theorem Parses.leavesEnd {phrase : Phrase} {ts rest : List (StmtToken L H)}
    {trees : List (StmtTree L H)} (h : Parses phrase ts trees rest) (hrest : LeavesEnd rest) :
    LeavesEnd ts := by
  induction h with
  | leaf l rest => exact ⟨rfl, hrest⟩
  | block _ ih => exact ih hrest
  | ifThen _ _ ih => exact ih hrest
  | ifElse _ _ ihBody ihOther => exact ihBody (ihOther hrest)
  | whileLoop _ ih => exact ih hrest
  | forLoop _ ih => exact ih hrest
  | bodyEnd => exact hrest
  | bodyNext _ _ ihFirst ihOthers => exact ihFirst (ihOthers hrest)

theorem Parses.leaves {phrase : Phrase} {ts rest : List (StmtToken L H)}
    {trees : List (StmtTree L H)} (h : Parses phrase ts trees rest) (slot : Slot) :
    leafTokens ts = (leavesOfAll slot trees).map Prod.fst ++ leafTokens rest := by
  induction h generalizing slot with
  | leaf l rest => rfl
  | block _ ih =>
      rw [leavesOfAll_singleton]
      exact ih .inBlock
  | ifThen _ _ ih =>
      simp only [leavesOfAll_singleton] at ih ⊢
      exact ih .inIf
  | ifElse _ _ ihBody ihOther =>
      simp only [leavesOfAll_singleton, leafTokens, StmtTree.leaves, List.map_append,
        List.append_assoc] at ihBody ihOther ⊢
      rw [ihBody .inIf, ihOther .inIf]
  | whileLoop _ ih =>
      simp only [leavesOfAll_singleton] at ih ⊢
      exact ih .inWhile
  | forLoop _ ih =>
      simp only [leavesOfAll_singleton] at ih ⊢
      exact ih .inFor
  | bodyEnd => rfl
  | bodyNext _ _ ihFirst ihOthers =>
      simp only [leavesOfAll_singleton] at ihFirst
      rw [leavesOfAll, List.map_append, List.append_assoc, ihFirst slot, ihOthers slot]

/-! ## Guards around leaves -/

/-- The condition put before a leaf, and whether the two get a block of their own. -/
structure Guard (H : Type*) where
  condition : H
  addBrackets : Bool

def guardedLeaf (l : L) : Option (Guard H) → StmtTree L H
  | none => .leaf l
  | some ⟨condition, false⟩ => .ifThen condition (.leaf l)
  | some ⟨condition, true⟩ => .block [.ifThen condition (.leaf l)]

mutual

def StmtTree.insertGuards (guardOf : L → Option (Guard H)) : StmtTree L H → StmtTree L H
  | .leaf l => guardedLeaf l (guardOf l)
  | .block body => .block (insertGuardsAll guardOf body)
  | .ifThen condition body => .ifThen condition (body.insertGuards guardOf)
  | .ifElse condition body other =>
      .ifElse condition (body.insertGuards guardOf) (other.insertGuards guardOf)
  | .whileLoop condition body => .whileLoop condition (body.insertGuards guardOf)
  | .forLoop header body => .forLoop header (body.insertGuards guardOf)

def insertGuardsAll (guardOf : L → Option (Guard H)) : List (StmtTree L H) → List (StmtTree L H)
  | [] => []
  | tree :: trees => tree.insertGuards guardOf :: insertGuardsAll guardOf trees

end

/-- What stands for a leaf and its semicolon. -/
def guardedTokens (l : L) : Option (Guard H) → List (StmtToken L H)
  | none => [.leaf l, .semicolon]
  | some ⟨condition, false⟩ => [.ifWord, .header condition, .leaf l, .semicolon]
  | some ⟨condition, true⟩ =>
      [.leftBrace, .ifWord, .header condition, .leaf l, .semicolon, .rightBrace]

def insertGuardTokens (guardOf : L → Option (Guard H)) :
    List (StmtToken L H) → List (StmtToken L H)
  | [] => []
  | .leaf l :: .semicolon :: ts =>
      guardedTokens l (guardOf l) ++ insertGuardTokens guardOf ts
  | t :: ts => t :: insertGuardTokens guardOf ts

section Guards

variable {guardOf : L → Option (Guard H)}

/-- A guard below another statement than a block has a block of its own. -/
def Bracketed (guardOf : L → Option (Guard H)) (leaves : List (L × Slot)) : Prop :=
  ∀ leaf ∈ leaves, ∀ guard, guardOf leaf.1 = some guard →
    leaf.2 ≠ .inBlock → guard.addBrackets = true

theorem insertGuardTokens_head (ts : List (StmtToken L H))
    (h : ts.head? ≠ some .elseWord) : (insertGuardTokens guardOf ts).head? ≠ some .elseWord := by
  unfold insertGuardTokens
  split
  · simp
  · rename_i l ts
    rcases guardOf l with _ | ⟨condition, _ | _⟩ <;> simp [guardedTokens]
  · simpa using h

/-- A leaf with its guard is one statement, which takes no `else` that follows. -/
theorem Parses.guardedLeaf {l : L} {slot : Slot} {rest : List (StmtToken L H)}
    (hguard : Bracketed guardOf [(l, slot)])
    (hrest : slot ≠ .inBlock ∨ rest.head? ≠ some .elseWord) :
    Parses .statement (guardedTokens l (guardOf l) ++ rest) [guardedLeaf l (guardOf l)] rest := by
  cases hleaf : guardOf l with
  | none => exact Parses.leaf l rest
  | some guard =>
      obtain ⟨condition, _ | _⟩ := guard
      · have hblock : slot = .inBlock := by
          by_contra hslot
          exact absurd (hguard _ (List.mem_singleton_self _) _ hleaf hslot) (by simp)
        exact Parses.ifThen (Parses.leaf l rest) (hrest.resolve_left (not_not.mpr hblock))
      · refine Parses.block (Parses.bodyNext (Parses.ifThen (Parses.leaf l _) ?_)
          (Parses.bodyEnd rest))
        simp

/-- Where a phrase stands: a body is below a block, and no `else` follows a statement of one. -/
def Stands (slot : Slot) (rest : List (StmtToken L H)) : Phrase → Prop
  | .statement => slot ≠ .inBlock ∨ rest.head? ≠ some .elseWord
  | .body => slot = .inBlock

theorem Bracketed.left {first others : List (L × Slot)} (h : Bracketed guardOf (first ++ others)) :
    Bracketed guardOf first := fun leaf hleaf => h leaf (List.mem_append_left others hleaf)

theorem Bracketed.right {first others : List (L × Slot)} (h : Bracketed guardOf (first ++ others)) :
    Bracketed guardOf others := fun leaf hleaf => h leaf (List.mem_append_right first hleaf)

theorem Parses.insertGuards {phrase : Phrase} {ts rest : List (StmtToken L H)}
    {trees : List (StmtTree L H)} (h : Parses phrase ts trees rest) (slot : Slot)
    (hguard : Bracketed guardOf (leavesOfAll slot trees)) (hstands : Stands slot rest phrase) :
    Parses phrase (insertGuardTokens guardOf ts) (insertGuardsAll guardOf trees)
      (insertGuardTokens guardOf rest) := by
  induction h generalizing slot with
  | leaf l rest =>
      simp only [leavesOfAll_singleton] at hguard
      refine Parses.guardedLeaf hguard (hstands.imp_right fun hrest => ?_)
      exact insertGuardTokens_head rest hrest
  | block _ ih =>
      simp only [leavesOfAll_singleton] at hguard
      exact Parses.block (ih .inBlock hguard rfl)
  | @ifThen _ _ rest _ _ hrest ih =>
      simp only [leavesOfAll_singleton] at hguard ih
      refine Parses.ifThen (ih .inIf hguard (Or.inl nofun)) ?_
      exact insertGuardTokens_head rest hrest
  | ifElse _ _ ihBody ihOther =>
      simp only [leavesOfAll_singleton] at hguard ihBody ihOther
      exact Parses.ifElse (ihBody .inIf hguard.left (Or.inl nofun))
        (ihOther .inIf hguard.right (Or.inl nofun))
  | whileLoop _ ih =>
      simp only [leavesOfAll_singleton] at hguard ih
      exact Parses.whileLoop (ih .inWhile hguard (Or.inl nofun))
  | forLoop _ ih =>
      simp only [leavesOfAll_singleton] at hguard ih
      exact Parses.forLoop (ih .inFor hguard (Or.inl nofun))
  | bodyEnd rest => exact Parses.bodyEnd (insertGuardTokens guardOf rest)
  | bodyNext _ hothers ihFirst ihOthers =>
      obtain rfl : slot = .inBlock := hstands
      simp only [leavesOfAll_singleton] at ihFirst
      exact Parses.bodyNext (ihFirst .inBlock hguard.left (Or.inr hothers.body_head))
        (ihOthers .inBlock hguard.right rfl)

end Guards

end F1X.Library
