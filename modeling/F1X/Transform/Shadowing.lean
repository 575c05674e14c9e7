import Mathlib.Data.List.Dedup
import F1X.Library.LexicalScopes
import F1X.Transform.Expr

/-!
# Shadowed components

Whether the identifiers of the components that `collectComponents` returns denote
the same declarations at the location as where the components were found.  The
text of a component is all that the search space keeps of it.
-/

namespace F1X

open Library

/-- The identifiers that scoping resolves, which the names of members are not. -/
def Expr.identifiers : Expr → List String
  | .declRef _ name => [name]
  | .member _ base _ _ => base.identifiers
  | .arraySubscript _ base index => base.identifiers ++ index.identifiers
  | .cast _ subExpr | .implicitCast _ _ subExpr | .paren subExpr
  | .unaryOperator _ _ subExpr => subExpr.identifiers
  | .binaryOperator _ _ lhs rhs => lhs.identifiers ++ rhs.identifiers
  | .integerLiteral _ _ | .characterLiteral _ => []

namespace Shadowing

/-! ## Locations -/

/-- What a declaration declares; functions, types and enumerators hide variables too. -/
inductive Declarator where
  | variable_ (vd : VarDecl)
  | other (name : String)

def Declarator.name : Declarator → String
  | .variable_ vd => vd.name
  | .other name => name

def Declarator.vd : Declarator → Option VarDecl
  | .variable_ vd => some vd
  | .other _ => none

/-- The names that declarators bring into force, the last one first. -/
def declaredBy (declarators : List Declarator) : List String :=
  (declarators.map (·.name)).reverse

inductive Item where
  | statement (item : BlockItem) (isStatement : ∀ vds, item ≠ .declaration vds)
  | declaration (declarators : List Declarator)

/-- What `collectVisible` sees of an item. -/
def Item.item : Item → BlockItem
  | .statement item _ => item
  | .declaration declarators => .declaration (declarators.filterMap (·.vd))

def Item.declared : Item → List String
  | .statement _ _ => []
  | .declaration declarators => declaredBy declarators

/--
The item that has the location.  A declaration is split into the declarators in
force at the location and those behind it.
-/
inductive CurrentItem where
  | statement (item : BlockItem) (isStatement : ∀ vds, item ≠ .declaration vds)
  | declaration (inForce rest : List Declarator)

def CurrentItem.item : CurrentItem → Item
  | .statement item isStatement => .statement item isStatement
  | .declaration inForce rest => .declaration (inForce ++ rest)

def CurrentItem.declared : CurrentItem → List String
  | .statement _ _ => []
  | .declaration inForce _ => declaredBy inForce

/-- A block around a location on a line: the items before and behind the one that has it. -/
structure Block (line : Nat) where
  before : List (Nat × Item)
  currentLine : Nat
  current : CurrentItem
  after : List (Nat × Item)
  behind : ∀ item ∈ after, line ≤ item.1

/-- What encloses a location; a loop declares what is in force of its first clause. -/
inductive ScopeNode (line : Nat) where
  | function (parameters globals : List VarDecl)
  | compound (block : Block line)
  | forLoop (declared : List VarDecl)
  | other

/-- A location in a function; `located` is its expression, unless a guard is put there. -/
structure RepairLocation where
  line : Nat
  scopes : List (ScopeNode line)
  located : Option Expr

variable {line : Nat}

def Block.items (block : Block line) : List (Nat × Item) :=
  block.before ++ (block.currentLine, block.current.item) :: block.after

def ScopeNode.node : ScopeNode line → EnclosingNode
  | .function parameters globals => .function parameters globals
  | .compound block => .compound (block.items.map fun item => (item.1, item.2.item))
  | .forLoop _ => .other
  | .other => .other

/-- The declarations of a file with one name declare one variable. -/
def fileScope (line : Nat) (globals : List VarDecl) : List String :=
  ((globals.filter fun vd => line > vd.beginLine).map (·.name)).dedup

def functionScope (line : Nat) (parameters globals : List VarDecl) : List String :=
  (parameters.map (·.name)).reverse ++ fileScope line globals

def inForceAfter : List (Nat × Item) → List String → List String
  | [], inForce => inForce
  | item :: items, inForce => inForceAfter items (item.2.declared ++ inForce)

def inForce : List (ScopeNode line) → List String
  | [] => []
  | .function parameters globals :: _ => functionScope line parameters globals
  | .compound block :: outer =>
      block.current.declared ++ inForceAfter block.before (inForce outer)
  | .forLoop declared :: outer => (declared.map (·.name)).reverse ++ inForce outer
  | .other :: outer => inForce outer

/-! ## What is found where -/

/--
An expression with the names in force where it is found: those declared behind
the location, and those in force at the location or before it.
-/
structure Mention where
  expr : Expr
  ahead : List String
  inForce : List String

/-- The declaration that a name denotes where an expression is found. -/
def Mention.denotes (m : Mention) (name : String) : Option (Nat ⊕ Nat) :=
  match declarationOf name m.ahead with
  | some k => some (.inr k)
  | none => (declarationOf name m.inForce).map .inl

/-- A variable is found behind its own declarator. -/
def declarationMentions : List Declarator → List String → List Mention
  | [], _ => []
  | declarator :: declarators, inForce =>
      (VarDecl.references (declarator.vd.toList.filter (·.hasInit))).map
          (fun expr => ⟨expr, [], declarator.name :: inForce⟩) ++
        declarationMentions declarators (declarator.name :: inForce)

/-- The rest of a declaration that has the location. -/
def restMentions : List Declarator → List String → List String → List Mention
  | [], _, _ => []
  | declarator :: declarators, ahead, inForce =>
      (VarDecl.references (declarator.vd.toList.filter (·.hasInit))).map
          (fun expr => ⟨expr, declarator.name :: ahead, inForce⟩) ++
        restMentions declarators (declarator.name :: ahead) inForce

def statementMentions (item : BlockItem) (inForce : List String) : List Mention :=
  item.collect.map fun expr => ⟨expr, [], inForce⟩

def itemMentions (item : Item) (inForce : List String) : List Mention :=
  match item with
  | .statement item _ => statementMentions item inForce
  | .declaration declarators => declarationMentions declarators inForce

def currentMentions (current : CurrentItem) (inForce : List String) : List Mention :=
  match current with
  | .statement item _ => statementMentions item inForce
  | .declaration declarators rest =>
      declarationMentions declarators inForce ++
        restMentions rest [] (declaredBy declarators ++ inForce)

def beforeMentions (line : Nat) : List (Nat × Item) → List String → List Mention
  | [], _ => []
  | item :: items, inForce =>
      (if line > item.1 then itemMentions item.2 inForce else []) ++
        beforeMentions line items (item.2.declared ++ inForce)

def blockMentions (block : Block line) (inForce : List String) : List Mention :=
  beforeMentions line block.before inForce ++
    if line > block.currentLine then
      currentMentions block.current (inForceAfter block.before inForce)
    else []

def visibleMentions (useGlobalVariables : Bool) : List (ScopeNode line) → List Mention
  | [] => []
  | .function parameters globals :: _ =>
      (VarDecl.references parameters).map
          (fun expr => ⟨expr, [], functionScope line parameters globals⟩) ++
        (if useGlobalVariables then
          (VarDecl.references (globals.filter fun vd => line > vd.beginLine)).map
            fun expr => ⟨expr, [], fileScope line globals⟩
        else [])
  | .compound block :: outer =>
      blockMentions block (inForce outer) ++ visibleMentions useGlobalVariables outer
  | .forLoop _ :: outer => visibleMentions useGlobalVariables outer
  | .other :: outer => visibleMentions useGlobalVariables outer

def locatedMentions (loc : RepairLocation) : List Mention :=
  (match loc.located with
    | some expr => expr.collect false false
    | none => []).map fun expr => ⟨expr, [], inForce loc.scopes⟩

/-- What is found for a location, in the order of the loops of `collectComponents`. -/
def mentions (useGlobalVariables : Bool) (loc : RepairLocation) : List Mention :=
  locatedMentions loc ++ visibleMentions useGlobalVariables loc.scopes

section Components

variable (print : Expr → String) (useGlobalVariables : Bool)

def keepNew (result : List Mention) (m : Mention) : List Mention :=
  if result.any fun old => m.expr.toString print = old.expr.toString print then result
  else result ++ [m]

/-- The components with where they were found. -/
def returned (loc : RepairLocation) : List Mention :=
  (mentions useGlobalVariables loc).foldl (keepNew print) []

/-- `collectComponents`; a guarded call or jump adds nothing of its own. -/
def components (loc : RepairLocation) : List Expr :=
  match loc.located with
  | some expr =>
      collectComponents print useGlobalVariables expr loc.line (loc.scopes.map ScopeNode.node)
  | none =>
      (collectVisible useGlobalVariables loc.line (loc.scopes.map ScopeNode.node)).foldl
        (addNew print) []

/-- Each identifier of a component denotes at the location what it denotes where it was found. -/
def KeepsMeaning (loc : RepairLocation) : Prop :=
  ∀ m ∈ returned print useGlobalVariables loc, ∀ name ∈ m.expr.identifiers,
    (declarationOf name (inForce loc.scopes)).map .inl = m.denotes name

/-- The names that are declared between the location and the place of an expression. -/
def declaredBetween (loc : RepairLocation) (m : Mention) : List String :=
  declaredSince (inForce loc.scopes) m.inForce ++ m.ahead

/--
Whatever is found before a declaration of one of its identifiers has come into force,
or behind one that has not yet, has been found earlier: in the repaired statement, in
an inner block or further up.
-/
def HiddenOnlyIfRepeated (loc : RepairLocation) : Prop :=
  ∀ earlier m later, mentions useGlobalVariables loc = earlier ++ m :: later →
    ∀ name ∈ m.expr.identifiers, name ∈ declaredBetween loc m →
      ∃ old ∈ earlier, old.expr.toString print = m.expr.toString print

end Components

/-! ## The components are those of the code -/

theorem foundAt_expr (exprs : List Expr) (ahead inForce : List String) :
    (exprs.map fun expr => (⟨expr, ahead, inForce⟩ : Mention)).map (·.expr) = exprs := by
  rw [List.map_map]
  exact List.map_id exprs

theorem references_cons (declarator : Declarator) (declarators : List Declarator) :
    VarDecl.references (((declarator :: declarators).filterMap (·.vd)).filter (·.hasInit)) =
      VarDecl.references (declarator.vd.toList.filter (·.hasInit)) ++
        VarDecl.references ((declarators.filterMap (·.vd)).filter (·.hasInit)) := by
  cases declarator with
  | variable_ vd =>
      cases hinit : vd.hasInit <;> cases hsuitable : vd.type.isSuitableComponentType <;>
        simp [VarDecl.references, Declarator.vd, hinit, hsuitable]
  | other name => rfl

theorem declarationMentions_expr (declarators : List Declarator) (inForce : List String) :
    (declarationMentions declarators inForce).map (·.expr) =
      VarDecl.references ((declarators.filterMap (·.vd)).filter (·.hasInit)) := by
  induction declarators generalizing inForce with
  | nil => rfl
  | cons declarator declarators ih =>
      rw [declarationMentions, List.map_append, ih, foundAt_expr, references_cons]

private theorem restMentions_expr (declarators : List Declarator) (ahead inForce : List String) :
    (restMentions declarators ahead inForce).map (·.expr) =
      VarDecl.references ((declarators.filterMap (·.vd)).filter (·.hasInit)) := by
  induction declarators generalizing ahead with
  | nil => rfl
  | cons declarator declarators ih =>
      rw [restMentions, List.map_append, ih, foundAt_expr, references_cons]

private theorem itemMentions_expr (item : Item) (inForce : List String) :
    (itemMentions item inForce).map (·.expr) = item.item.collect := by
  cases item with
  | statement item _ => exact foundAt_expr _ _ _
  | declaration declarators => exact declarationMentions_expr declarators inForce

private theorem currentMentions_expr (current : CurrentItem) (inForce : List String) :
    (currentMentions current inForce).map (·.expr) = current.item.item.collect := by
  cases current with
  | statement item _ => exact foundAt_expr _ _ _
  | declaration declarators rest =>
      simp [currentMentions, declarationMentions_expr, restMentions_expr, CurrentItem.item,
        Item.item, BlockItem.collect, VarDecl.references]

private theorem beforeMentions_expr (line : Nat) (items : List (Nat × Item))
    (inForce : List String) :
    (beforeMentions line items inForce).map (·.expr) =
      items.flatMap fun item => if line > item.1 then item.2.item.collect else [] := by
  induction items generalizing inForce with
  | nil => rfl
  | cons item items ih =>
      rw [beforeMentions, List.map_append, ih, List.flatMap_cons]
      by_cases hline : line > item.1
      · rw [if_pos hline, if_pos hline, itemMentions_expr]
      · rw [if_neg hline, if_neg hline]
        rfl

private theorem collect_after (block : Block line) :
    (block.after.flatMap fun item => if line > item.1 then item.2.item.collect else []) = [] := by
  refine List.flatMap_eq_nil_iff.mpr fun item hitem => ?_
  rw [if_neg (Nat.not_lt.mpr (block.behind item hitem))]

private theorem blockMentions_expr (block : Block line) (inForce : List String) :
    (blockMentions block inForce).map (·.expr) =
      block.items.flatMap fun item => if line > item.1 then item.2.item.collect else [] := by
  rw [blockMentions, List.map_append, beforeMentions_expr, Block.items, List.flatMap_append,
    List.flatMap_cons, collect_after, List.append_nil]
  by_cases hline : line > block.currentLine
  · rw [if_pos hline, if_pos hline, currentMentions_expr]
  · rw [if_neg hline, if_neg hline]
    rfl

private theorem visibleMentions_expr (useGlobalVariables : Bool) (scopes : List (ScopeNode line)) :
    (visibleMentions useGlobalVariables scopes).map (·.expr) =
      collectVisible useGlobalVariables line (scopes.map ScopeNode.node) := by
  induction scopes with
  | nil => rfl
  | cons scope outer ih =>
      cases scope with
      | function parameters globals =>
          cases useGlobalVariables <;>
            simp [visibleMentions, collectVisible, ScopeNode.node, Function.comp_def]
      | compound block =>
          rw [visibleMentions, List.map_append, ih, blockMentions_expr, List.map_cons,
            ScopeNode.node, collectVisible, List.flatMap_map]
      | forLoop declared => exact ih
      | other => exact ih

private theorem keepNew_expr (print : Expr → String) (result : List Mention) (m : Mention) :
    (keepNew print result m).map (·.expr) = addNew print (result.map (·.expr)) m.expr := by
  unfold keepNew addNew
  rw [List.any_map]
  cases hany : result.any fun old => m.expr.toString print = old.expr.toString print with
  | false => simp [Function.comp_def, hany]
  | true => simp [Function.comp_def, hany]

private theorem foldl_keepNew_expr (print : Expr → String) (result found : List Mention) :
    (found.foldl (keepNew print) result).map (·.expr) =
      (found.map (·.expr)).foldl (addNew print) (result.map (·.expr)) := by
  induction found generalizing result with
  | nil => rfl
  | cons m found ih =>
      rw [List.foldl_cons, ih, List.map_cons, List.foldl_cons, keepNew_expr]

theorem returned_expr (print : Expr → String) (useGlobalVariables : Bool)
    (loc : RepairLocation) :
    (returned print useGlobalVariables loc).map (·.expr) =
      components print useGlobalVariables loc := by
  unfold returned components mentions locatedMentions
  rw [foldl_keepNew_expr, List.map_append, visibleMentions_expr, List.foldl_append]
  cases loc.located with
  | none => rfl
  | some expr => simp [collectComponents, mergeComponents, Function.comp_def]

/-! ## Scopes only grow towards the location -/

theorem suffix_inForceAfter (items : List (Nat × Item)) (inForce : List String) :
    inForce <:+ inForceAfter items inForce := by
  induction items generalizing inForce with
  | nil => exact List.suffix_rfl
  | cons item items ih => exact (List.suffix_append item.2.declared inForce).trans (ih _)

theorem mem_foundAt {exprs : List Expr} {ahead inForce : List String} {m : Mention}
    (h : m ∈ exprs.map fun expr => (⟨expr, ahead, inForce⟩ : Mention)) :
    m.inForce = inForce := by
  obtain ⟨expr, -, rfl⟩ := List.mem_map.mp h
  rfl

theorem declarationMentions_suffix {declarators : List Declarator} {inForce : List String}
    {m : Mention} (h : m ∈ declarationMentions declarators inForce) :
    m.inForce <:+ declaredBy declarators ++ inForce := by
  induction declarators generalizing inForce with
  | nil => exact absurd h List.not_mem_nil
  | cons declarator declarators ih =>
      rw [declaredBy, List.map_cons, List.reverse_cons, List.append_assoc]
      rcases List.mem_append.mp h with hfirst | hothers
      · rw [mem_foundAt hfirst]
        exact List.suffix_append _ _
      · exact ih hothers

private theorem restMentions_inForce {declarators : List Declarator} {ahead inForce : List String}
    {m : Mention} (h : m ∈ restMentions declarators ahead inForce) : m.inForce = inForce := by
  induction declarators generalizing ahead with
  | nil => exact absurd h List.not_mem_nil
  | cons declarator declarators ih =>
      rcases List.mem_append.mp h with hfirst | hothers
      · exact mem_foundAt hfirst
      · exact ih hothers

private theorem itemMentions_suffix {item : Item} {inForce : List String} {m : Mention}
    (h : m ∈ itemMentions item inForce) : m.inForce <:+ item.declared ++ inForce := by
  cases item with
  | statement item _ =>
      rw [mem_foundAt h]
      exact List.suffix_append _ _
  | declaration declarators => exact declarationMentions_suffix h

private theorem currentMentions_suffix {current : CurrentItem} {inForce : List String} {m : Mention}
    (h : m ∈ currentMentions current inForce) : m.inForce <:+ current.declared ++ inForce := by
  cases current with
  | statement item _ =>
      rw [mem_foundAt h]
      exact List.suffix_append _ _
  | declaration declarators rest =>
      rcases List.mem_append.mp h with hinForce | hrest
      · exact declarationMentions_suffix hinForce
      · rw [restMentions_inForce hrest]
        exact List.suffix_rfl

private theorem beforeMentions_suffix {items : List (Nat × Item)} {inForce : List String}
    {m : Mention} (h : m ∈ beforeMentions line items inForce) :
    m.inForce <:+ inForceAfter items inForce := by
  induction items generalizing inForce with
  | nil => exact absurd h List.not_mem_nil
  | cons item items ih =>
      rcases List.mem_append.mp h with hitem | hitems
      · split at hitem
        · exact (itemMentions_suffix hitem).trans (suffix_inForceAfter items _)
        · exact absurd hitem List.not_mem_nil
      · exact ih hitems

private theorem blockMentions_suffix {block : Block line} {inForce : List String} {m : Mention}
    (h : m ∈ blockMentions block inForce) :
    m.inForce <:+ block.current.declared ++ inForceAfter block.before inForce := by
  rcases List.mem_append.mp h with hbefore | hcurrent
  · exact (beforeMentions_suffix hbefore).trans (List.suffix_append _ _)
  · split at hcurrent
    · exact currentMentions_suffix hcurrent
    · exact absurd hcurrent List.not_mem_nil

private theorem visibleMentions_suffix {useGlobalVariables : Bool} {scopes : List (ScopeNode line)}
    {m : Mention} (h : m ∈ visibleMentions useGlobalVariables scopes) :
    m.inForce <:+ inForce scopes := by
  induction scopes with
  | nil => exact absurd h List.not_mem_nil
  | cons scope outer ih =>
      cases scope with
      | function parameters globals =>
          rcases List.mem_append.mp h with hparameter | hglobal
          · obtain ⟨expr, -, rfl⟩ := List.mem_map.mp hparameter
            exact List.suffix_rfl
          · split at hglobal
            · obtain ⟨expr, -, rfl⟩ := List.mem_map.mp hglobal
              exact List.suffix_append _ _
            · exact absurd hglobal List.not_mem_nil
      | compound block =>
          rcases List.mem_append.mp h with hblock | houter
          · exact blockMentions_suffix hblock
          · exact ((ih houter).trans (suffix_inForceAfter block.before _)).trans
              (List.suffix_append _ _)
      | forLoop declared => exact (ih h).trans (List.suffix_append _ _)
      | other => exact ih h

theorem mentions_suffix {useGlobalVariables : Bool} {loc : RepairLocation} {m : Mention}
    (h : m ∈ mentions useGlobalVariables loc) : m.inForce <:+ inForce loc.scopes := by
  rcases List.mem_append.mp h with hlocated | hvisible
  · obtain ⟨expr, -, rfl⟩ := List.mem_map.mp hlocated
    exact List.suffix_rfl
  · exact visibleMentions_suffix hvisible

/-! ## The first of each text is kept -/

theorem keepNew_of_old {print : Expr → String} {result : List Mention} {m : Mention}
    (h : ∃ old ∈ result, old.expr.toString print = m.expr.toString print) :
    keepNew print result m = result := by
  obtain ⟨old, hold, htext⟩ := h
  exact if_pos (List.any_eq_true.mpr ⟨old, hold, decide_eq_true htext.symm⟩)

private theorem keepNew_of_new {print : Expr → String} {result : List Mention} {m : Mention}
    (h : ∀ old ∈ result, old.expr.toString print ≠ m.expr.toString print) :
    keepNew print result m = result ++ [m] := by
  refine if_neg fun hany => ?_
  obtain ⟨old, hold, htext⟩ := List.any_eq_true.mp hany
  exact h old hold (of_decide_eq_true htext).symm

def FoundFirst (print : Expr → String) (found : List Mention) (m : Mention) : Prop :=
  ∃ earlier later, found = earlier ++ m :: later ∧
    ∀ old ∈ earlier, old.expr.toString print ≠ m.expr.toString print

theorem foundFirst_append_singleton {print : Expr → String} {found : List Mention}
    {m last : Mention} :
    FoundFirst print (found ++ [last]) m ↔ FoundFirst print found m ∨
      m = last ∧ ∀ old ∈ found, old.expr.toString print ≠ last.expr.toString print := by
  constructor
  · rintro ⟨earlier, later, heq, hnew⟩
    rcases List.eq_nil_or_concat later with rfl | ⟨later, final, rfl⟩
    · obtain ⟨rfl, hlast⟩ := List.append_inj' heq rfl
      obtain rfl := List.singleton_inj.mp hlast
      exact Or.inr ⟨rfl, hnew⟩
    · rw [List.concat_eq_append, ← List.cons_append, ← List.append_assoc] at heq
      obtain ⟨rfl, -⟩ := List.append_inj' heq rfl
      exact Or.inl ⟨earlier, later, rfl, hnew⟩
  · rintro (⟨earlier, later, rfl, hnew⟩ | ⟨rfl, hnew⟩)
    · exact ⟨earlier, later ++ [last], by simp, hnew⟩
    · exact ⟨found, [], rfl, hnew⟩

theorem exists_mem_append_singleton {p : Mention → Prop} {found : List Mention}
    {last : Mention} : (∃ m ∈ found ++ [last], p m) ↔ (∃ m ∈ found, p m) ∨ p last := by
  simp [or_and_right, exists_or]

/-- What is kept has the texts of what is found, and is found first of those with its text. -/
structure KeepsFirst (print : Expr → String) (found kept : List Mention) : Prop where
  texts : ∀ text, (∃ m ∈ kept, m.expr.toString print = text) ↔
    ∃ m ∈ found, m.expr.toString print = text
  first : ∀ m, m ∈ kept ↔ FoundFirst print found m

private theorem keepsFirst_foldl (print : Expr → String) (found : List Mention) :
    KeepsFirst print found (found.foldl (keepNew print) []) := by
  induction found using List.reverseRecOn with
  | nil => exact ⟨by simp, by simp [FoundFirst]⟩
  | append_singleton found last ih =>
      rw [List.foldl_append, List.foldl_cons, List.foldl_nil]
      by_cases hold : ∃ old ∈ found, old.expr.toString print = last.expr.toString print
      · rw [keepNew_of_old ((ih.texts _).mpr hold)]
        refine ⟨fun text => ?_, fun m => ?_⟩
        · rw [ih.texts, exists_mem_append_singleton]
          refine (or_iff_left_of_imp ?_).symm
          rintro rfl
          exact hold
        · rw [ih.first, foundFirst_append_singleton]
          refine (or_iff_left fun hlast => ?_).symm
          obtain ⟨old, hmem, htext⟩ := hold
          exact hlast.2 old hmem htext
      · have hnew : ∀ old ∈ found, old.expr.toString print ≠ last.expr.toString print :=
          fun old hmem htext => hold ⟨old, hmem, htext⟩
        have hkept : ∀ kept ∈ found.foldl (keepNew print) [],
            kept.expr.toString print ≠ last.expr.toString print :=
          fun kept hmem htext => hold ((ih.texts _).mp ⟨kept, hmem, htext⟩)
        rw [keepNew_of_new hkept]
        refine ⟨fun text => ?_, fun m => ?_⟩
        · rw [exists_mem_append_singleton, exists_mem_append_singleton, ih.texts]
        · rw [foundFirst_append_singleton, List.mem_append, ih.first, List.mem_singleton,
            and_iff_left hnew]

/-! ## Meanings -/

theorem denotes_iff {loc : RepairLocation} {m : Mention} (h : m.inForce <:+ inForce loc.scopes)
    (name : String) :
    (declarationOf name (inForce loc.scopes)).map .inl = m.denotes name ↔
      name ∉ declaredBetween loc m := by
  rw [declaredBetween, List.mem_append, not_or, ← declarationOf_eq_iff h]
  by_cases hahead : name ∈ m.ahead
  · obtain ⟨k, hk⟩ := declarationOf_of_mem hahead
    rw [Mention.denotes, hk]
    simp [hahead]
  · rw [Mention.denotes, declarationOf_of_notMem hahead, and_iff_left hahead]
    exact (Option.map_injective fun _ _ => Sum.inl.inj).eq_iff

theorem keepsMeaning_iff_repeated (print : Expr → String) (useGlobalVariables : Bool)
    (loc : RepairLocation) : KeepsMeaning print useGlobalVariables loc ↔
      HiddenOnlyIfRepeated print useGlobalVariables loc := by
  have hfirst := (keepsFirst_foldl print (mentions useGlobalVariables loc)).first
  constructor
  · intro hkeeps earlier m later hsplit name hname hhidden
    have hm : m ∈ mentions useGlobalVariables loc := by simp [hsplit]
    by_contra hold
    have hreturned : m ∈ returned print useGlobalVariables loc :=
      (hfirst m).mpr ⟨earlier, later, hsplit, fun old hmem htext => hold ⟨old, hmem, htext⟩⟩
    exact (denotes_iff (mentions_suffix hm) name).mp (hkeeps m hreturned name hname) hhidden
  · intro hrepeated m hreturned name hname
    obtain ⟨earlier, later, hsplit, hnew⟩ := (hfirst m).mp hreturned
    have hm : m ∈ mentions useGlobalVariables loc := by simp [hsplit]
    rw [denotes_iff (mentions_suffix hm)]
    intro hhidden
    obtain ⟨old, hold, htext⟩ := hrepeated earlier m later hsplit name hname hhidden
    exact hnew old hold htext

theorem keepsMeaning_of_nodup {print : Expr → String} {useGlobalVariables : Bool}
    {loc : RepairLocation} (hnodup : (inForce loc.scopes).Nodup)
    (hdeclared : ∀ m ∈ mentions useGlobalVariables loc, ∀ name ∈ m.expr.identifiers,
      name ∈ m.inForce ∧ name ∉ m.ahead) : KeepsMeaning print useGlobalVariables loc := by
  refine (keepsMeaning_iff_repeated print useGlobalVariables loc).mpr ?_
  intro earlier m later hsplit name hname hhidden
  have hm : m ∈ mentions useGlobalVariables loc := by simp [hsplit]
  obtain ⟨hinForce, hahead⟩ := hdeclared m hm name hname
  have hsince := notMem_declaredSince_of_nodup (mentions_suffix hm) hnodup hinForce
  exact absurd hhidden (by simp [declaredBetween, hsince, hahead])

def int : QualType := .builtin .int true

/--
The right side of an assignment to `y` in an inner block, whose `x` has no value yet;
the `x` of the function body has one.
-/
def uninitialisedInner : RepairLocation where
  line := 5
  scopes :=
    [.compound ⟨[(4, .declaration [.variable_ ⟨"x", int, false, 4⟩])], 5,
       .statement (.assignment (.declRef int "y") (.integerLiteral .int "2")) (by simp),
       [], by simp⟩,
     .compound ⟨[(2, .declaration [.variable_ ⟨"x", int, true, 2⟩])], 3,
       .statement .other (by simp), [], by simp⟩,
     .function [⟨"y", int, false, 1⟩] []]
  located := some (.integerLiteral .int "2")

/-- `int a =`, `(y = 2),` and `x = 3;` on three lines: the 2 stands before the `x`. -/
def notYetDeclared : RepairLocation where
  line := 3
  scopes :=
    [.compound ⟨[], 2, .declaration [.variable_ ⟨"a", int, true, 2⟩]
       [.variable_ ⟨"x", int, true, 4⟩], [], by simp⟩,
     .function [⟨"y", int, false, 1⟩, ⟨"x", int, false, 1⟩] []]
  located := some (.integerLiteral .int "2")

example : ¬KeepsMeaning Expr.printed false notYetDeclared := by
  intro hkeeps
  have hreturned : ⟨.declRef int "x", ["x"], ["a", "x", "y"]⟩ ∈
      returned Expr.printed false notYetDeclared := List.mem_of_getElem? (i := 1) rfl
  exact absurd (hkeeps _ hreturned "x" (List.mem_singleton_self _)) (by decide)

end Shadowing

end F1X
