import F1X.Library.CStatements
import F1X.Transform.GuardExtraction

/-!
# Guards in statements

The text that `IfGuardSchemaApplicationHandler::run` and its namesake in
`transform/PatchApplication.cpp` leave behind, read again as C statements.  The
two differ in the statements they take and in the condition of the guard.
-/

namespace F1X

open Library

/-! ## Parents -/

inductive ForPart where
  | init
  | cond
  | inc
  | body
  deriving DecidableEq

/-- The first parent of a statement, with the part of it that the statement is. -/
inductive ParentNode where
  | compoundStmt
  | ifStmt (isCond : Bool)
  | forStmt (part : ForPart)
  | whileStmt (isCond : Bool)
  | other

def isChildOfNonblock : ParentNode → Bool
  | .ifStmt isCond => !isCond
  | .forStmt part => part ≠ .cond ∧ part ≠ .inc ∧ part ≠ .init
  | .whileStmt isCond => !isCond
  | .compoundStmt => false
  | .other => false

def isTopLevelStatement : Option ParentNode → Bool
  | none => true
  | some .compoundStmt => true
  | some parent => isChildOfNonblock parent

def parentOf : Slot → ParentNode
  | .inBlock => .compoundStmt
  | .inIf => .ifStmt false
  | .inWhile => .whileStmt false
  | .inFor => .forStmt .body

private theorem isTopLevelStatement_parentOf (slot : Slot) :
    isTopLevelStatement (some (parentOf slot)) = true := by
  cases slot <;> rfl

private theorem isChildOfNonblock_parentOf (slot : Slot) :
    isChildOfNonblock (parentOf slot) = true ↔ slot ≠ .inBlock := by
  cases slot <;> decide

namespace GuardedStatements

/-! ## Texts -/

/-- A call, `break` or `continue`; `printed` is `toString` of it. -/
structure Leaf where
  beginLine : Nat
  beginColumn : Nat
  endLine : Nat
  endColumn : Nat
  parents : List EnclosingNode
  printed : String

def Leaf.position (l : Leaf) : Nat × Nat := (l.beginLine, l.beginColumn)

def fixedSpelling : StmtToken Leaf String → Option String
  | .leftBrace => some "\x7b"
  | .rightBrace => some "\x7d"
  | .semicolon => some ";"
  | .ifWord => some "if"
  | .elseWord => some "else"
  | .whileWord => some "while"
  | .forWord => some "for"
  | .header condition => some ("(" ++ condition ++ ")")
  | .leaf _ => none

/--
A token with the blanks and comments before it, among which no semicolon comes
first.  The layout is any text: how characters are lexed is not part of the model.
-/
structure Lexeme where
  layout : List Char
  spelling : String
  token : StmtToken Leaf String
  separated : ∀ c ∈ (layout.dropWhile isBlank).head?, c ≠ ';'
  spelled : ∀ word, fixedSpelling token = some word → spelling = word

def tokens (lexemes : List Lexeme) : List (StmtToken Leaf String) := lexemes.map (·.token)

@[simp] theorem tokens_cons (x : Lexeme) (xs : List Lexeme) :
    tokens (x :: xs) = x.token :: tokens xs := rfl

@[simp] theorem tokens_append (xs ys : List Lexeme) :
    tokens (xs ++ ys) = tokens xs ++ tokens ys := List.map_append

/-- The characters of the tokens, and those behind them. -/
def sourceText (behind : List Char) : List Lexeme → List Char
  | [] => behind
  | x :: xs => x.layout ++ x.spelling.toList ++ sourceText behind xs

/-- A statement as text; no two leaves start at one place. -/
structure Source where
  lexemes : List Lexeme
  behind : List Char
  distinct : (leafTokens (tokens lexemes)).Pairwise fun l l' => l.position ≠ l'.position

def slotOf (tree : StmtTree Leaf String) (l : Leaf) : Slot :=
  match (tree.leaves .inBlock).find? fun entry => entry.1.position = l.position with
  | some entry => entry.2
  | none => .inBlock

def matchedStatement (l : Leaf) (slot : Slot) (spelling : String) (following : List Char) :
    MatchedStatement where
  beginLine := l.beginLine
  beginColumn := l.beginColumn
  endLine := l.endLine
  endColumn := l.endColumn
  inMainFile := true
  isChildOfNonblock := isChildOfNonblock (parentOf slot)
  parents := l.parents
  text := l.printed
  rangeSize := spelling.toList.length
  characterData := spelling.toList ++ following

/-- The leaves of a text as they are matched, in their order. -/
def occurrences (slots : Leaf → Slot) (behind : List Char) :
    List Lexeme → List (Leaf × MatchedStatement)
  | [] => []
  | x :: xs =>
      match x.token with
      | .leaf l =>
          (l, matchedStatement l (slots l) x.spelling (sourceText behind xs)) ::
            occurrences slots behind xs
      | _ => occurrences slots behind xs

def Source.occurrences (source : Source) (tree : StmtTree Leaf String) :
    List (Leaf × MatchedStatement) :=
  GuardedStatements.occurrences (slotOf tree) source.behind source.lexemes

def Source.matched (source : Source) (tree : StmtTree Leaf String) : List MatchedStatement :=
  (source.occurrences tree).map Prod.snd

/-! ## Edits -/

/-- A call of `ReplaceText`. -/
structure TextEdit where
  beginLine : Nat
  beginColumn : Nat
  length : Nat
  text : String

def editAt (edits : List TextEdit) (l : Leaf) : Option TextEdit :=
  edits.find? fun edit => (edit.beginLine, edit.beginColumn) = l.position

private theorem editAt_eq_some {edits : List TextEdit} {l : Leaf} {edit : TextEdit}
    (h : editAt edits l = some edit) :
    edit ∈ edits ∧ (edit.beginLine, edit.beginColumn) = l.position := by
  unfold editAt at h
  have hat := List.find?_some h
  exact ⟨List.mem_of_find?_eq_some h, of_decide_eq_true hat⟩

private theorem editAt_eq_none {edits : List TextEdit} {l : Leaf} (h : editAt edits l = none) :
    ∀ edit ∈ edits, (edit.beginLine, edit.beginColumn) ≠ l.position := by
  unfold editAt at h
  simpa using h

def replaceText (x : Lexeme) (following : List Char) : Option TextEdit → List Char
  | some edit =>
      x.layout ++ edit.text.toList ++ following.drop (edit.length - x.spelling.toList.length)
  | none => x.layout ++ x.spelling.toList ++ following

/-- The rewritten text; what an edit replaces behind its leaf is in no other edit. -/
def rewriteText (edits : List TextEdit) (behind : List Char) : List Lexeme → List Char
  | [] => behind
  | x :: xs =>
      match x.token with
      | .leaf l => replaceText x (rewriteText edits behind xs) (editAt edits l)
      | _ => x.layout ++ x.spelling.toList ++ rewriteText edits behind xs

/-! ## The lexemes of the rewritten text -/

def guardedText (condition : String) (stmt : MatchedStatement) : String :=
  (if stmt.isChildOfNonblock then "\x7b " else "") ++
    "if (" ++ condition ++ ") " ++ stmt.text ++
    (if stmt.isChildOfNonblock then "; \x7d" else "")

inductive Agrees (stmt : MatchedStatement) : Option TextEdit → Option (Guard String) → Prop
  | unchanged : Agrees stmt none none
  | edited {edit : TextEdit} {condition : String}
      (hlength : GuardExtraction.replacedLength stmt = some edit.length)
      (htext : edit.text = guardedText condition stmt) :
      Agrees stmt (some edit) (some ⟨condition, stmt.isChildOfNonblock⟩)

theorem Agrees.addBrackets {stmt : MatchedStatement} {edit : Option TextEdit}
    {guard : Guard String} (h : Agrees stmt edit (some guard)) :
    guard.addBrackets = stmt.isChildOfNonblock := by
  cases h
  rfl

private theorem absorbSemicolon_eq_some {origLength length : Nat} {layout following : List Char}
    (hlayout : ∀ c ∈ (layout.dropWhile isBlank).head?, c ≠ ';')
    (h : absorbSemicolon origLength (layout ++ ';' :: following) = some length) :
    length = origLength + layout.length + 1 := by
  induction layout generalizing origLength with
  | nil =>
      rw [List.nil_append, absorbSemicolon, if_pos rfl] at h
      simpa using h.symm
  | cons c layout ih =>
      rw [List.cons_append, absorbSemicolon] at h
      by_cases hblank : isBlank c = true
      · have hsemicolon : c ≠ ';' := by
          rintro rfl
          exact absurd hblank (by decide)
        rw [List.dropWhile_cons_of_pos hblank] at hlayout
        rw [if_neg hsemicolon, if_pos hblank] at h
        rw [ih hlayout h, List.length_cons]
        omega
      · rw [List.dropWhile_cons_of_neg hblank] at hlayout
        rw [if_neg (hlayout c rfl), if_neg hblank] at h
        cases h

/-- The tokens of the guard before a leaf, the brace of its block apart. -/
def guardLexemes (layout : List Char) (hlayout : ∀ c ∈ (layout.dropWhile isBlank).head?, c ≠ ';')
    (condition : String) (l : Leaf) : List Lexeme :=
  [⟨layout, "if", .ifWord, hlayout, by simp [fixedSpelling]⟩,
   ⟨[' '], "(" ++ condition ++ ")", .header condition, by simp [isBlank], by simp [fixedSpelling]⟩,
   ⟨[' '], l.printed, .leaf l, by simp [isBlank], by simp [fixedSpelling]⟩]

/-- A lexeme of the source, or one of a guard, after a blank or where a source lexeme was. -/
def IsRewritten (lexemes : List Lexeme) (x : Lexeme) : Prop :=
  x ∈ lexemes ∨
    (x.layout ∈ [[], [' ']] ∨ ∃ y ∈ lexemes, x.layout = y.layout) ∧
      ∀ l, x.token = .leaf l → x.spelling = l.printed

theorem IsRewritten.mono {xs ys : List Lexeme} {x : Lexeme} (h : IsRewritten xs x)
    (hsubset : xs ⊆ ys) : IsRewritten ys x := by
  rcases h with hmem | ⟨hblank | ⟨y, hy, hlayout⟩, hspelling⟩
  · exact .inl (hsubset hmem)
  · exact .inr ⟨.inl hblank, hspelling⟩
  · exact .inr ⟨.inr ⟨y, hsubset hy, hlayout⟩, hspelling⟩

theorem guardLexemes_isRewritten {lexemes : List Lexeme} {layout : List Char}
    {hseparated : ∀ c ∈ (layout.dropWhile isBlank).head?, c ≠ ';'} (condition : String) (l : Leaf)
    (hlayout : layout ∈ [[], [' ']] ∨ ∃ y ∈ lexemes, layout = y.layout) :
    ∀ x ∈ guardLexemes layout hseparated condition l, IsRewritten lexemes x := by
  refine List.forall_mem_cons.mpr ⟨.inr ⟨hlayout, fun _ h => by cases h⟩, ?_⟩
  simp [IsRewritten]

private theorem sourceText_append (behind : List Char) (first others : List Lexeme) :
    sourceText behind (first ++ others) = sourceText (sourceText behind others) first := by
  induction first with
  | nil => rfl
  | cons x first ih => rw [List.cons_append, sourceText, sourceText, ih]

private theorem replacedLength_of_block {stmt : MatchedStatement}
    (h : stmt.isChildOfNonblock = false) :
    GuardExtraction.replacedLength stmt = some stmt.rangeSize := by
  simp [GuardExtraction.replacedLength, h]

private theorem replacedLength_of_nonblock {stmt : MatchedStatement}
    (h : stmt.isChildOfNonblock = true) :
    GuardExtraction.replacedLength stmt =
      absorbSemicolon stmt.rangeSize (stmt.characterData.drop stmt.rangeSize) := by
  simp [GuardExtraction.replacedLength, h]

private theorem exists_lexemes_leaf {slot : Slot} {following : List Char} {x y : Lexeme}
    {l : Leaf} {edit : Option TextEdit} {guard : Option (Guard String)}
    (hsemicolon : y.token = .semicolon) (hleaf : x.token = .leaf l)
    (hagrees : Agrees (matchedStatement l slot x.spelling
      (y.layout ++ y.spelling.toList ++ following)) edit guard) (rewritten : List Char) :
    ∃ out : List Lexeme, tokens out = guardedTokens l guard ∧ (∀ z ∈ out, IsRewritten [x, y] z) ∧
      sourceText rewritten out =
        replaceText x (y.layout ++ y.spelling.toList ++ rewritten) edit := by
  have hspelling : y.spelling = ";" := y.spelled ";" (by rw [hsemicolon]; rfl)
  cases hagrees with
  | unchanged =>
      refine ⟨[x, y], ?_, fun z hz => .inl hz, ?_⟩
      · simp [tokens, hleaf, hsemicolon, guardedTokens]
      · simp [sourceText, replaceText]
  | @edited edit condition hlength htext =>
      rw [replaceText, htext]
      cases hparent : isChildOfNonblock (parentOf slot) with
      | false =>
          rw [replacedLength_of_block hparent] at hlength
          have hlength : x.spelling.toList.length = edit.length := Option.some.inj hlength
          refine ⟨guardLexemes x.layout x.separated condition l ++ [y], ?_, ?_, ?_⟩
          · simp [tokens, guardLexemes, hsemicolon, guardedTokens, matchedStatement, hparent]
          · refine List.forall_mem_append.mpr ⟨guardLexemes_isRewritten condition l ?_, ?_⟩
            · exact .inr ⟨x, List.mem_cons_self, rfl⟩
            · simp [IsRewritten]
          · simp [guardLexemes, sourceText, guardedText, hparent, hlength, matchedStatement]
      | true =>
          rw [replacedLength_of_nonblock hparent, hspelling] at hlength
          have hlength : absorbSemicolon x.spelling.toList.length
              (y.layout ++ ';' :: following) = some edit.length := by
            simpa [matchedStatement] using hlength
          have habsorbed := absorbSemicolon_eq_some y.separated hlength
          have hdrop : edit.length - x.spelling.toList.length = y.layout.length + 1 := by omega
          have hrest : y.layout.drop (y.layout.length + 1) = [] :=
            List.drop_eq_nil_of_le (Nat.le_succ _)
          refine ⟨⟨x.layout, "\x7b", .leftBrace, x.separated, by simp [fixedSpelling]⟩ ::
            guardLexemes [' '] (by simp [isBlank]) condition l ++
            [⟨[], ";", .semicolon, by simp, by simp [fixedSpelling]⟩,
             ⟨[' '], "\x7d", .rightBrace, by simp [isBlank], by simp [fixedSpelling]⟩], ?_, ?_, ?_⟩
          · simp [tokens, guardLexemes, guardedTokens, matchedStatement, hparent]
          · refine List.forall_mem_append.mpr ⟨List.forall_mem_cons.mpr ⟨?_, ?_⟩, ?_⟩
            · exact .inr ⟨.inr ⟨x, List.mem_cons_self, rfl⟩, fun _ h => by cases h⟩
            · exact guardLexemes_isRewritten condition l (.inl (by simp))
            · simp [IsRewritten]
          · simp [guardLexemes, sourceText, guardedText, hparent, hdrop, hrest, hspelling,
              matchedStatement, List.drop_append]

private theorem exists_lexemes {edits : List TextEdit} {guardOf : Leaf → Option (Guard String)}
    {slots : Leaf → Slot} {behind : List Char} {n : Nat} {xs : List Lexeme}
    (hn : xs.length ≤ n) (hend : LeavesEnd (tokens xs))
    (hagrees : ∀ entry ∈ occurrences slots behind xs,
      Agrees entry.2 (editAt edits entry.1) (guardOf entry.1)) :
    ∃ out : List Lexeme, tokens out = insertGuardTokens guardOf (tokens xs) ∧
      (∀ x ∈ out, IsRewritten xs x) ∧ sourceText behind out = rewriteText edits behind xs := by
  induction n generalizing xs with
  | zero =>
      obtain rfl := List.length_eq_zero_iff.mp (Nat.le_zero.mp hn)
      exact ⟨[], rfl, by simp, rfl⟩
  | succ n ih =>
      cases xs with
      | nil => exact ⟨[], rfl, by simp, rfl⟩
      | cons x xs =>
          cases htoken : x.token with
          | leaf l =>
              rw [tokens_cons, htoken] at hend
              obtain ⟨hsemicolon, hend⟩ := hend
              cases xs with
              | nil => exact absurd hsemicolon nofun
              | cons y ys =>
                  have hsemicolon : y.token = .semicolon := Option.some.inj hsemicolon
                  rw [tokens_cons, hsemicolon] at hend
                  simp only [occurrences, htoken, hsemicolon, List.forall_mem_cons] at hagrees
                  have hys : ys.length ≤ n := by
                    simp only [List.length_cons] at hn
                    omega
                  obtain ⟨out, houtTokens, hout, houtText⟩ := ih hys hend hagrees.2
                  obtain ⟨first, hfirstTokens, hfirst, hfirstText⟩ :=
                    exists_lexemes_leaf hsemicolon htoken hagrees.1 (rewriteText edits behind ys)
                  have hrewritten : ∀ z ∈ first ++ out, IsRewritten (x :: y :: ys) z :=
                    List.forall_mem_append.mpr ⟨fun z hz => (hfirst z hz).mono (by simp),
                      fun z hz => (hout z hz).mono (by simp)⟩
                  refine ⟨first ++ out, ?_, hrewritten, ?_⟩
                  · rw [tokens_append, hfirstTokens, houtTokens, tokens_cons, tokens_cons, htoken,
                      hsemicolon, insertGuardTokens]
                  · rw [sourceText_append, houtText, hfirstText]
                    simp [rewriteText, htoken, hsemicolon]
          | _ =>
              rw [tokens_cons, htoken] at hend
              simp only [occurrences, htoken] at hagrees
              obtain ⟨out, houtTokens, hout, houtText⟩ :=
                ih (Nat.le_of_succ_le_succ hn) hend hagrees
              have hrewritten : ∀ z ∈ x :: out, IsRewritten (x :: xs) z :=
                List.forall_mem_cons.mpr
                  ⟨.inl List.mem_cons_self, fun z hz => (hout z hz).mono (by simp)⟩
              refine ⟨x :: out, ?_, hrewritten, ?_⟩
              · rw [tokens_cons, tokens_cons, houtTokens, htoken, insertGuardTokens]
                exact nofun
              · simp only [sourceText, rewriteText, htoken, houtText]

/-! ## Runs of a handler -/

def positionOf (stmt : MatchedStatement) : Nat × Nat := (stmt.beginLine, stmt.beginColumn)

def EditOf (stmt : MatchedStatement) (edit : TextEdit) (condition : String) : Prop :=
  (edit.beginLine, edit.beginColumn) = positionOf stmt ∧
    GuardExtraction.replacedLength stmt = some edit.length ∧
    edit.text = guardedText condition stmt

structure View where
  alreadyMatched : Finset Location
  edits : List TextEdit

section Runs

variable (current : MatchedStatement → Location) (Selected : MatchedStatement → Prop)
  (Condition : MatchedStatement → String → Prop)

inductive Handles (view : View) (stmt : MatchedStatement) : View → Prop
  | seen (hseen : current stmt ∈ view.alreadyMatched) : Handles view stmt view
  | skipped (hseen : current stmt ∉ view.alreadyMatched)
      (hskip : Selected stmt → GuardExtraction.replacedLength stmt = none) :
      Handles view stmt ⟨insert (current stmt) view.alreadyMatched, view.edits⟩
  | edited {edit : TextEdit} {condition : String} (hseen : current stmt ∉ view.alreadyMatched)
      (hselected : Selected stmt) (hcondition : Condition stmt condition)
      (hedit : EditOf stmt edit condition) :
      Handles view stmt ⟨insert (current stmt) view.alreadyMatched, view.edits ++ [edit]⟩

inductive HandlesAll : View → List MatchedStatement → View → Prop
  | nil (view : View) : HandlesAll view [] view
  | cons {view next after : View} {stmt : MatchedStatement} {stmts : List MatchedStatement}
      (hfirst : Handles current Selected Condition view stmt next)
      (hothers : HandlesAll next stmts after) : HandlesAll view (stmt :: stmts) after

/-- The statements that a handler takes and whose end it finds are the ones with an edit. -/
structure Edited (view : View) (stmts : List MatchedStatement) (after : View) : Prop where
  kept : ∀ edit ∈ view.edits, edit ∈ after.edits
  sound : ∀ edit ∈ after.edits, edit ∈ view.edits ∨ ∃ stmt ∈ stmts,
    current stmt ∉ view.alreadyMatched ∧ Selected stmt ∧
      ∃ condition, Condition stmt condition ∧ EditOf stmt edit condition
  complete : ∀ stmt ∈ stmts, current stmt ∉ view.alreadyMatched → Selected stmt →
    GuardExtraction.replacedLength stmt ≠ none →
    ∃ edit ∈ after.edits, (edit.beginLine, edit.beginColumn) = positionOf stmt

variable {current Selected Condition}

theorem Handles.alreadyMatched {view next : View} {stmt : MatchedStatement}
    (h : Handles current Selected Condition view stmt next) :
    next.alreadyMatched = insert (current stmt) view.alreadyMatched := by
  cases h with
  | seen hseen => exact (Finset.insert_eq_of_mem hseen).symm
  | skipped => rfl
  | edited => rfl

theorem HandlesAll.edited {view after : View} {stmts : List MatchedStatement}
    (h : HandlesAll current Selected Condition view stmts after)
    (hdistinct : stmts.Pairwise fun stmt stmt' => current stmt ≠ current stmt') :
    Edited current Selected Condition view stmts after := by
  induction h with
  | nil view => exact ⟨fun _ hedit => hedit, fun _ hedit => Or.inl hedit, by simp⟩
  | @cons view next after stmt stmts hfirst _ ih =>
      obtain ⟨hstmt, hstmts⟩ := List.pairwise_cons.mp hdistinct
      have hrest := ih hstmts
      have hunseen : ∀ stmt' ∈ stmts, (current stmt' ∉ next.alreadyMatched ↔
          current stmt' ∉ view.alreadyMatched) := by
        intro stmt' hstmt'
        rw [hfirst.alreadyMatched, Finset.mem_insert, not_or,
          and_iff_right (hstmt stmt' hstmt').symm]
      have hold : ∀ edit ∈ view.edits, edit ∈ next.edits := by
        intro edit hedit
        cases hfirst with
        | seen => exact hedit
        | skipped => exact hedit
        | edited => exact List.mem_append_left _ hedit
      refine ⟨fun edit hedit => hrest.kept edit (hold edit hedit), ?_, ?_⟩
      · intro edit hedit
        rcases hrest.sound edit hedit with hedit | ⟨stmt', hstmt', hseen, hselected, hcondition⟩
        · cases hfirst with
          | seen => exact Or.inl hedit
          | skipped => exact Or.inl hedit
          | edited hseen hselected hcondition heditOf =>
              rcases List.mem_append.mp hedit with hedit | hedit
              · exact Or.inl hedit
              · obtain rfl := List.mem_singleton.mp hedit
                exact Or.inr ⟨stmt, List.mem_cons_self, hseen, hselected, _, hcondition, heditOf⟩
        · exact Or.inr ⟨stmt', List.mem_cons_of_mem _ hstmt', (hunseen stmt' hstmt').mp hseen,
            hselected, hcondition⟩
      · intro stmt' hstmt' hseen hselected hlength
        rcases List.mem_cons.mp hstmt' with rfl | hstmt'
        · cases hfirst with
          | seen hseen' => exact absurd hseen' hseen
          | skipped _ hskip => exact absurd (hskip hselected) hlength
          | edited _ _ _ heditOf =>
              exact ⟨_, hrest.kept _ (List.mem_append_right _ List.mem_cons_self), heditOf.1⟩
        · exact hrest.complete stmt' hstmt' ((hunseen stmt' hstmt').mpr hseen) hselected hlength

end Runs

/-! ## Reading the rewritten text -/

theorem occurrences_leaves (slots : Leaf → Slot) (behind : List Char) (xs : List Lexeme) :
    (occurrences slots behind xs).map Prod.fst = leafTokens (tokens xs) := by
  induction xs with
  | nil => rfl
  | cons x xs ih =>
      cases htoken : x.token <;> simp [occurrences, htoken, leafTokens, ih]

theorem occurrences_statement {slots : Leaf → Slot} {behind : List Char} {xs : List Lexeme}
    {l : Leaf} {stmt : MatchedStatement} (h : (l, stmt) ∈ occurrences slots behind xs) :
    positionOf stmt = l.position ∧ stmt.isChildOfNonblock = isChildOfNonblock (parentOf (slots l)) ∧
      stmt.inMainFile = true := by
  induction xs with
  | nil => exact absurd h List.not_mem_nil
  | cons x xs ih =>
      cases htoken : x.token with
      | leaf l' =>
          simp only [occurrences, htoken, List.mem_cons] at h
          rcases h with heq | h
          · obtain ⟨rfl, rfl⟩ := Prod.mk.inj heq
            exact ⟨rfl, rfl, rfl⟩
          · exact ih h
      | _ =>
          simp only [occurrences, htoken] at h
          exact ih h

theorem entry_unique {α : Type} {entries : List (Leaf × α)} {entry entry' : Leaf × α}
    (hdistinct : (entries.map Prod.fst).Pairwise fun l l' => l.position ≠ l'.position)
    (h : entry ∈ entries) (h' : entry' ∈ entries)
    (heq : entry.1.position = entry'.1.position) : entry = entry' := by
  rw [List.pairwise_map] at hdistinct
  have hnodup : (entries.map fun e => e.1.position).Nodup := List.pairwise_map.mpr hdistinct
  exact List.inj_on_of_nodup_map hnodup h h' heq

theorem Source.occurrences_distinct (source : Source) (tree : StmtTree Leaf String) :
    ((source.occurrences tree).map Prod.fst).Pairwise fun l l' => l.position ≠ l'.position := by
  have h := source.distinct
  rwa [← occurrences_leaves (slotOf tree) source.behind] at h

private theorem Source.leaves_distinct {source : Source} {tree : StmtTree Leaf String}
    (hparse : Parses .statement (tokens source.lexemes) [tree] []) :
    ((tree.leaves .inBlock).map Prod.fst).Pairwise fun l l' => l.position ≠ l'.position := by
  have hleaves := hparse.leaves .inBlock
  rw [leavesOfAll_singleton, leafTokens, List.append_nil] at hleaves
  rw [← hleaves]
  exact source.distinct

theorem slotOf_eq {source : Source} {tree : StmtTree Leaf String}
    (hparse : Parses .statement (tokens source.lexemes) [tree] []) {l : Leaf} {slot : Slot}
    (h : (l, slot) ∈ tree.leaves .inBlock) : slotOf tree l = slot := by
  unfold slotOf
  cases hfind : (tree.leaves .inBlock).find? fun entry => entry.1.position = l.position with
  | none => exact absurd (List.find?_eq_none.mp hfind _ h) (by simp)
  | some entry =>
      have hposition := List.find?_some hfind
      have heq := entry_unique (Source.leaves_distinct hparse) (List.mem_of_find?_eq_some hfind) h
        (of_decide_eq_true hposition)
      rw [heq]

private theorem exists_occurrence {source : Source} {tree : StmtTree Leaf String}
    (hparse : Parses .statement (tokens source.lexemes) [tree] []) {l : Leaf} {slot : Slot}
    (h : (l, slot) ∈ tree.leaves .inBlock) : ∃ stmt, (l, stmt) ∈ source.occurrences tree := by
  have hleaves := hparse.leaves .inBlock
  rw [leavesOfAll_singleton, leafTokens, List.append_nil,
    ← occurrences_leaves (slotOf tree) source.behind] at hleaves
  have hmem : l ∈ (source.occurrences tree).map Prod.fst := by
    unfold Source.occurrences
    rw [hleaves]
    exact List.mem_map.mpr ⟨_, h, rfl⟩
  obtain ⟨⟨_, stmt⟩, hentry, rfl⟩ := List.mem_map.mp hmem
  exact ⟨stmt, hentry⟩

/--
The rewritten text is read, in one way, as the tree in which each leaf that the
handler takes has a guard, provided its semicolon is found where it is needed.
Its lexemes are those of the source and those of the guards, which add only blanks
as layout.
-/
def ReadsGuarded (source : Source) (tree : StmtTree Leaf String) (edits : List TextEdit)
    (Chosen : MatchedStatement → Prop) (Condition : MatchedStatement → String → Prop) : Prop :=
  ∃ (out : List Lexeme) (guardOf : Leaf → Option (Guard String)),
    sourceText source.behind out = rewriteText edits source.behind source.lexemes ∧
    (∀ x ∈ out, IsRewritten source.lexemes x) ∧
    (∀ trees rest, Parses .statement (tokens out) trees rest ↔
      trees = [tree.insertGuards guardOf] ∧ rest = []) ∧
    ∀ l slot stmt, (l, slot) ∈ tree.leaves .inBlock → (l, stmt) ∈ source.occurrences tree →
      ((guardOf l).isSome = true ↔ Chosen stmt ∧ (isChildOfNonblock (parentOf slot) = true →
        SemicolonFollows (stmt.characterData.drop stmt.rangeSize))) ∧
      ∀ guard, guardOf l = some guard →
        guard.addBrackets = isChildOfNonblock (parentOf slot) ∧ Condition stmt guard.condition

section Reading

variable {current : MatchedStatement → Location} {Selected : MatchedStatement → Prop}
  {Condition : MatchedStatement → String → Prop} {source : Source}
  {tree : StmtTree Leaf String} {alreadyMatched : Finset Location} {after : View}

structure Explains (stmt : MatchedStatement) (Chosen : Prop) (Condition : String → Prop)
    (edit : Option TextEdit) (guard : Option (Guard String)) : Prop where
  agrees : Agrees stmt edit guard
  isSome : guard.isSome = true ↔ Chosen ∧ GuardExtraction.replacedLength stmt ≠ none
  condition : ∀ g, guard = some g → Condition g.condition

private theorem exists_guard
    (hedited : Edited current Selected Condition ⟨alreadyMatched, []⟩ (source.matched tree) after)
    {l : Leaf} {stmt : MatchedStatement} (hstmt : (l, stmt) ∈ source.occurrences tree) :
    ∃ guard, Explains stmt (current stmt ∉ alreadyMatched ∧ Selected stmt) (Condition stmt)
      (editAt after.edits l) guard := by
  have hposition := (occurrences_statement hstmt).1
  have hmatched : stmt ∈ source.matched tree := List.mem_map.mpr ⟨_, hstmt, rfl⟩
  cases hedit : editAt after.edits l with
  | none =>
      refine ⟨none, Agrees.unchanged, ⟨nofun, ?_⟩, nofun⟩
      rintro ⟨⟨hseen, hselected⟩, hlength⟩
      obtain ⟨edit, hmem, hat⟩ := hedited.complete stmt hmatched hseen hselected hlength
      exact absurd (hat.trans hposition) (editAt_eq_none hedit edit hmem)
  | some edit =>
      obtain ⟨hmem, hat⟩ := editAt_eq_some hedit
      obtain ⟨stmt', hmatched', hseen, hselected, condition, hcondition, hat', hlength, htext⟩ :=
        (hedited.sound edit hmem).resolve_left List.not_mem_nil
      obtain ⟨⟨l', _⟩, hentry, rfl⟩ := List.mem_map.mp hmatched'
      have hposition' := (occurrences_statement hentry).1
      obtain ⟨rfl, rfl⟩ := Prod.mk.inj (entry_unique (source.occurrences_distinct tree) hstmt hentry
        (hat.symm.trans (hat'.trans hposition')))
      refine ⟨some ⟨condition, stmt.isChildOfNonblock⟩, Agrees.edited hlength htext, ?_, ?_⟩
      · exact iff_of_true rfl ⟨⟨hseen, hselected⟩, by simp [hlength]⟩
      · rintro _ ⟨⟩
        exact hcondition

private theorem exists_guards
    (hedited : Edited current Selected Condition ⟨alreadyMatched, []⟩ (source.matched tree) after) :
    ∃ guardOf : Leaf → Option (Guard String), ∀ l stmt, (l, stmt) ∈ source.occurrences tree →
      Explains stmt (current stmt ∉ alreadyMatched ∧ Selected stmt) (Condition stmt)
        (editAt after.edits l) (guardOf l) := by
  have hguard : ∀ l, ∃ guard, ∀ stmt, (l, stmt) ∈ source.occurrences tree →
      Explains stmt (current stmt ∉ alreadyMatched ∧ Selected stmt) (Condition stmt)
        (editAt after.edits l) guard := by
    intro l
    by_cases hoccurs : ∃ stmt, (l, stmt) ∈ source.occurrences tree
    · obtain ⟨stmt, hstmt⟩ := hoccurs
      obtain ⟨guard, hguard⟩ := exists_guard hedited hstmt
      refine ⟨guard, fun stmt' hstmt' => ?_⟩
      obtain ⟨-, rfl⟩ := Prod.mk.inj (entry_unique (source.occurrences_distinct tree) hstmt'
        hstmt rfl)
      exact hguard
    · exact ⟨none, fun stmt hstmt => absurd ⟨stmt, hstmt⟩ hoccurs⟩
  choose guardOf hguardOf using hguard
  exact ⟨guardOf, hguardOf⟩

theorem Explains.addBrackets {l : Leaf} {slot : Slot} {stmt : MatchedStatement} {Chosen : Prop}
    {Holds : String → Prop} {edit : Option TextEdit} {guard : Guard String}
    (hparse : Parses .statement (tokens source.lexemes) [tree] [])
    (hleaf : (l, slot) ∈ tree.leaves .inBlock) (hstmt : (l, stmt) ∈ source.occurrences tree)
    (h : Explains stmt Chosen Holds edit (some guard)) :
    guard.addBrackets = isChildOfNonblock (parentOf slot) := by
  rw [h.agrees.addBrackets, (occurrences_statement hstmt).2.1, slotOf_eq hparse hleaf]

theorem readsGuarded
    (hparse : Parses .statement (tokens source.lexemes) [tree] [])
    (hedited : Edited current Selected Condition ⟨alreadyMatched, []⟩ (source.matched tree) after) :
    ReadsGuarded source tree after.edits
      (fun stmt => current stmt ∉ alreadyMatched ∧ Selected stmt) Condition := by
  obtain ⟨guardOf, hguardOf⟩ := exists_guards hedited
  have haddBrackets : ∀ l slot stmt guard, (l, slot) ∈ tree.leaves .inBlock →
      (l, stmt) ∈ source.occurrences tree → guardOf l = some guard →
      guard.addBrackets = isChildOfNonblock (parentOf slot) := by
    intro l slot stmt guard hleaf hstmt hguard
    exact Explains.addBrackets hparse hleaf hstmt (hguard ▸ hguardOf l stmt hstmt)
  have hbracketed : Bracketed guardOf (leavesOfAll .inBlock [tree]) := by
    rw [leavesOfAll_singleton]
    rintro ⟨l, slot⟩ hleaf guard hguard hslot
    obtain ⟨stmt, hstmt⟩ := exists_occurrence hparse hleaf
    rw [haddBrackets l slot stmt guard hleaf hstmt hguard]
    exact (isChildOfNonblock_parentOf slot).mpr hslot
  obtain ⟨out, htokens, hrewritten, htext⟩ := exists_lexemes (Nat.le_refl source.lexemes.length)
    (hparse.leavesEnd trivial)
    (fun (entry : Leaf × MatchedStatement) hentry => (hguardOf entry.1 entry.2 hentry).agrees)
  have hout : Parses .statement (tokens out) [tree.insertGuards guardOf] [] := by
    rw [htokens]
    exact hparse.insertGuards .inBlock hbracketed (Or.inr nofun)
  refine ⟨out, guardOf, htext, hrewritten, fun trees rest => ⟨fun h => h.unique hout, ?_⟩, ?_⟩
  · rintro ⟨rfl, rfl⟩
    exact hout
  · intro l slot stmt hleaf hstmt
    have hexplains := hguardOf l stmt hstmt
    have hchild := (occurrences_statement hstmt).2.1
    rw [slotOf_eq hparse hleaf] at hchild
    refine ⟨?_, fun guard hguard =>
      ⟨haddBrackets l slot stmt guard hleaf hstmt hguard, hexplains.condition guard hguard⟩⟩
    rw [hexplains.isSome, ← Option.isSome_iff_ne_none, GuardExtraction.replacedLength_isSome_iff,
      hchild]

end Reading

/-! ## The two handlers -/

section Instrumentation

variable (cfg : TransformRun)

def guardCondition (appId : Nat) (stmt : MatchedStatement) (arguments : String) : String :=
  "!(__f1xapp == " ++ toString appId ++ "ul) || " ++
    "__f1x_" ++ toString cfg.fileId ++ "_" ++ toString stmt.beginLine ++ "_" ++
    toString stmt.beginColumn ++ "_" ++ toString stmt.endLine ++ "_" ++
    toString stmt.endColumn ++
    "(" ++ arguments ++ ")"

private theorem guardText_eq (appId : Nat) (stmt : MatchedStatement) (arguments : String) :
    GuardExtraction.guardText cfg appId stmt arguments =
      guardedText (guardCondition cfg appId stmt arguments) stmt := by
  unfold GuardExtraction.guardText guardedText guardCondition
  generalize (if stmt.isChildOfNonblock then "\x7b " else "") = opened
  generalize (if stmt.isChildOfNonblock then "; \x7d" else "") = closed
  simp only [String.append_assoc]

def editOf (r : Replacement) : TextEdit := ⟨r.beginLine, r.beginColumn, r.length, r.text⟩

def viewOf (state : GuardState) : View :=
  ⟨state.alreadyMatched, state.replacements.map editOf⟩

/-- A statement whose location the profile has. -/
def Profiled (stmt : MatchedStatement) : Prop :=
  stmt.inMainFile ∧ GuardExtraction.isInterestingLocation cfg (GuardExtraction.current cfg stmt)

/-- The guard calls the function of the location for an application id. -/
def CallsRuntime (stmt : MatchedStatement) (condition : String) : Prop :=
  ∃ appId arguments, condition = guardCondition cfg appId stmt arguments

variable {cfg}

private theorem extractGuard_view_none {state after : GuardState} {stmt : MatchedStatement}
    (h : GuardExtraction.extractGuard cfg state stmt = .ok after)
    (hlength : GuardExtraction.replacedLength stmt = none) : viewOf after = viewOf state := by
  obtain ⟨appId, happId, h⟩ := bind_eq_ok_iff.mp h
  rw [hlength] at h
  obtain rfl := Except.ok.inj h
  rfl

private theorem extractGuard_view_some {state after : GuardState} {stmt : MatchedStatement}
    {length : Nat} (h : GuardExtraction.extractGuard cfg state stmt = .ok after)
    (hlength : GuardExtraction.replacedLength stmt = some length) :
    ∃ appId arguments, viewOf after = ⟨state.alreadyMatched, (viewOf state).edits ++
      [⟨stmt.beginLine, stmt.beginColumn, length,
        GuardExtraction.guardText cfg appId stmt arguments⟩]⟩ := by
  obtain ⟨appId, happId, h⟩ := bind_eq_ok_iff.mp h
  rw [hlength] at h
  obtain rfl := Except.ok.inj h
  refine ⟨appId, argumentListText (ifGuardApplication cfg.print cfg.useGlobalVariables
    (setInt appId) (GuardExtraction.locToJSON (GuardExtraction.current cfg stmt))
    stmt.parents).components, ?_⟩
  unfold viewOf
  rw [List.map_append]
  rfl

theorem handles_run {state after : GuardState} {stmt : MatchedStatement}
    (h : GuardExtraction.run cfg state stmt = .ok after) :
    Handles (GuardExtraction.current cfg) (Profiled cfg) (CallsRuntime cfg) (viewOf state) stmt
      (viewOf after) := by
  rcases GuardExtraction.run_cases h with
    ⟨hseen, rfl⟩ | ⟨hseen, ⟨hskip, rfl⟩ | ⟨hselected, hextract⟩⟩
  · exact Handles.seen hseen
  · exact Handles.skipped hseen fun hselected => absurd hselected hskip
  · cases hlength : GuardExtraction.replacedLength stmt with
    | none =>
        rw [extractGuard_view_none hextract hlength]
        exact Handles.skipped hseen fun _ => hlength
    | some length =>
        obtain ⟨appId, arguments, hview⟩ := extractGuard_view_some hextract hlength
        rw [hview]
        exact Handles.edited hseen hselected ⟨appId, arguments, rfl⟩
          ⟨rfl, hlength, guardText_eq cfg appId stmt arguments⟩

private theorem handlesAll_runAll {state after : GuardState} {stmts : List MatchedStatement}
    (h : GuardExtraction.runAll cfg state stmts = .ok after) :
    HandlesAll (GuardExtraction.current cfg) (Profiled cfg) (CallsRuntime cfg) (viewOf state)
      stmts (viewOf after) := by
  induction stmts generalizing state with
  | nil =>
      obtain rfl := Except.ok.inj h
      exact HandlesAll.nil _
  | cons stmt stmts ih =>
      obtain ⟨next, hfirst, hothers⟩ := bind_eq_ok_iff.mp h
      exact HandlesAll.cons (handles_run hfirst) (ih hothers)

end Instrumentation

/-! `transform/PatchApplication.cpp` -/

structure PatchRun where
  fileId : Nat
  beginLine : Nat
  beginColumn : Nat
  endLine : Nat
  endColumn : Nat
  patch : String

namespace PatchRun

variable (cfg : PatchRun)

def current (stmt : MatchedStatement) : Location :=
  ⟨cfg.fileId, stmt.beginLine, stmt.beginColumn, stmt.endLine, stmt.endColumn⟩

def run (view : View) (stmt : MatchedStatement) : View :=
  if cfg.current stmt ∈ view.alreadyMatched then view
  else
    let view := { view with alreadyMatched := insert (cfg.current stmt) view.alreadyMatched }
    if !stmt.inMainFile then view
    else if stmt.beginLine = cfg.beginLine ∧ stmt.beginColumn = cfg.beginColumn ∧
        stmt.endLine = cfg.endLine ∧ stmt.endColumn = cfg.endColumn then
      match GuardExtraction.replacedLength stmt with
      | none => view
      | some length =>
          { view with
            edits := view.edits ++
              [⟨stmt.beginLine, stmt.beginColumn, length, guardedText cfg.patch stmt⟩] }
    else view

def Selected (stmt : MatchedStatement) : Prop :=
  stmt.inMainFile ∧ stmt.beginLine = cfg.beginLine ∧ stmt.beginColumn = cfg.beginColumn ∧
    stmt.endLine = cfg.endLine ∧ stmt.endColumn = cfg.endColumn

variable {cfg}

theorem handles_run (view : View) (stmt : MatchedStatement) :
    Handles cfg.current cfg.Selected (fun _ condition => condition = cfg.patch) view stmt
      (cfg.run view stmt) := by
  unfold run
  by_cases hseen : cfg.current stmt ∈ view.alreadyMatched
  · rw [if_pos hseen]
    exact Handles.seen hseen
  · rw [if_neg hseen]
    by_cases hselected : cfg.Selected stmt
    · have hnot : ¬(!stmt.inMainFile) = true := by simp [hselected.1]
      rw [if_neg hnot, if_pos hselected.2]
      cases hlength : GuardExtraction.replacedLength stmt with
      | none => exact Handles.skipped hseen fun _ => hlength
      | some length => exact Handles.edited hseen hselected rfl ⟨rfl, hlength, rfl⟩
    · have hskip : Handles cfg.current cfg.Selected (fun _ condition => condition = cfg.patch)
          view stmt ⟨insert (cfg.current stmt) view.alreadyMatched, view.edits⟩ :=
        Handles.skipped hseen fun h => absurd h hselected
      cases hfile : stmt.inMainFile with
      | false => exact hskip
      | true =>
          have hlocation := fun h => hselected ⟨hfile, h⟩
          rw [if_neg (by decide), if_neg hlocation]
          exact hskip

private theorem handlesAll_foldl (view : View) (stmts : List MatchedStatement) :
    HandlesAll cfg.current cfg.Selected (fun _ condition => condition = cfg.patch) view stmts
      (stmts.foldl cfg.run view) := by
  induction stmts generalizing view with
  | nil => exact HandlesAll.nil view
  | cons stmt stmts ih => exact HandlesAll.cons (handles_run view stmt) (ih _)

end PatchRun

theorem positionOf_eq {fileId : Nat} {stmt stmt' : MatchedStatement}
    (h : (⟨fileId, stmt.beginLine, stmt.beginColumn, stmt.endLine, stmt.endColumn⟩ : Location) =
      ⟨fileId, stmt'.beginLine, stmt'.beginColumn, stmt'.endLine, stmt'.endColumn⟩) :
    positionOf stmt = positionOf stmt' := by
  injection h with _ hline hcolumn
  exact Prod.ext hline hcolumn

theorem Source.matched_distinct (source : Source) (tree : StmtTree Leaf String)
    {current : MatchedStatement → Location}
    (hcurrent : ∀ stmt stmt', current stmt = current stmt' → positionOf stmt = positionOf stmt') :
    (source.matched tree).Pairwise fun stmt stmt' => current stmt ≠ current stmt' := by
  have hdistinct := source.occurrences_distinct tree
  rw [List.pairwise_map] at hdistinct
  refine List.pairwise_map.mpr (hdistinct.imp_of_mem fun {entry entry'} h h' hne heq => hne ?_)
  rw [← (occurrences_statement h).1, ← (occurrences_statement h').1]
  exact hcurrent _ _ heq

/--
A text in which guards are put around any of its leaves, by either handler, is read
as its tree with the guards: every `else` stays with its `if`.
-/
theorem guards_keep_elses {source : Source} {tree : StmtTree Leaf String}
    (hparse : Parses .statement (tokens source.lexemes) [tree] []) :
    (∀ l slot, (l, slot) ∈ tree.leaves .inBlock →
      isTopLevelStatement (some (parentOf slot)) = true) ∧
    (∀ (cfg : TransformRun) (baseAppId : Nat) (alreadyMatched : Finset Location)
      (after : GuardState),
      GuardExtraction.runAll cfg (GuardExtraction.initialState baseAppId alreadyMatched)
        (source.matched tree) = .ok after →
      ReadsGuarded source tree (viewOf after).edits
        (fun stmt => GuardExtraction.current cfg stmt ∉ alreadyMatched ∧ Profiled cfg stmt)
        (CallsRuntime cfg)) ∧
    (∀ (cfg : PatchRun) (alreadyMatched : Finset Location),
      ReadsGuarded source tree ((source.matched tree).foldl cfg.run ⟨alreadyMatched, []⟩).edits
        (fun stmt => cfg.current stmt ∉ alreadyMatched ∧ cfg.Selected stmt)
        (fun _ condition => condition = cfg.patch)) := by
  refine ⟨fun _ slot _ => isTopLevelStatement_parentOf slot, ?_, ?_⟩
  · intro cfg baseAppId alreadyMatched after hrun
    refine readsGuarded hparse ((handlesAll_runAll hrun).edited ?_)
    apply source.matched_distinct tree
    exact fun _ _ => positionOf_eq
  · intro cfg alreadyMatched
    refine readsGuarded hparse ((PatchRun.handlesAll_foldl _ _).edited ?_)
    apply source.matched_distinct tree
    exact fun _ _ => positionOf_eq

/-- The statement of the test `dangling-else`, with calls `f` and `g`. -/
def danglingElse : Source where
  lexemes :=
    [⟨[], "if", .ifWord, by simp, by simp [fixedSpelling]⟩,
     ⟨[' '], "(a > b)", .header "a > b", by simp [isBlank], by decide⟩,
     ⟨[' '], "f()", .leaf ⟨8, 14, 8, 16, [], "f()"⟩, by simp [isBlank], by simp [fixedSpelling]⟩,
     ⟨[], ";", .semicolon, by simp, by simp [fixedSpelling]⟩,
     ⟨['\n'], "else", .elseWord, by simp [isBlank], by simp [fixedSpelling]⟩,
     ⟨[' '], "g()", .leaf ⟨9, 6, 9, 8, [], "g()"⟩, by simp [isBlank], by simp [fixedSpelling]⟩,
     ⟨[' '], ";", .semicolon, by simp [isBlank], by simp [fixedSpelling]⟩]
  behind := ['\n']
  distinct := by simp [tokens, leafTokens, Leaf.position]

def danglingElseTree : StmtTree Leaf String :=
  .ifElse "a > b" (.leaf ⟨8, 14, 8, 16, [], "f()"⟩) (.leaf ⟨9, 6, 9, 8, [], "g()"⟩)

private theorem parses_danglingElse :
    Parses .statement (tokens danglingElse.lexemes) [danglingElseTree] [] :=
  Parses.ifElse (Parses.leaf _ _) (Parses.leaf _ _)

theorem guards_keep_elses_danglingElse :
    ReadsGuarded danglingElse danglingElseTree
      ((danglingElse.matched danglingElseTree).foldl
        (PatchRun.run ⟨0, 8, 14, 8, 16, "a >= b"⟩) ⟨∅, []⟩).edits
      (fun stmt => PatchRun.current ⟨0, 8, 14, 8, 16, "a >= b"⟩ stmt ∉ (∅ : Finset Location) ∧
        PatchRun.Selected ⟨0, 8, 14, 8, 16, "a >= b"⟩ stmt)
      (fun _ condition => condition = "a >= b") :=
  (guards_keep_elses parses_danglingElse).2.2 ⟨0, 8, 14, 8, 16, "a >= b"⟩ ∅

example :
    String.ofList (rewriteText ((danglingElse.matched danglingElseTree).foldl
      (PatchRun.run ⟨0, 8, 14, 8, 16, "a >= b"⟩) ⟨∅, []⟩).edits
      danglingElse.behind danglingElse.lexemes) =
    "if (a > b) \x7b if (a >= b) f(); \x7d\nelse g() ;\n" := by
  decide

end GuardedStatements

end F1X
