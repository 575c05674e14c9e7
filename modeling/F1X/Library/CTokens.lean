import Mathlib.Data.List.Basic

/-!
# The tokens of C text

A text is a list of symbols: characters, and operands that are not looked into.
An operand stands for itself between blanks and brackets; everything else is cut
into words, numbers and the longest punctuators.
-/

namespace F1X.Library

inductive Symbol where
  | char (c : Char)
  | operand (text : String)
  deriving DecidableEq, Repr

namespace Symbol

def text : Symbol → String
  | .char c => String.singleton c
  | .operand text => text

end Symbol

def spell : List Symbol → String
  | [] => ""
  | symbol :: symbols => symbol.text ++ spell symbols

def chars (text : String) : List Symbol := text.toList.map .char

/-- An operand without text is no symbol. -/
def operand (text : String) : List Symbol := if text = "" then [] else [.operand text]

theorem spell_append (first second : List Symbol) :
    spell (first ++ second) = spell first ++ spell second := by
  induction first with
  | nil => simp [spell]
  | cons symbol first ih => simp [spell, ih, String.append_assoc]

theorem spell_chars (text : String) : spell (chars text) = text := by
  have hlist : ∀ list : List Char, spell (list.map .char) = String.ofList list := by
    intro list
    induction list with
    | nil => rfl
    | cons c list ih =>
        rw [List.map_cons, spell, ih, Symbol.text, ← String.toList_inj]
        simp
  rw [chars, hlist, String.ofList_toList]

theorem spell_operand (text : String) : spell (operand text) = text := by
  unfold operand
  split
  · rename_i hempty
    exact hempty.symm
  · exact String.append_empty

/-! ## The lexer -/

inductive Punct where
  | lparen | rparen | lbrace | rbrace | semicolon | question | colon | scope | assign
  | bang | tilde | plus | minus | star | slash | percent | amp | bar | caret
  | less | greater | lessEq | greaterEq | eqEq | notEq | ampAmp | barBar
  | lessLess | greaterGreater
  /-- A punctuator of C that is not used here. -/
  | other
  deriving DecidableEq, Repr

inductive Token where
  | punct (p : Punct)
  | word (text : String)
  | number (text : String)
  | operand (text : String)
  deriving DecidableEq, Repr

def closedPunct (c : Char) : Option Punct :=
  if c = '(' then some .lparen
  else if c = ')' then some .rparen
  else if c = '\x7b' then some .lbrace
  else if c = '\x7d' then some .rbrace
  else if c = ';' then some .semicolon
  else if c = '?' then some .question
  else if c = '~' then some .tilde
  else none

def singlePunct (c : Char) : Option Punct :=
  if c = '+' then some .plus
  else if c = '-' then some .minus
  else if c = '*' then some .star
  else if c = '/' then some .slash
  else if c = '%' then some .percent
  else if c = '&' then some .amp
  else if c = '|' then some .bar
  else if c = '^' then some .caret
  else if c = '<' then some .less
  else if c = '>' then some .greater
  else if c = '=' then some .assign
  else if c = '!' then some .bang
  else if c = ':' then some .colon
  else none

def doublePunct (c d : Char) : Option Punct :=
  if d = '=' then
    if c = '=' then some .eqEq
    else if c = '!' then some .notEq
    else if c = '<' then some .lessEq
    else if c = '>' then some .greaterEq
    else if c = ':' then none
    else some .other
  else if c = '&' ∧ d = '&' then some .ampAmp
  else if c = '|' ∧ d = '|' then some .barBar
  else if c = '<' ∧ d = '<' then some .lessLess
  else if c = '>' ∧ d = '>' then some .greaterGreater
  else if c = ':' ∧ d = ':' then some .scope
  else if (c = '+' ∧ d = '+') ∨ (c = '-' ∧ (d = '-' ∨ d = '>')) then some .other
  else none

/-- What has been read of a token whose end is not known yet. -/
inductive Pending where
  | nothing
  | word (text : List Char)
  | number (text : List Char)
  | punct (first : Char)
  | operand (text : String)

namespace Pending

def flush : Pending → Option (List Token)
  | .nothing => some []
  | .word text => some [.word (String.ofList text)]
  | .number text => some [.number (String.ofList text)]
  | .punct first => (singlePunct first).map fun p => [.punct p]
  | .operand text => some [.operand text]

/-- The tokens that a character completes. -/
def next (pending : Pending) (c : Char) : Option (List Token × Pending) :=
  if c = ' ' then pending.flush.map (·, .nothing)
  else match closedPunct c with
  | some p => pending.flush.map fun tokens => (tokens ++ [.punct p], .nothing)
  | none =>
      if c.isAlpha ∨ c = '_' ∨ c.isDigit then
        match pending with
        | .word text => some ([], .word (text ++ [c]))
        | .number text => some ([], .number (text ++ [c]))
        | .operand _ => none
        | _ => pending.flush.map (·, if c.isDigit then .number [c] else .word [c])
      else match pending with
      | .operand _ => none
      | .punct first =>
          match doublePunct first c with
          | some p => some ([.punct p], .nothing)
          | none => pending.flush.map (·, .punct c)
      | _ => pending.flush.map (·, .punct c)

end Pending

def lexFrom : Pending → List Symbol → Option (List Token)
  | pending, [] => pending.flush
  | .nothing, .operand text :: rest => lexFrom (.operand text) rest
  | _, .operand _ :: _ => none
  | pending, .char c :: rest =>
      match pending.next c with
      | none => none
      | some (tokens, pending) => (lexFrom pending rest).map (tokens ++ ·)

def lex (symbols : List Symbol) : Option (List Token) := lexFrom .nothing symbols

/-! ## Pieces of a text -/

def lexChars : Pending → List Char → Option (List Token × Pending)
  | pending, [] => some ([], pending)
  | pending, c :: rest =>
      match pending.next c with
      | none => none
      | some (tokens, pending) =>
          (lexChars pending rest).map fun (more, pending) => (tokens ++ more, pending)

private theorem lexFrom_chars (text : List Char) (pending : Pending) (rest : List Symbol) :
    lexFrom pending (text.map .char ++ rest) =
      (lexChars pending text).bind fun (tokens, pending) =>
        (lexFrom pending rest).map (tokens ++ ·) := by
  induction text generalizing pending with
  | nil => simp [lexChars]
  | cons c text ih =>
      rw [List.map_cons, List.cons_append, lexFrom, lexChars]
      cases pending.next c with
      | none => rfl
      | some pair =>
          obtain ⟨tokens, following⟩ := pair
          simp only [ih]
          cases lexChars following text with
          | none => rfl
          | some pair => simp [Function.comp_def]

/-- What may follow an operand. -/
def Delimited : List Symbol → Prop
  | [] => True
  | .char c :: _ => c = ' ' ∨ c = ')' ∨ c = ';'
  | .operand _ :: _ => False

/-- A piece of text has these tokens wherever a blank, a bracket or nothing follows. -/
def Lexes (piece : List Symbol) (tokens : List Token) : Prop :=
  ∀ rest, Delimited rest → lex (piece ++ rest) = (lex rest).map (tokens ++ ·)

/-- A piece of text that has these tokens whatever follows. -/
def LexesFully (piece : List Symbol) (tokens : List Token) : Prop :=
  ∀ rest, lex (piece ++ rest) = (lex rest).map (tokens ++ ·)

theorem LexesFully.lexes {piece : List Symbol} {tokens : List Token}
    (h : LexesFully piece tokens) : Lexes piece tokens :=
  fun rest _ => h rest

theorem lexesFully_chars {text : String} {tokens : List Token}
    (h : lexChars .nothing text.toList = some (tokens, .nothing)) :
    LexesFully (chars text) tokens := by
  intro rest
  rw [lex, chars, lexFrom_chars, h]
  rfl

theorem lexes_operand {text : String} (h : text ≠ "") :
    Lexes (operand text) [.operand text] := by
  intro rest hrest
  rw [operand, if_neg h, lex, List.cons_append, List.nil_append, lexFrom]
  cases rest with
  | nil => rfl
  | cons symbol rest =>
      cases symbol with
      | operand other => exact absurd hrest not_false
      | char c =>
          rcases hrest with rfl | rfl | rfl <;> simp [lexFrom, lex, Pending.next,
            Pending.flush, closedPunct, Function.comp_def]

theorem LexesFully.append {first second : List Symbol} {tokens others : List Token}
    (hfirst : LexesFully first tokens) (hsecond : Lexes second others) :
    Lexes (first ++ second) (tokens ++ others) := by
  intro rest hrest
  rw [List.append_assoc, hfirst, hsecond rest hrest]
  cases lex rest <;> simp

theorem Lexes.append {first second : List Symbol} {tokens others : List Token}
    (hfirst : Lexes first tokens) (hsecond : Lexes second others)
    (hdelimited : ∀ rest, Delimited (second ++ rest)) :
    Lexes (first ++ second) (tokens ++ others) := by
  intro rest hrest
  rw [List.append_assoc, hfirst _ (hdelimited rest), hsecond rest hrest]
  cases lex rest <;> simp

theorem Lexes.lex_eq {piece : List Symbol} {tokens : List Token} (h : Lexes piece tokens) :
    lex piece = some tokens := by
  have hend := h [] trivial
  rw [List.append_nil] at hend
  simpa [lex, lexFrom, Pending.flush] using hend

end F1X.Library
