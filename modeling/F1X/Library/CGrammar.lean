import F1X.Library.COperators
import F1X.Library.CTokens

/-!
# The grammar of C expressions

A parser by precedence: casts and the other unary operators bind tighter than
all binary ones, these bind by level and to the left, and the conditional
operator is loosest.  Blocks are the GNU statement expressions that assign
variables before their value.  The rules below say how the parser reads a text
that is put together from pieces.
-/

namespace F1X.Library

inductive CTree where
  | operand (text : String)
  | number (text : String)
  | name (text : String)
  | unary (op : UnaryOp) (arg : CTree)
  | binary (op : BinaryOp) (left right : CTree)
  | conditional (condition first second : CTree)
  /-- A block that assigns a variable before it goes on. -/
  | assign (variable_ : String) (value rest : CTree)
  deriving DecidableEq, Repr

namespace BinaryOp

/-- The level of a binary operator; a higher one binds tighter. -/
def level : BinaryOp → Nat
  | .mul | .div | .mod => 10
  | .add | .sub => 9
  | .shl | .shr => 8
  | .lt | .le | .gt | .ge => 7
  | .eq | .ne => 6
  | .bitAnd => 5
  | .bitXor => 4
  | .bitOr => 3
  | .logAnd => 2
  | .logOr => 1

def punct : BinaryOp → Punct
  | .eq => .eqEq
  | .ne => .notEq
  | .lt => .less
  | .le => .lessEq
  | .gt => .greater
  | .ge => .greaterEq
  | .logOr => .barBar
  | .logAnd => .ampAmp
  | .add => .plus
  | .sub => .minus
  | .mul => .star
  | .div => .slash
  | .mod => .percent
  | .bitAnd => .amp
  | .bitOr => .bar
  | .bitXor => .caret
  | .shl => .lessLess
  | .shr => .greaterGreater

end BinaryOp

def Punct.binaryOp : Punct → Option BinaryOp
  | .eqEq => some .eq
  | .notEq => some .ne
  | .less => some .lt
  | .lessEq => some .le
  | .greater => some .gt
  | .greaterEq => some .ge
  | .barBar => some .logOr
  | .ampAmp => some .logAnd
  | .plus => some .add
  | .minus => some .sub
  | .star => some .mul
  | .slash => some .div
  | .percent => some .mod
  | .amp => some .bitAnd
  | .bar => some .bitOr
  | .caret => some .bitXor
  | .lessLess => some .shl
  | .greaterGreater => some .shr
  | _ => none

def Punct.unaryOp : Punct → Option UnaryOp
  | .minus => some .neg
  | .bang => some .not
  | .tilde => some .bitNot
  | _ => none

private theorem BinaryOp.binaryOp_punct (op : BinaryOp) : op.punct.binaryOp = some op := by
  cases op <;> rfl

/-! ## The parser -/

def typeWords : List String := ["void", "long", "unsigned", "std"]

/-- The type names that casts use; `std::size_t` is `unsigned long`. -/
def parseTypeName : List Token → Option (CastTarget × List Token)
  | .word first :: .punct .scope :: .word second :: rest =>
      if first = "std" ∧ second = "size_t" then some (.unsignedLong, rest) else none
  | .word first :: .punct .star :: rest =>
      if first = "void" then some (.pointer, rest) else none
  | .word first :: .word second :: rest =>
      if first = "unsigned" ∧ second = "long" then some (.unsignedLong, rest) else none
  | .word first :: rest =>
      if first = "unsigned" then some (.unsignedInt, rest)
      else if first = "long" then some (.long, rest)
      else none
  | _ => none

mutual

def parseUnary : Nat → List Token → Option (CTree × List Token)
  | 0, _ => none
  | _ + 1, [] => none
  | _ + 1, .operand text :: rest => some (.operand text, rest)
  | _ + 1, .number text :: rest => some (.number text, rest)
  | _ + 1, .word text :: rest =>
      if text ∈ typeWords then none else some (.name text, rest)
  | fuel + 1, .punct .lparen :: .punct .lbrace :: rest =>
      match parseBlock fuel rest with
      | some (tree, .punct .rparen :: rest) => some (tree, rest)
      | _ => none
  | fuel + 1, .punct .lparen :: rest =>
      match parseTypeName rest with
      | some (target, .punct .rparen :: rest) =>
          match parseUnary fuel rest with
          | some (arg, rest) => some (.unary (.cast target) arg, rest)
          | none => none
      | _ =>
          match parseConditional fuel rest with
          | some (tree, .punct .rparen :: rest) => some (tree, rest)
          | _ => none
  | fuel + 1, .punct p :: rest =>
      match p.unaryOp with
      | none => none
      | some op =>
          match parseUnary fuel rest with
          | some (arg, rest) => some (.unary op arg, rest)
          | none => none

/-- Binary operators of at least a given level. -/
def parseBinary : Nat → Nat → List Token → Option (CTree × List Token)
  | 0, _, _ => none
  | fuel + 1, level, tokens =>
      match parseUnary fuel tokens with
      | some (left, rest) => parseOperators fuel level left rest
      | none => none

def parseOperators : Nat → Nat → CTree → List Token → Option (CTree × List Token)
  | 0, _, _, _ => none
  | fuel + 1, level, left, .punct p :: rest =>
      match p.binaryOp with
      | none => some (left, .punct p :: rest)
      | some op =>
          if level ≤ op.level then
            match parseBinary fuel (op.level + 1) rest with
            | some (right, rest) => parseOperators fuel level (.binary op left right) rest
            | none => none
          else some (left, .punct p :: rest)
  | _ + 1, _, left, rest => some (left, rest)

def parseConditional : Nat → List Token → Option (CTree × List Token)
  | 0, _ => none
  | fuel + 1, tokens =>
      match parseBinary fuel 0 tokens with
      | some (condition, .punct .question :: rest) =>
          match parseConditional fuel rest with
          | some (first, .punct .colon :: rest) =>
              match parseConditional fuel rest with
              | some (second, rest) => some (.conditional condition first second, rest)
              | none => none
          | _ => none
      | result => result

def parseBlock : Nat → List Token → Option (CTree × List Token)
  | 0, _ => none
  | fuel + 1, .word name :: .punct .assign :: rest =>
      match parseConditional fuel rest with
      | some (value, .punct .semicolon :: rest) =>
          match parseBlock fuel rest with
          | some (tree, rest) => some (.assign name value tree, rest)
          | none => none
      | _ => none
  | fuel + 1, tokens =>
      match parseConditional fuel tokens with
      | some (tree, .punct .semicolon :: .punct .rbrace :: rest) => some (tree, rest)
      | _ => none

end

/-- Enough for every text: a token opens at most four levels. -/
def parseFuel (tokens : List Token) : Nat := 4 * tokens.length + 4

def parse (tokens : List Token) : Option CTree :=
  match parseConditional (parseFuel tokens) tokens with
  | some (tree, []) => some tree
  | _ => none

def readText (symbols : List Symbol) : Option CTree := (lex symbols).bind parse

/-! ## Rules for tokens -/

/-- No binary operator goes on here. -/
def Stops : List Token → Prop
  | .punct p :: _ => p.binaryOp = none
  | _ => True

/-- A parenthesis before these tokens opens neither a cast nor a block. -/
def Grouped : List Token → Prop
  | .word _ :: _ => False
  | .punct p :: _ => p ≠ .lbrace
  | _ => True

def ParsesUnary (tokens : List Token) (tree : CTree) : Prop :=
  ∀ fuel rest, 4 * tokens.length ≤ fuel → parseUnary fuel (tokens ++ rest) = some (tree, rest)

def ParsesBinary (level : Nat) (tokens : List Token) (tree : CTree) : Prop :=
  ∀ fuel rest, 4 * tokens.length + 1 ≤ fuel → Stops rest →
    parseBinary fuel level (tokens ++ rest) = some (tree, rest)

def ParsesConditional (tokens : List Token) (tree : CTree) : Prop :=
  ∀ fuel rest, 4 * tokens.length + 2 ≤ fuel → Stops rest →
    rest.head? ≠ some (.punct .question) →
      parseConditional fuel (tokens ++ rest) = some (tree, rest)

theorem stops_punct {p : Punct} {rest : List Token} (h : p.binaryOp = none) :
    Stops (.punct p :: rest) := h

theorem grouped_append {tokens : List Token} (h : Grouped tokens) (hne : tokens ≠ [])
    (rest : List Token) : Grouped (tokens ++ rest) := by
  obtain ⟨token, others, rfl⟩ := List.exists_cons_of_ne_nil hne
  cases token with
  | word => exact h
  | punct p => exact h
  | number | operand => trivial

theorem parseOperators_stops {fuel level : Nat} {tree : CTree} {rest : List Token}
    (hfuel : 1 ≤ fuel) (h : Stops rest) :
    parseOperators fuel level tree rest = some (tree, rest) := by
  obtain ⟨fuel, rfl⟩ := Nat.exists_eq_add_of_le' hfuel
  cases rest with
  | nil => rfl
  | cons token rest =>
      cases token with
      | punct p => rw [parseOperators, show p.binaryOp = none from h]
      | word | number | operand => rfl

theorem parsesUnary_operand (text : String) :
    ParsesUnary [.operand text] (.operand text) := by
  intro fuel rest hfuel
  obtain ⟨fuel, rfl⟩ := Nat.exists_eq_add_of_le' (show 1 ≤ fuel by simp at hfuel; omega)
  rfl

theorem parsesUnary_number (text : String) :
    ParsesUnary [.number text] (.number text) := by
  intro fuel rest hfuel
  obtain ⟨fuel, rfl⟩ := Nat.exists_eq_add_of_le' (show 1 ≤ fuel by simp at hfuel; omega)
  rfl

theorem parsesUnary_name {text : String} (h : text ∉ typeWords) :
    ParsesUnary [.word text] (.name text) := by
  intro fuel rest hfuel
  obtain ⟨fuel, rfl⟩ := Nat.exists_eq_add_of_le' (show 1 ≤ fuel by simp at hfuel; omega)
  rw [List.singleton_append, parseUnary, if_neg h]

section Rules

variable {tokens others : List Token} {tree other : CTree}

theorem ParsesUnary.unary (h : ParsesUnary tokens tree) {p : Punct} {op : UnaryOp}
    (hop : p.unaryOp = some op) : ParsesUnary (.punct p :: tokens) (.unary op tree) := by
  intro fuel rest hfuel
  rw [List.length_cons] at hfuel
  obtain ⟨fuel, rfl⟩ := Nat.exists_eq_add_of_le' (show 1 ≤ fuel by omega)
  have harg := h fuel rest (by omega)
  have hparen : p ≠ .lparen := by
    rintro rfl
    cases hop
  rw [List.cons_append, parseUnary, hop]
  · simp only [harg]
  · simp [hparen]
  · simp [hparen]

theorem ParsesUnary.cast (h : ParsesUnary tokens tree) (type : List Token)
    {target : CastTarget} (hword : ∃ first others, type = .word first :: others)
    (htype : ∀ rest, parseTypeName (type ++ .punct .rparen :: rest) =
      some (target, .punct .rparen :: rest)) :
    ParsesUnary (.punct .lparen :: type ++ .punct .rparen :: tokens)
      (.unary (.cast target) tree) := by
  intro fuel rest hfuel
  simp only [List.cons_append, List.length_cons, List.length_append] at hfuel
  obtain ⟨fuel, rfl⟩ := Nat.exists_eq_add_of_le' (show 1 ≤ fuel by omega)
  have harg := h fuel rest (by omega)
  have hname := htype (tokens ++ rest)
  obtain ⟨first, others, rfl⟩ := hword
  simp only [List.cons_append, List.append_assoc] at hname ⊢
  rw [parseUnary, hname]
  · simp [harg]
  · simp

theorem ParsesUnary.binary (h : ParsesUnary tokens tree) (level : Nat) :
    ParsesBinary level tokens tree := by
  intro fuel rest hfuel hstops
  obtain ⟨fuel, rfl⟩ := Nat.exists_eq_add_of_le' (show 1 ≤ fuel by omega)
  rw [parseBinary, h fuel rest (by omega)]
  by_cases hnil : 1 ≤ fuel
  · exact parseOperators_stops hnil hstops
  · obtain rfl : fuel = 0 := by omega
    have hparse := h 0 rest (by omega)
    simp [parseUnary] at hparse

theorem ParsesUnary.operator (h : ParsesUnary tokens tree) {op : BinaryOp}
    (hother : ParsesBinary (op.level + 1) others other) {level : Nat}
    (hlevel : level ≤ op.level) :
    ParsesBinary level (tokens ++ .punct op.punct :: others) (.binary op tree other) := by
  intro fuel rest hfuel hstops
  simp only [List.length_append, List.length_cons] at hfuel
  obtain ⟨fuel, rfl⟩ := Nat.exists_eq_add_of_le' (show 3 ≤ fuel by omega)
  rw [List.append_assoc, List.cons_append, parseBinary, h _ _ (by omega)]
  simp only [parseOperators, BinaryOp.binaryOp_punct, if_pos hlevel]
  rw [hother _ rest (by omega) hstops]
  exact parseOperators_stops (by omega) hstops

theorem ParsesBinary.conditional (h : ParsesBinary 0 tokens tree) :
    ParsesConditional tokens tree := by
  intro fuel rest hfuel hstops hquestion
  obtain ⟨fuel, rfl⟩ := Nat.exists_eq_add_of_le' (show 1 ≤ fuel by omega)
  rw [parseConditional, h fuel rest (by omega) hstops]
  cases rest with
  | nil => rfl
  | cons token rest =>
      split
      · rename_i heq
        cases heq
        simp at hquestion
      · rfl

theorem ParsesBinary.choose (h : ParsesBinary 0 tokens tree) {first second : List Token}
    {firstTree secondTree : CTree} (hfirst : ParsesConditional first firstTree)
    (hsecond : ParsesConditional second secondTree) :
    ParsesConditional
      (tokens ++ .punct .question :: first ++ .punct .colon :: second)
      (.conditional tree firstTree secondTree) := by
  intro fuel rest hfuel hstops hquestion
  simp only [List.length_append, List.length_cons, List.append_assoc,
    List.cons_append] at hfuel ⊢
  obtain ⟨fuel, rfl⟩ := Nat.exists_eq_add_of_le' (show 1 ≤ fuel by omega)
  rw [parseConditional, h _ _ (by omega) (stops_punct rfl)]
  simp only
  rw [hfirst _ _ (by omega) (stops_punct rfl) (by simp)]
  simp only
  rw [hsecond _ _ (by omega) hstops hquestion]

private theorem parseTypeName_grouped {rest : List Token} (h : Grouped rest) :
    parseTypeName rest = none := by
  cases rest with
  | nil => rfl
  | cons token rest =>
      cases token with
      | word => cases h
      | punct | number | operand => rfl

theorem ParsesConditional.group (h : ParsesConditional tokens tree) (hgrouped : Grouped tokens)
    (hne : tokens ≠ []) :
    ParsesUnary (.punct .lparen :: tokens ++ [.punct .rparen]) tree := by
  intro fuel rest hfuel
  simp only [List.length_append, List.length_cons, List.length_nil, List.append_assoc,
    List.cons_append, List.nil_append] at hfuel ⊢
  obtain ⟨fuel, rfl⟩ := Nat.exists_eq_add_of_le' (show 1 ≤ fuel by omega)
  have htree := h fuel (.punct .rparen :: rest) (by omega) (stops_punct rfl) (by simp)
  have hname := parseTypeName_grouped (grouped_append hgrouped hne (.punct .rparen :: rest))
  rw [parseUnary, hname]
  · simp [htree]
  · obtain ⟨token, others, rfl⟩ := List.exists_cons_of_ne_nil hne
    rintro other hother
    cases hother
    exact hgrouped rfl

theorem ParsesConditional.block (h : ParsesConditional tokens tree) {name : String}
    (hgrouped : Grouped tokens) (hne : tokens ≠ []) {value : CTree}
    (hvalue : ParsesConditional others value) :
    ParsesUnary
      (.punct .lparen :: .punct .lbrace :: .word name :: .punct .assign :: others ++
        .punct .semicolon :: tokens ++ [.punct .semicolon, .punct .rbrace, .punct .rparen])
      (.assign name value tree) := by
  intro fuel rest hfuel
  simp only [List.length_append, List.length_cons, List.length_nil, List.append_assoc,
    List.cons_append, List.nil_append] at hfuel ⊢
  obtain ⟨fuel, rfl⟩ := Nat.exists_eq_add_of_le' (show 3 ≤ fuel by omega)
  have hblock : parseBlock (fuel + 1) (tokens ++ .punct .semicolon :: .punct .rbrace ::
      .punct .rparen :: rest) = some (tree, .punct .rparen :: rest) := by
    rw [parseBlock, h _ _ (by omega) (stops_punct rfl) (by simp)]
    obtain ⟨token, following, rfl⟩ := List.exists_cons_of_ne_nil hne
    intro variable_ later heq
    obtain rfl : token = .word variable_ := (List.cons.inj heq).1
    exact hgrouped
  rw [parseUnary, parseBlock, hvalue _ _ (by omega) (stops_punct rfl) (by simp)]
  simp only [hblock]

private theorem ParsesConditional.parse_eq (h : ParsesConditional tokens tree) :
    parse tokens = some tree := by
  have hparse := h (parseFuel tokens) [] (by simp [parseFuel]) trivial (by simp)
  rw [List.append_nil] at hparse
  rw [parse, hparse]

end Rules

/-! ## Rules for texts -/

namespace UnaryOp

def text : UnaryOp → String
  | .plain => ""
  | .neg => "-"
  | .not => "!"
  | .bitNot => "~"
  | .cast .long => "(long)"
  | .cast .unsignedInt => "(unsigned)"
  | .cast .unsignedLong => "(unsigned long)"
  | .cast .pointer => "(void*)"

def tokens : UnaryOp → List Token
  | .plain => []
  | .neg => [.punct .minus]
  | .not => [.punct .bang]
  | .bitNot => [.punct .tilde]
  | .cast .long => [.punct .lparen, .word "long", .punct .rparen]
  | .cast .unsignedInt => [.punct .lparen, .word "unsigned", .punct .rparen]
  | .cast .unsignedLong =>
      [.punct .lparen, .word "unsigned", .word "long", .punct .rparen]
  | .cast .pointer => [.punct .lparen, .word "void", .punct .star, .punct .rparen]

/-- The operator without text leaves no node. -/
def tree (op : UnaryOp) (arg : CTree) : CTree := if op = .plain then arg else .unary op arg

theorem lexes (op : UnaryOp) : LexesFully (chars (op.text ++ " ")) op.tokens := by
  apply lexesFully_chars
  cases op with
  | cast target => cases target <;> rfl
  | _ => rfl

end UnaryOp

namespace BinaryOp

def text : BinaryOp → String
  | .eq => "=="
  | .ne => "!="
  | .lt => "<"
  | .le => "<="
  | .gt => ">"
  | .ge => ">="
  | .logOr => "||"
  | .logAnd => "&&"
  | .add => "+"
  | .sub => "-"
  | .mul => "*"
  | .div => "/"
  | .mod => "%"
  | .bitAnd => "&"
  | .bitOr => "|"
  | .bitXor => "^"
  | .shl => "<<"
  | .shr => ">>"

theorem lexes (op : BinaryOp) :
    LexesFully (chars (" " ++ op.text ++ " ")) [.punct op.punct] := by
  apply lexesFully_chars
  cases op <;> rfl

end BinaryOp

theorem ParsesUnary.tree {tokens : List Token} {tree : CTree} (h : ParsesUnary tokens tree)
    (op : UnaryOp) : ParsesUnary (op.tokens ++ tokens) (op.tree tree) := by
  cases op with
  | plain => exact h
  | neg => exact h.unary (p := .minus) rfl
  | not => exact h.unary (p := .bang) rfl
  | bitNot => exact h.unary (p := .tilde) rfl
  | cast target =>
      cases target with
      | long => exact h.cast [.word "long"] ⟨_, _, rfl⟩ fun rest => rfl
      | unsignedInt => exact h.cast [.word "unsigned"] ⟨_, _, rfl⟩ fun rest => rfl
      | unsignedLong =>
          exact h.cast [.word "unsigned", .word "long"] ⟨_, _, rfl⟩ fun rest => rfl
      | pointer =>
          exact h.cast [.word "void", .punct .star] ⟨_, _, rfl⟩ fun rest => rfl

/-- A piece of text that is read as a tree by one of the functions of the parser. -/
structure ReadsAs (parses : List Token → CTree → Prop) (piece : List Symbol)
    (tree : CTree) : Prop where
  exists_tokens : ∃ tokens, Lexes piece tokens ∧ parses tokens tree ∧ Grouped tokens ∧
    tokens ≠ []

namespace ReadsAs

variable {parses : List Token → CTree → Prop} {piece other : List Symbol}
  {tree otherTree : CTree}

theorem mono {weaker : List Token → CTree → Prop}
    (hmono : ∀ tokens, parses tokens tree → weaker tokens tree)
    (h : ReadsAs parses piece tree) : ReadsAs weaker piece tree := by
  obtain ⟨tokens, hlex, hparse, hgrouped, hne⟩ := h
  exact ⟨tokens, hlex, hmono tokens hparse, hgrouped, hne⟩

theorem binary (h : ReadsAs ParsesUnary piece tree) (level : Nat) :
    ReadsAs (ParsesBinary level) piece tree :=
  h.mono fun _ hparse => hparse.binary level

theorem conditional (h : ReadsAs ParsesUnary piece tree) :
    ReadsAs ParsesConditional piece tree :=
  h.mono fun _ hparse => (hparse.binary 0).conditional

theorem ofOperand {text : String} (h : text ≠ "") :
    ReadsAs ParsesUnary (operand text) (.operand text) :=
  ⟨_, lexes_operand h, parsesUnary_operand text, trivial, by simp⟩

theorem unary (h : ReadsAs ParsesUnary piece tree) (op : UnaryOp) :
    ReadsAs ParsesUnary (chars (op.text ++ " ") ++ piece) (op.tree tree) := by
  obtain ⟨tokens, hlex, hparse, hgrouped, hne⟩ := h
  refine ⟨_, op.lexes.append hlex, hparse.tree op, ?_, by simp [hne]⟩
  cases op with
  | plain => exact hgrouped
  | cast target => cases target <;> simp [UnaryOp.tokens, Grouped]
  | _ => simp [UnaryOp.tokens, Grouped]

theorem castSize (h : ReadsAs ParsesUnary piece tree) :
    ReadsAs ParsesUnary (chars "(std::size_t) " ++ piece)
      (.unary (.cast .unsignedLong) tree) := by
  obtain ⟨tokens, hlex, hparse, -, -⟩ := h
  have hcast : LexesFully (chars "(std::size_t) ") (.punct .lparen ::
      [.word "std", .punct .scope, .word "size_t"] ++ [.punct .rparen]) := lexesFully_chars rfl
  refine ⟨_, hcast.append hlex, ?_, by simp [Grouped], by simp⟩
  simpa using hparse.cast [.word "std", .punct .scope, .word "size_t"] ⟨_, _, rfl⟩
    fun rest => rfl

theorem operator (h : ReadsAs ParsesUnary piece tree) (op : BinaryOp)
    (hother : ReadsAs (ParsesBinary (op.level + 1)) other otherTree) {level : Nat}
    (hlevel : level ≤ op.level) :
    ReadsAs (ParsesBinary level) (piece ++ (chars (" " ++ op.text ++ " ") ++ other))
      (.binary op tree otherTree) := by
  obtain ⟨tokens, hlex, hparse, hgrouped, hne⟩ := h
  obtain ⟨others, hlex', hparse', -, -⟩ := hother
  refine ⟨_, hlex.append (op.lexes.append hlex') fun rest => ?_,
    hparse.operator hparse' hlevel, grouped_append hgrouped hne _, by simp⟩
  simp [chars, Delimited]

theorem choose (h : ReadsAs (ParsesBinary 0) piece tree) {first second : List Symbol}
    {firstTree secondTree : CTree} (hfirst : ReadsAs ParsesConditional first firstTree)
    (hsecond : ReadsAs ParsesConditional second secondTree) :
    ReadsAs ParsesConditional
      (piece ++ (chars " ? " ++ (first ++ (chars " : " ++ second))))
      (.conditional tree firstTree secondTree) := by
  obtain ⟨tokens, hlex, hparse, hgrouped, hne⟩ := h
  obtain ⟨firstTokens, hlexFirst, hparseFirst, -, -⟩ := hfirst
  obtain ⟨secondTokens, hlexSecond, hparseSecond, -, -⟩ := hsecond
  have hquestion : LexesFully (chars " ? ") [.punct .question] := lexesFully_chars rfl
  have hcolon : LexesFully (chars " : ") [.punct .colon] := lexesFully_chars rfl
  have htokens := hlex.append (hquestion.append
    (hlexFirst.append (hcolon.append hlexSecond) fun rest => by simp [chars, Delimited]))
    fun rest => by simp [chars, Delimited]
  refine ⟨_, htokens, ?_, grouped_append hgrouped hne _, by simp⟩
  simpa using hparse.choose hparseFirst hparseSecond

theorem group (h : ReadsAs ParsesConditional piece tree) :
    ReadsAs ParsesUnary (chars "(" ++ (piece ++ chars ")")) tree := by
  obtain ⟨tokens, hlex, hparse, hgrouped, hne⟩ := h
  have hopen : LexesFully (chars "(") [.punct .lparen] := lexesFully_chars rfl
  have hclose : LexesFully (chars ")") [.punct .rparen] := lexesFully_chars rfl
  refine ⟨_, hopen.append (hlex.append hclose.lexes fun rest => ?_), ?_, ?_, by simp⟩
  · simp [chars, Delimited]
  · simpa using hparse.group hgrouped hne
  · simp [Grouped]

theorem ofZero : ReadsAs ParsesUnary (chars "0") (.number "0") := by
  refine ⟨_, fun rest hrest => ?_, parsesUnary_number "0", trivial, by simp⟩
  cases rest with
  | nil => rfl
  | cons symbol rest =>
      cases symbol with
      | operand other => exact absurd hrest not_false
      | char c => rcases hrest with rfl | rfl | rfl <;> simp [chars, lexFrom, lex,
          Pending.next, Pending.flush, closedPunct, Function.comp_def]

theorem block (h : ReadsAs ParsesConditional piece tree) {opening : List Symbol}
    {name : String} {value : List Token} {valueTree : CTree}
    (hopening : LexesFully opening (.punct .lparen :: .punct .lbrace :: .word name ::
      .punct .assign :: value ++ [.punct .semicolon]))
    (hvalue : ParsesConditional value valueTree) :
    ReadsAs ParsesUnary (opening ++ (piece ++ chars "; \x7d)"))
      (.assign name valueTree tree) := by
  obtain ⟨tokens, hlex, hparse, hgrouped, hne⟩ := h
  have hclose : LexesFully (chars "; \x7d)")
      [.punct .semicolon, .punct .rbrace, .punct .rparen] := lexesFully_chars rfl
  refine ⟨_, hopening.append (hlex.append hclose.lexes fun rest => ?_), ?_, ?_, by simp⟩
  · simp [chars, Delimited]
  · simpa using hparse.block hgrouped hne hvalue
  · simp [Grouped]

theorem readText_eq (h : ReadsAs ParsesConditional piece tree) :
    readText piece = some tree := by
  obtain ⟨tokens, hlex, hparse, -, -⟩ := h
  rw [readText, hlex.lex_eq]
  exact hparse.parse_eq

end ReadsAs

end F1X.Library
