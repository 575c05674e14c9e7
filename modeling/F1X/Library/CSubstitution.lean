import F1X.Library.CTrees

/-!
# Substitution in the text of an expression

An operand of a text is replaced by another text.  If that one can be an operand
of every operator, the grammar reads the result as the tree with the tree of the
other text at the operand: no operator takes a part of it away, and it takes
nothing away from what stands around it.
-/

namespace F1X.Library

def Token.substitute (name : String) (piece : List Token) (token : Token) : List Token :=
  if token = .operand name then piece else [token]

def substituteTokens (name : String) (piece tokens : List Token) : List Token :=
  tokens.flatMap (Token.substitute name piece)

def CTree.substitute (tree : CTree) (name : String) (other : CTree) : CTree :=
  match tree with
  | .operand text => if text = name then other else .operand text
  | .number text => .number text
  | .name text => .name text
  | .unary op arg => .unary op (arg.substitute name other)
  | .binary op left right =>
      .binary op (left.substitute name other) (right.substitute name other)
  | .conditional condition first second =>
      .conditional (condition.substitute name other) (first.substitute name other)
        (second.substitute name other)
  | .assign variable_ value rest =>
      .assign variable_ (value.substitute name other) (rest.substitute name other)

/-- A piece that can be an operand of every operator. -/
structure StandsAlone (piece : List Token) (tree : CTree) : Prop where
  parses : ParsesUnary piece tree
  grouped : Grouped piece

/-- What a piece that stands alone may start with. -/
def Token.Opens : Token → Prop
  | .operand _ | .number _ => True
  | .word _ => False
  | .punct p => p = .lparen ∨ ∃ op, p.unaryOp = some op

/-! ## Tokens -/

section Tokens

variable {name : String} {piece : List Token} {pieceTree : CTree}

theorem substituteTokens_append (first second : List Token) :
    substituteTokens name piece (first ++ second) =
      substituteTokens name piece first ++ substituteTokens name piece second :=
  List.flatMap_append

theorem substituteTokens_operand (rest : List Token) :
    substituteTokens name piece (.operand name :: rest) =
      piece ++ substituteTokens name piece rest := by
  rw [substituteTokens, List.flatMap_cons, Token.substitute, if_pos rfl]
  rfl

theorem substituteTokens_cons {token : Token} (h : token ≠ .operand name) (rest : List Token) :
    substituteTokens name piece (token :: rest) =
      token :: substituteTokens name piece rest := by
  rw [substituteTokens, List.flatMap_cons, Token.substitute, if_neg h]
  rfl

@[simp] theorem substituteTokens_nil : substituteTokens name piece [] = [] := rfl

@[simp] theorem substituteTokens_punct (p : Punct) (rest : List Token) :
    substituteTokens name piece (.punct p :: rest) =
      .punct p :: substituteTokens name piece rest :=
  substituteTokens_cons Token.noConfusion rest

@[simp] theorem substituteTokens_word (text : String) (rest : List Token) :
    substituteTokens name piece (.word text :: rest) =
      .word text :: substituteTokens name piece rest :=
  substituteTokens_cons Token.noConfusion rest

@[simp] theorem substituteTokens_number (text : String) (rest : List Token) :
    substituteTokens name piece (.number text :: rest) =
      .number text :: substituteTokens name piece rest :=
  substituteTokens_cons Token.noConfusion rest

theorem substituteTokens_of_notMem {tokens : List Token} (h : .operand name ∉ tokens) :
    substituteTokens name piece tokens = tokens := by
  induction tokens with
  | nil => rfl
  | cons token tokens ih =>
      obtain ⟨hne, htokens⟩ := not_or.mp (mt List.mem_cons.mpr h)
      rw [substituteTokens_cons (Ne.symm hne), ih htokens]

theorem StandsAlone.head (h : StandsAlone piece pieceTree) :
    ∃ token rest, piece = token :: rest ∧ token.Opens := by
  cases piece with
  | nil =>
      have hparse := h.parses 1 [] (by simp)
      simp [parseUnary] at hparse
  | cons token rest =>
      refine ⟨token, rest, rfl, ?_⟩
      cases token with
      | operand | number => trivial
      | word => exact h.grouped
      | punct p =>
          by_cases hparen : p = .lparen
          · exact .inl hparen
          have hparse := h.parses _ [] le_rfl
          rw [List.length_cons, Nat.mul_succ, List.append_nil, parseUnary] at hparse
          · cases hop : p.unaryOp with
            | none => simp [hop] at hparse
            | some op => exact .inr ⟨op, hop⟩
          · simp [hparen]
          · simp [hparen]

/-- A token that opens no operand is not the first one of a substituted piece. -/
theorem StandsAlone.eq_cons (h : StandsAlone piece pieceTree) {token : Token}
    (htoken : ¬token.Opens) {tokens following : List Token}
    (heq : substituteTokens name piece tokens = token :: following) :
    ∃ rest, tokens = token :: rest ∧ following = substituteTokens name piece rest := by
  cases tokens with
  | nil => cases heq
  | cons first rest =>
      by_cases hfirst : first = .operand name
      · obtain ⟨opening, others, rfl, hopens⟩ := h.head
        rw [hfirst, substituteTokens_operand, List.cons_append] at heq
        rw [(List.cons.inj heq).1] at hopens
        exact absurd hopens htoken
      · rw [substituteTokens_cons hfirst] at heq
        obtain ⟨rfl, rfl⟩ := List.cons.inj heq
        exact ⟨rest, rfl, rfl⟩

end Tokens

/-! ## The parser -/

theorem parseTypeName_rparen {tokens rest : List Token} {target : CastTarget}
    (hparse : parseTypeName tokens = some (target, .punct .rparen :: rest)) :
    ∃ type, tokens = type ++ .punct .rparen :: rest ∧ (∀ text, .operand text ∉ type) ∧
      ∀ later, parseTypeName (type ++ .punct .rparen :: later) =
        some (target, .punct .rparen :: later) := by
  unfold parseTypeName at hparse
  split at hparse
  · rename_i first second following
    split at hparse
    · rename_i hnames
      cases hparse
      exact ⟨[.word first, .punct .scope, .word second], rfl, by simp,
        fun later => by simp [parseTypeName, hnames]⟩
    · cases hparse
  · rename_i first following
    split at hparse
    · rename_i hname
      cases hparse
      exact ⟨[.word first, .punct .star], rfl, by simp,
        fun later => by simp [parseTypeName, hname]⟩
    · cases hparse
  · rename_i first second following
    split at hparse
    · rename_i hnames
      cases hparse
      exact ⟨[.word first, .word second], rfl, by simp,
        fun later => by simp [parseTypeName, hnames]⟩
    · cases hparse
  · rename_i first following _ _ _
    split at hparse
    · rename_i hname
      cases hparse
      exact ⟨[.word first], rfl, by simp, fun later => by simp [parseTypeName, hname]⟩
    · split at hparse
      · rename_i hname
        cases hparse
        exact ⟨[.word first], rfl, by simp, fun later => by simp [parseTypeName, hname]⟩
      · cases hparse
  · cases hparse

private theorem parseTypeName_eq_none {tokens : List Token}
    (h : ∀ text rest, tokens = .word text :: rest → text ∉ typeWords) :
    parseTypeName tokens = none := by
  unfold parseTypeName
  split
  all_goals first
    | rfl
    | have hword := h _ _ rfl
      simp only [typeWords, List.mem_cons, not_or] at hword
      simp [hword]

private theorem notMem_typeWords {fuel : Nat} {text : String} {tokens rest : List Token}
    {tree : CTree}
    (hparse : parseConditional fuel (.word text :: tokens) = some (tree, rest)) :
    text ∉ typeWords := by
  intro hmem
  cases fuel with
  | zero => cases hparse
  | succ fuel =>
      have hbinary : parseBinary fuel 0 (.word text :: tokens) = none := by
        cases fuel with
        | zero => rfl
        | succ fuel =>
            cases fuel with
            | zero => rfl
            | succ fuel => rw [parseBinary, parseUnary, if_pos hmem]
      rw [parseConditional, hbinary] at hparse
      cases hparse

/--
What is read of the tokens is read of the substituted ones, too.  A piece may be
longer than its operand, so the depth is bounded by the substituted tokens.
-/
def Rereads (name : String) (piece : List Token) (other : CTree) (reserve : Nat)
    (parse parse' : Nat → List Token → Option (CTree × List Token)) (fuel : Nat) : Prop :=
  ∀ tokens tree rest, rest.head? ≠ some (.operand name) →
    parse fuel tokens = some (tree, rest) → ∃ used, tokens = used ++ rest ∧
      ∀ enough, 4 * (substituteTokens name piece used).length + reserve ≤ enough →
        parse' enough (substituteTokens name piece tokens) =
          some (tree.substitute name other, substituteTokens name piece rest)

/-- What `Rereads` says of `parseUnary` and one list of tokens. -/
def RereadFrom (name : String) (piece : List Token) (other : CTree) (tokens : List Token)
    (tree : CTree) (rest : List Token) : Prop :=
  ∃ used, tokens = used ++ rest ∧
    ∀ enough, 4 * (substituteTokens name piece used).length ≤ enough →
      parseUnary enough (substituteTokens name piece tokens) =
        some (tree.substitute name other, substituteTokens name piece rest)

/-- The functions of the parser with one bound on the depth. -/
structure RereadsAll (name : String) (piece : List Token) (other : CTree) (fuel : Nat) :
    Prop where
  unary : Rereads name piece other 0 parseUnary parseUnary fuel
  binary : ∀ level, Rereads name piece other 1 (parseBinary · level) (parseBinary · level) fuel
  operators : ∀ level left, Rereads name piece other 1 (parseOperators · level left)
    (parseOperators · level (left.substitute name other)) fuel
  conditional : Rereads name piece other 2 parseConditional parseConditional fuel
  block : Rereads name piece other 3 parseBlock parseBlock fuel

section Parser

variable {name : String} {piece : List Token} {other : CTree} {fuel : Nat}
  (h : StandsAlone piece other) (ih : RereadsAll name piece other fuel)

theorem parseOperators_operand {level : Nat} {left tree : CTree} {tokens rest : List Token}
    (hoperand : tokens.head? = some (.operand name))
    (hparse : parseOperators fuel level left tokens = some (tree, rest)) : rest = tokens := by
  obtain ⟨others, rfl⟩ := List.head?_eq_some_iff.mp hoperand
  cases fuel with
  | zero => cases hparse
  | succ fuel =>
      cases hparse
      rfl

theorem stops_rereads {level : Nat} {left : CTree} {tokens : List Token}
    (hstops : ∀ enough, 1 ≤ enough →
      parseOperators enough level (left.substitute name other)
          (substituteTokens name piece tokens) =
        some (left.substitute name other, substituteTokens name piece tokens)) :
    ∃ used, tokens = used ++ tokens ∧
      ∀ enough, 4 * (substituteTokens name piece used).length + 1 ≤ enough →
        parseOperators enough level (left.substitute name other)
            (substituteTokens name piece tokens) =
          some (left.substitute name other, substituteTokens name piece tokens) :=
  ⟨[], rfl, fun enough henough => hstops enough (by simpa using henough)⟩

include h in
private theorem reread_operand (text : String) (rest : List Token) :
    RereadFrom name piece other (.operand text :: rest) (.operand text) rest := by
  refine ⟨[.operand text], rfl, fun enough henough => ?_⟩
  rw [CTree.substitute]
  by_cases hname : text = name
  · subst hname
    rw [if_pos rfl, substituteTokens_operand]
    rw [substituteTokens_operand, substituteTokens_nil, List.append_nil] at henough
    exact h.parses enough _ henough
  · have hne : Token.operand text ≠ .operand name := by simpa using hname
    rw [if_neg hname, substituteTokens_cons hne]
    rw [substituteTokens_cons hne] at henough
    exact parsesUnary_operand text enough _ henough

include ih

private theorem rereads_operators (level : Nat) (left : CTree) :
    Rereads name piece other 1 (parseOperators · level left)
      (parseOperators · level (left.substitute name other)) (fuel + 1) := by
  intro tokens tree rest hrest hparse
  cases tokens with
  | nil =>
      cases hparse
      exact stops_rereads fun enough henough => parseOperators_stops henough trivial
  | cons token tokens =>
      cases token with
      | word | number =>
          cases hparse
          exact stops_rereads fun enough henough =>
            parseOperators_stops henough (by simp [Stops])
      | operand text =>
          cases hparse
          have hne : Token.operand text ≠ .operand name := by simpa using hrest
          refine stops_rereads fun enough henough => ?_
          rw [substituteTokens_cons hne]
          exact parseOperators_stops henough trivial
      | punct p =>
          simp only [parseOperators] at hparse
          cases hop : p.binaryOp with
          | none =>
              rw [hop] at hparse
              cases hparse
              refine stops_rereads fun enough henough => ?_
              rw [substituteTokens_punct]
              exact parseOperators_stops henough hop
          | some op =>
              simp only [hop] at hparse
              split at hparse
              · rename_i hlevel
                cases hright : parseBinary fuel (op.level + 1) tokens with
                | none => simp [hright] at hparse
                | some pair =>
                    obtain ⟨right, following⟩ := pair
                    simp only [hright] at hparse
                    -- An operand here would be left over, and so begin the rest.
                    have hfollowing : following.head? ≠ some (.operand name) := by
                      intro hoperand
                      exact hrest (parseOperators_operand hoperand hparse ▸ hoperand)
                    obtain ⟨used, rfl, hused⟩ := ih.binary _ _ _ _ hfollowing hright
                    obtain ⟨later, rfl, hlater⟩ := ih.operators _ _ _ _ _ hrest hparse
                    refine ⟨.punct p :: (used ++ later), by simp, fun enough henough => ?_⟩
                    simp only [substituteTokens_punct, substituteTokens_append,
                      List.length_cons, List.length_append] at henough
                    obtain ⟨enough, rfl⟩ := Nat.exists_eq_add_of_le' (show 1 ≤ enough by omega)
                    simp only [substituteTokens_punct, parseOperators, hop, if_pos hlevel]
                    simp only [hused enough (by omega)]
                    exact hlater enough (by omega)
              · rename_i hlevel
                cases hparse
                refine stops_rereads fun enough henough => ?_
                obtain ⟨enough, rfl⟩ := Nat.exists_eq_add_of_le' henough
                simp only [substituteTokens_punct, parseOperators, hop, if_neg hlevel]

private theorem rereads_binary (level : Nat) :
    Rereads name piece other 1 (parseBinary · level) (parseBinary · level) (fuel + 1) := by
  intro tokens tree rest hrest hparse
  simp only [parseBinary] at hparse
  cases hleft : parseUnary fuel tokens with
  | none => simp [hleft] at hparse
  | some pair =>
      obtain ⟨left, following⟩ := pair
      simp only [hleft] at hparse
      have hfollowing : following.head? ≠ some (.operand name) := by
        intro hoperand
        exact hrest (parseOperators_operand hoperand hparse ▸ hoperand)
      obtain ⟨used, rfl, hused⟩ := ih.unary _ _ _ hfollowing hleft
      obtain ⟨later, rfl, hlater⟩ := ih.operators _ _ _ _ _ hrest hparse
      have hpositive : 1 ≤ (substituteTokens name piece used).length := by
        by_contra hzero
        have hnone := hused 0 (by omega)
        cases hnone
      refine ⟨used ++ later, by simp, fun enough henough => ?_⟩
      rw [substituteTokens_append, List.length_append] at henough
      obtain ⟨enough, rfl⟩ := Nat.exists_eq_add_of_le' (show 1 ≤ enough by omega)
      simp only [parseBinary]
      rw [hused enough (by omega)]
      exact hlater enough (by omega)

private theorem reread_block {following rest : List Token} {tree : CTree}
    (hblock : parseBlock fuel following = some (tree, .punct .rparen :: rest)) :
    RereadFrom name piece other (.punct .lparen :: .punct .lbrace :: following) tree rest := by
  obtain ⟨used, rfl, hused⟩ := ih.block _ _ _ (by simp) hblock
  refine ⟨.punct .lparen :: .punct .lbrace :: used ++ [.punct .rparen], by simp,
    fun enough henough => ?_⟩
  simp only [List.cons_append, substituteTokens_append, substituteTokens_punct,
    List.length_cons, List.length_append] at henough
  obtain ⟨enough, rfl⟩ := Nat.exists_eq_add_of_le' (show 1 ≤ enough by omega)
  rw [substituteTokens_punct, substituteTokens_punct, parseUnary, hused enough (by omega)]
  simp only [substituteTokens_punct]

private theorem reread_cast {following afterType rest : List Token} {target : CastTarget}
    {arg : CTree} (hrest : rest.head? ≠ some (.operand name))
    (hbrace : ∀ later, substituteTokens name piece following = .punct .lbrace :: later → False)
    (htype : parseTypeName following = some (target, .punct .rparen :: afterType))
    (harg : parseUnary fuel afterType = some (arg, rest)) :
    RereadFrom name piece other (.punct .lparen :: following) (.unary (.cast target) arg) rest := by
  obtain ⟨used, rfl, hused⟩ := ih.unary _ _ _ hrest harg
  obtain ⟨type, rfl, hoperand, hname⟩ := parseTypeName_rparen htype
  refine ⟨.punct .lparen :: type ++ .punct .rparen :: used, by simp, fun enough henough => ?_⟩
  have htokens : substituteTokens name piece type = type :=
    substituteTokens_of_notMem (hoperand name)
  simp only [List.cons_append, substituteTokens_append, substituteTokens_punct,
    htokens, List.length_cons, List.length_append] at henough hbrace ⊢
  obtain ⟨enough, rfl⟩ := Nat.exists_eq_add_of_le' (show 1 ≤ enough by omega)
  rw [parseUnary, hname]
  · simp only [← substituteTokens_append, hused enough (by omega)]
    rfl
  · exact hbrace

private theorem reread_parenthesis {following rest : List Token} {tree : CTree}
    (hbrace : ∀ later, substituteTokens name piece following = .punct .lbrace :: later → False)
    (hname : parseTypeName (substituteTokens name piece following) = none)
    (hinner : parseConditional fuel following = some (tree, .punct .rparen :: rest)) :
    RereadFrom name piece other (.punct .lparen :: following) tree rest := by
  obtain ⟨used, rfl, hused⟩ := ih.conditional _ _ _ (by simp) hinner
  refine ⟨.punct .lparen :: used ++ [.punct .rparen], by simp, fun enough henough => ?_⟩
  simp only [List.cons_append, substituteTokens_append, substituteTokens_punct,
    List.length_cons, List.length_append] at henough
  obtain ⟨enough, rfl⟩ := Nat.exists_eq_add_of_le' (show 1 ≤ enough by omega)
  rw [substituteTokens_punct, parseUnary, hname]
  · simp only [hused enough (by omega), substituteTokens_punct]
  · exact hbrace

private theorem reread_operator {p : Punct} {op : UnaryOp} {following rest : List Token}
    {arg : CTree} (hrest : rest.head? ≠ some (.operand name)) (hparen : p = .lparen → False)
    (hop : p.unaryOp = some op) (harg : parseUnary fuel following = some (arg, rest)) :
    RereadFrom name piece other (.punct p :: following) (.unary op arg) rest := by
  obtain ⟨used, rfl, hused⟩ := ih.unary _ _ _ hrest harg
  refine ⟨.punct p :: used, rfl, fun enough henough => ?_⟩
  rw [substituteTokens_punct, List.length_cons] at henough
  obtain ⟨enough, rfl⟩ := Nat.exists_eq_add_of_le' (show 1 ≤ enough by omega)
  rw [substituteTokens_punct, parseUnary, hop]
  · simp only [hused enough (by omega)]
    rfl
  · exact fun _ _ => hparen
  · exact hparen

omit ih

private theorem parseConditional_binary {tokens rest : List Token} {tree : CTree}
    (hquestion : rest.head? ≠ some (.punct .question))
    (hparse : parseBinary fuel 0 tokens = some (tree, rest)) :
    parseConditional (fuel + 1) tokens = some (tree, rest) := by
  rw [parseConditional, hparse]
  split
  · rename_i heq
    cases heq
    exact absurd rfl hquestion
  · rfl

include h ih

private theorem rereads_conditional :
    Rereads name piece other 2 parseConditional parseConditional (fuel + 1) := by
  intro tokens tree rest hrest hparse
  rw [parseConditional] at hparse
  split at hparse
  · rename_i condition afterCondition hcondition
    split at hparse
    · rename_i first afterFirst hfirst
      cases hsecond : parseConditional fuel afterFirst with
      | none => simp [hsecond] at hparse
      | some pair =>
          obtain ⟨second, following⟩ := pair
          simp only [hsecond, Option.some.injEq, Prod.mk.injEq] at hparse
          obtain ⟨rfl, rfl⟩ := hparse
          obtain ⟨usedThird, rfl, hthird⟩ := ih.conditional _ _ _ hrest hsecond
          obtain ⟨usedSecond, rfl, hsecond⟩ := ih.conditional _ _ _ (by simp) hfirst
          obtain ⟨usedFirst, rfl, hfirst⟩ := ih.binary _ _ _ _ (by simp) hcondition
          refine ⟨usedFirst ++ .punct .question :: usedSecond ++ .punct .colon :: usedThird,
            by simp, fun enough henough => ?_⟩
          simp only [substituteTokens_append, substituteTokens_punct, List.length_cons,
            List.length_append] at henough
          obtain ⟨enough, rfl⟩ := Nat.exists_eq_add_of_le' (show 1 ≤ enough by omega)
          rw [parseConditional]
          simp only [hfirst enough (by omega), substituteTokens_punct]
          rw [hsecond enough (by omega)]
          simp only [substituteTokens_punct]
          rw [hthird enough (by omega)]
          rfl
    · cases hparse
  · rename_i hnot
    obtain ⟨used, rfl, hused⟩ := ih.binary _ _ _ _ hrest hparse
    refine ⟨used, rfl, fun enough henough => ?_⟩
    obtain ⟨enough, rfl⟩ := Nat.exists_eq_add_of_le' (show 1 ≤ enough by omega)
    refine parseConditional_binary (fun hquestion => ?_) (hused enough (by omega))
    obtain ⟨following, hfollowing⟩ := List.head?_eq_some_iff.mp hquestion
    obtain ⟨others, rfl, -⟩ := h.eq_cons (by simp [Token.Opens, Punct.unaryOp]) hfollowing
    exact hnot _ _ hparse

private theorem rereads_block : Rereads name piece other 3 parseBlock parseBlock (fuel + 1) := by
  intro tokens tree rest hrest hparse
  unfold parseBlock at hparse
  split at hparse
  · cases hparse
  · rename_i fuel' variable_ afterName hfuel
    obtain rfl := Nat.succ.inj hfuel
    split at hparse
    · rename_i value afterValue hvalue
      cases hblock : parseBlock fuel afterValue with
      | none => simp [hblock] at hparse
      | some pair =>
          obtain ⟨inner, following⟩ := pair
          simp only [hblock, Option.some.injEq, Prod.mk.injEq] at hparse
          obtain ⟨rfl, rfl⟩ := hparse
          obtain ⟨usedRest, rfl, hrestRead⟩ := ih.block _ _ _ hrest hblock
          obtain ⟨usedValue, rfl, hvalueRead⟩ := ih.conditional _ _ _ (by simp) hvalue
          refine ⟨.word variable_ :: .punct .assign :: usedValue ++ .punct .semicolon :: usedRest,
            by simp, fun enough henough => ?_⟩
          simp only [List.cons_append, substituteTokens_append, substituteTokens_punct,
            substituteTokens_word, List.length_cons, List.length_append] at henough
          obtain ⟨enough, rfl⟩ := Nat.exists_eq_add_of_le' (show 1 ≤ enough by omega)
          rw [substituteTokens_word, substituteTokens_punct, parseBlock,
            hvalueRead enough (by omega)]
          simp only [substituteTokens_punct]
          rw [hrestRead enough (by omega)]
          rfl
    · cases hparse
  · rename_i fuel' hfuel hnot
    obtain rfl := Nat.succ.inj hfuel
    split at hparse
    · rename_i inner following hinner
      cases hparse
      obtain ⟨used, rfl, hused⟩ := ih.conditional _ _ _ (by simp) hinner
      refine ⟨used ++ [.punct .semicolon, .punct .rbrace], by simp, fun enough henough => ?_⟩
      simp only [substituteTokens_append, substituteTokens_punct, List.length_cons,
        List.length_append] at henough
      obtain ⟨enough, rfl⟩ := Nat.exists_eq_add_of_le' (show 1 ≤ enough by omega)
      rw [parseBlock, hused enough (by omega)]
      · simp only [substituteTokens_punct]
      · intro variable_ following heq
        obtain ⟨others, hothers, hfollowing⟩ :=
          h.eq_cons (show ¬Token.Opens (.word variable_) from not_false) heq
        obtain ⟨later, rfl, -⟩ :=
          h.eq_cons (by simp [Token.Opens, Punct.unaryOp]) hfollowing.symm
        exact hnot _ _ hothers
    · cases hparse

private theorem rereads_unary : Rereads name piece other 0 parseUnary parseUnary (fuel + 1) := by
  intro tokens tree rest hrest hparse
  unfold parseUnary at hparse
  split at hparse
  · cases hparse
  · cases hparse
  · rename_i text following hfuel
    cases hparse
    exact reread_operand h text rest
  · rename_i text following hfuel
    cases hparse
    refine ⟨[.number text], rfl, fun enough henough => ?_⟩
    rw [substituteTokens_number] at henough ⊢
    exact parsesUnary_number text enough _ henough
  · rename_i text following hfuel
    split at hparse
    · cases hparse
    · rename_i hword
      cases hparse
      refine ⟨[.word text], rfl, fun enough henough => ?_⟩
      rw [substituteTokens_word] at henough ⊢
      exact parsesUnary_name hword enough _ henough
  · rename_i fuel' following hfuel
    obtain rfl := Nat.succ.inj hfuel
    split at hparse
    · rename_i inner afterBlock hblock
      cases hparse
      exact reread_block ih hblock
    · cases hparse
  · rename_i fuel' following hbrace hfuel
    obtain rfl := Nat.succ.inj hfuel
    -- The piece may come first, but it opens neither a block nor a cast.
    have hbrace' : ∀ later, substituteTokens name piece following =
        .punct .lbrace :: later → False := by
      intro later heq
      obtain ⟨others, hothers, -⟩ := h.eq_cons (by simp [Token.Opens, Punct.unaryOp]) heq
      exact hbrace _ hothers
    split at hparse
    · rename_i target afterType htype
      cases harg : parseUnary fuel afterType with
      | none => simp [harg] at hparse
      | some pair =>
          obtain ⟨arg, afterArg⟩ := pair
          simp only [harg, Option.some.injEq, Prod.mk.injEq] at hparse
          obtain ⟨rfl, rfl⟩ := hparse
          exact reread_cast ih hrest hbrace' htype harg
    · split at hparse
      · rename_i inner afterInner hinner
        cases hparse
        have hname : parseTypeName (substituteTokens name piece following) = none := by
          refine parseTypeName_eq_none fun text later heq => ?_
          obtain ⟨others, rfl, -⟩ :=
            h.eq_cons (show ¬Token.Opens (.word text) from not_false) heq
          exact notMem_typeWords hinner
        exact reread_parenthesis ih hbrace' hname hinner
      · cases hparse
  · rename_i fuel' p following hbrace hparen hfuel
    obtain rfl := Nat.succ.inj hfuel
    cases hop : p.unaryOp with
    | none => simp [hop] at hparse
    | some op =>
        cases harg : parseUnary fuel following with
        | none => simp [hop, harg] at hparse
        | some pair =>
            obtain ⟨arg, afterArg⟩ := pair
            simp only [hop, harg, Option.some.injEq, Prod.mk.injEq] at hparse
            obtain ⟨rfl, rfl⟩ := hparse
            exact reread_operator ih hrest hparen hop harg

omit ih

private theorem rereadsAll (fuel : Nat) : RereadsAll name piece other fuel := by
  induction fuel with
  | zero =>
      constructor
      all_goals
        intros
        intro tokens tree rest _ hparse
        cases hparse
  | succ fuel ih =>
      exact ⟨rereads_unary h ih, rereads_binary ih, rereads_operators ih,
        rereads_conditional h ih, rereads_block h ih⟩

private theorem parse_substitute {tokens : List Token} {tree : CTree}
    (hparse : parse tokens = some tree) :
    parse (substituteTokens name piece tokens) = some (tree.substitute name other) := by
  unfold parse at hparse
  split at hparse
  · rename_i tree' hconditional
    obtain rfl := Option.some.inj hparse
    obtain ⟨used, rfl, hused⟩ :=
      (rereadsAll h (parseFuel tokens)).conditional _ _ _ (by simp) hconditional
    rw [parse, hused _ (by simp [parseFuel])]
    rfl
  · cases hparse

end Parser

/-! ## The lexer -/

section Lexer

variable {name text : String} {pending following : Pending}
  {symbols front back : List Symbol} {tokens : List Token}

theorem operand_of_mem_flush (h : pending.flush = some tokens)
    (hmem : .operand text ∈ tokens) : pending = .operand text := by
  cases pending with
  | operand other =>
      cases h
      obtain ⟨⟩ := List.mem_singleton.mp hmem
      rfl
  | punct first =>
      obtain ⟨p, -, rfl⟩ := Option.map_eq_some_iff.mp h
      cases List.mem_singleton.mp hmem
  | nothing =>
      cases h
      exact absurd hmem List.not_mem_nil
  | word | number =>
      cases h
      cases List.mem_singleton.mp hmem

private theorem operand_of_mem_next {c : Char} (h : pending.next c = some (tokens, following)) :
    (.operand text ∈ tokens → pending = .operand text) ∧ following ≠ .operand text := by
  unfold Pending.next at h
  split at h
  · obtain ⟨flushed, hflush, heq⟩ := Option.map_eq_some_iff.mp h
    cases heq
    exact ⟨operand_of_mem_flush hflush, nofun⟩
  · split at h
    · obtain ⟨flushed, hflush, heq⟩ := Option.map_eq_some_iff.mp h
      cases heq
      refine ⟨fun hmem => ?_, nofun⟩
      rcases List.mem_append.mp hmem with hmem | hmem
      · exact operand_of_mem_flush hflush hmem
      · cases List.mem_singleton.mp hmem
    · split at h
      · split at h
        · cases h
          exact ⟨fun hmem => absurd hmem List.not_mem_nil, nofun⟩
        · cases h
          exact ⟨fun hmem => absurd hmem List.not_mem_nil, nofun⟩
        · cases h
        · obtain ⟨flushed, hflush, heq⟩ := Option.map_eq_some_iff.mp h
          cases heq
          refine ⟨operand_of_mem_flush hflush, ?_⟩
          split <;> exact nofun
      · split at h
        · cases h
        · split at h
          · cases h
            refine ⟨fun hmem => ?_, nofun⟩
            cases List.mem_singleton.mp hmem
          · obtain ⟨flushed, hflush, heq⟩ := Option.map_eq_some_iff.mp h
            cases heq
            exact ⟨operand_of_mem_flush hflush, nofun⟩
        · obtain ⟨flushed, hflush, heq⟩ := Option.map_eq_some_iff.mp h
          cases heq
          exact ⟨operand_of_mem_flush hflush, nofun⟩

theorem operand_of_mem_lexFrom (h : lexFrom pending symbols = some tokens)
    (hmem : .operand text ∈ tokens) :
    .operand text ∈ symbols ∨ pending = .operand text := by
  induction symbols generalizing pending tokens with
  | nil =>
      rw [lexFrom] at h
      exact .inr (operand_of_mem_flush h hmem)
  | cons symbol symbols ih =>
      cases symbol with
      | operand other =>
          cases pending with
          | nothing =>
              rw [lexFrom] at h
              rcases ih h hmem with hrest | heq
              · exact .inl (List.mem_cons_of_mem _ hrest)
              · cases heq
                exact .inl List.mem_cons_self
          | _ => cases h
      | char c =>
          rw [lexFrom] at h
          cases hnext : pending.next c with
          | none => simp [hnext] at h
          | some pair =>
              obtain ⟨completed, following⟩ := pair
              simp only [hnext] at h
              obtain ⟨later, hlater, rfl⟩ := Option.map_eq_some_iff.mp h
              obtain ⟨hcompleted, hfollowing⟩ :
                  (.operand text ∈ completed → pending = .operand text) ∧
                    following ≠ .operand text := operand_of_mem_next hnext
              rcases List.mem_append.mp hmem with hmem | hmem
              · exact .inr (hcompleted hmem)
              · rcases ih hlater hmem with hrest | heq
                · exact .inl (List.mem_cons_of_mem _ hrest)
                · exact absurd heq hfollowing

/-- No token goes on across the beginning of an operand. -/
theorem exists_tokens_before_operand
    (h : (lexFrom pending (front ++ .operand name :: back)).isSome) :
    ∃ before, ∀ rest, lexFrom pending (front ++ rest) = (lex rest).map (before ++ ·) := by
  induction front generalizing pending with
  | nil =>
      cases pending with
      | nothing => exact ⟨[], fun rest => by simp [lex]⟩
      | _ => cases h
  | cons symbol front ih =>
      cases symbol with
      | operand other =>
          cases pending with
          | nothing =>
              rw [List.cons_append, lexFrom] at h
              obtain ⟨before, hbefore⟩ := ih h
              exact ⟨before, fun rest => by rw [List.cons_append, lexFrom, hbefore rest]⟩
          | _ => cases h
      | char c =>
          rw [List.cons_append, lexFrom] at h
          cases hnext : pending.next c with
          | none => simp [hnext] at h
          | some pair =>
              obtain ⟨completed, following⟩ := pair
              simp only [hnext, Option.isSome_map] at h
              obtain ⟨before, hbefore⟩ := ih h
              refine ⟨completed ++ before, fun rest => ?_⟩
              rw [List.cons_append, lexFrom]
              simp only [hnext, hbefore rest, Option.map_map]
              congr 1
              funext later
              exact (List.append_assoc completed before later).symm

end Lexer

/-! ## The text and its value -/

theorem readText_substitute {name : String} (hname : name ≠ "") {front back piece : List Symbol}
    {tree pieceTree : CTree} (hread : readText (front ++ (operand name ++ back)) = some tree)
    (hback : Delimited back) (hnotFront : .operand name ∉ front)
    (hnotBack : .operand name ∉ back) (hpiece : ReadsAs ParsesUnary piece pieceTree) :
    readText (front ++ (piece ++ back)) = some (tree.substitute name pieceTree) := by
  obtain ⟨pieceTokens, hlexes, hparses, hgrouped, -⟩ := hpiece
  obtain ⟨tokens, hlex, hparse⟩ := Option.bind_eq_some_iff.mp hread
  have hsplit := hlex
  rw [operand, if_neg hname, List.singleton_append] at hsplit
  obtain ⟨before, hbefore⟩ := exists_tokens_before_operand (Option.isSome_of_eq_some hsplit)
  have hfrontTokens : lexFrom .nothing front = some before := by
    simpa [lex, lexFrom, Pending.flush] using hbefore []
  rw [lex, hbefore, lexes_operand hname back hback, Option.map_map] at hlex
  obtain ⟨after, hafter, rfl⟩ := Option.map_eq_some_iff.mp hlex
  have hbeforeOperand : .operand name ∉ before := by
    intro hmem
    rcases operand_of_mem_lexFrom hfrontTokens hmem with hmem | heq
    · exact hnotFront hmem
    · cases heq
  have hafterOperand : .operand name ∉ after := by
    intro hmem
    rcases operand_of_mem_lexFrom hafter hmem with hmem | heq
    · exact hnotBack hmem
    · cases heq
  have htokens : parse (substituteTokens name pieceTokens _) =
      some (tree.substitute name pieceTree) := parse_substitute ⟨hparses, hgrouped⟩ hparse
  simp only [Function.comp_apply, List.singleton_append, substituteTokens_append,
    substituteTokens_operand, substituteTokens_of_notMem hbeforeOperand,
    substituteTokens_of_notMem hafterOperand] at htokens
  rw [readText, lex, hbefore, hlexes back hback, hafter]
  exact htokens

theorem CTree.eval_substitute {V : Type*} {machine : CMachine V} {flag name : String}
    {read : String → V} {other : CTree} {value : V}
    (h : other.eval machine flag read = some (value, false)) (tree : CTree) :
    (tree.substitute name other).eval machine flag read =
      tree.eval machine flag (Function.update read name value) := by
  induction tree with
  | operand text =>
      rw [substitute, eval]
      by_cases hname : text = name
      · rw [if_pos hname, hname, Function.update_self, h]
      · rw [if_neg hname, eval, Function.update_of_ne hname]
  | number | name => rfl
  | unary op arg ih => rw [substitute, eval, eval, ih]
  | binary op left right ihLeft ihRight => rw [substitute, eval, eval, ihLeft, ihRight]
  | conditional condition first second ihCondition ihFirst ihSecond =>
      rw [substitute, eval, eval, ihCondition, ihFirst, ihSecond]
  | assign variable_ value rest ihValue ihRest =>
      rw [substitute, eval, eval, ihValue, ihRest]

end F1X.Library
