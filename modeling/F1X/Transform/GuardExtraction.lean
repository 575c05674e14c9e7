import F1X.Repair.ProjectFiles
import F1X.Repair.Profiler
import F1X.Transform.ArgumentList
import F1X.Transform.Expr

/-!
# Guard extraction

`IfGuardSchemaApplicationHandler::run` of `transform/SchemaApplication.cpp`.  A
statement below an `if`, `for` or `while` is put in a block of its own together
with its semicolon, for which the handler scans the text behind the statement.
-/

namespace F1X

open Library

/-! ## The scan for the semicolon -/

def isBlank (c : Char) : Bool := c = ' ' || c = '\t' || c = '\n'

/-- The length to replace, from the character on that the loop looks at. -/
def absorbSemicolon (origLength : Nat) : List Char → Option Nat
  | [] => some origLength
  | curChar :: followingData =>
      if curChar = ';' then some (origLength + 1)
      else if isBlank curChar then absorbSemicolon (origLength + 1) followingData
      -- the handler returns, so that nothing is replaced
      else none

/-- Behind the blanks there is a semicolon or the end of the file. -/
def SemicolonFollows (following : List Char) : Prop :=
  ∀ c ∈ (following.dropWhile isBlank).head?, c = ';'

private theorem absorbSemicolon_isSome_iff {origLength : Nat} {following : List Char} :
    (absorbSemicolon origLength following).isSome = true ↔ SemicolonFollows following := by
  unfold SemicolonFollows
  induction following generalizing origLength with
  | nil => simp [absorbSemicolon]
  | cons c following ih =>
      unfold absorbSemicolon
      by_cases hsemicolon : c = ';'
      · rw [if_pos hsemicolon, hsemicolon]
        exact iff_of_true rfl (by simp [List.dropWhile_cons_of_neg, isBlank])
      · rw [if_neg hsemicolon]
        by_cases hblank : isBlank c = true
        · rw [if_pos hblank, List.dropWhile_cons_of_pos hblank, ih]
        · rw [if_neg hblank, List.dropWhile_cons_of_neg hblank]
          simp [hsemicolon]

/-! ## The handler -/

/-- A matched statement; `characterData` is the source from its first character on. -/
structure MatchedStatement where
  beginLine : Nat
  beginColumn : Nat
  endLine : Nat
  endColumn : Nat
  inMainFile : Bool
  isChildOfNonblock : Bool
  parents : List EnclosingNode
  text : String
  rangeSize : Nat
  characterData : List Char

/-- What a run of the transformer is given; `print` is the printer of the compiler. -/
structure TransformRun where
  fileId : Nat
  interestingLocations : Finset String
  useGlobalVariables : Bool
  print : Expr → String
  fileIdFits : fileId < uintRange

structure Replacement where
  beginLine : Nat
  beginColumn : Nat
  length : Nat
  appId : Nat
  text : String

structure GuardState where
  baseAppId : Nat
  alreadyMatched : Finset Location
  schemaApplications : List ApplicationJson
  replacements : List Replacement

namespace GuardExtraction

def locToJSON (loc : Location) : LocationJson where
  fileId := setInt loc.fileId
  beginLine := setInt loc.beginLine
  beginColumn := setInt loc.beginColumn
  endLine := setInt loc.endLine
  endColumn := setInt loc.endColumn

section Handler

variable (cfg : TransformRun)

def current (stmt : MatchedStatement) : Location :=
  ⟨cfg.fileId, stmt.beginLine, stmt.beginColumn, stmt.endLine, stmt.endColumn⟩

def isInterestingLocation (loc : Location) : Bool := locToString loc ∈ cfg.interestingLocations

def guardText (appId : Nat) (stmt : MatchedStatement) (arguments : String) : String :=
  (if stmt.isChildOfNonblock then "\x7b " else "") ++
    "if (" ++
    "!(__f1xapp == " ++ toString appId ++ "ul) || " ++
    "__f1x_" ++ toString cfg.fileId ++ "_" ++ toString stmt.beginLine ++ "_" ++
    toString stmt.beginColumn ++ "_" ++ toString stmt.endLine ++ "_" ++
    toString stmt.endColumn ++
    "(" ++ arguments ++ ")" ++
    ") " ++
    stmt.text ++
    (if stmt.isChildOfNonblock then "; \x7d" else "")

/-- The length of the replaced text, unless the scan gives up. -/
def replacedLength (stmt : MatchedStatement) : Option Nat :=
  if stmt.isChildOfNonblock then
    absorbSemicolon stmt.rangeSize (stmt.characterData.drop stmt.rangeSize)
  else some stmt.rangeSize

/-- The part of the handler after its guards. -/
def extractGuard (state : GuardState) (stmt : MatchedStatement) : Except Failure GuardState := do
  let appId ← f1xapp state.baseAppId cfg.fileId
  let app := ifGuardApplication cfg.print cfg.useGlobalVariables (setInt appId)
    (locToJSON (current cfg stmt)) stmt.parents
  let state :=
    { state with
      baseAppId := state.baseAppId + 1
      schemaApplications := state.schemaApplications ++ [app] }
  match replacedLength stmt with
  | none => .ok state
  | some length =>
      .ok { state with
        replacements := state.replacements ++
          [⟨stmt.beginLine, stmt.beginColumn, length, appId,
            guardText cfg appId stmt (argumentListText app.components)⟩] }

def run (state : GuardState) (stmt : MatchedStatement) : Except Failure GuardState :=
  if current cfg stmt ∈ state.alreadyMatched then .ok state
  else
    let state := { state with alreadyMatched := insert (current cfg stmt) state.alreadyMatched }
    if !stmt.inMainFile then .ok state
    else if !isInterestingLocation cfg (current cfg stmt) then .ok state
    else extractGuard cfg state stmt

def runAll : GuardState → List MatchedStatement → Except Failure GuardState
  | state, [] => .ok state
  | state, stmt :: stmts => do
      let state ← run cfg state stmt
      runAll state stmts

/-- The statements that get past the guards of the handler. -/
def extracted : Finset Location → List MatchedStatement → List MatchedStatement
  | _, [] => []
  | alreadyMatched, stmt :: stmts =>
      if current cfg stmt ∈ alreadyMatched then extracted alreadyMatched stmts
      else if stmt.inMainFile ∧ isInterestingLocation cfg (current cfg stmt) then
        stmt :: extracted (insert (current cfg stmt) alreadyMatched) stmts
      else extracted (insert (current cfg stmt) alreadyMatched) stmts

end Handler

/-! ## Runs -/

section Runs

variable {cfg : TransformRun}

/-- The ids of the objects and of the replacements, as far as they are made. -/
def jsonIds (state : GuardState) : List Int := state.schemaApplications.map (·.appId)

def sourceIds (state : GuardState) : List Int := state.replacements.map fun r => (r.appId : Int)

def appIdOf (cfg : TransformRun) (baseAppId : Nat) : Nat := cfg.fileId * 2 ^ 22 + baseAppId

theorem f1xapp_eq_appIdOf {cfg : TransformRun} {baseAppId appId : Nat}
    (h : f1xapp baseAppId cfg.fileId = .ok appId) :
    baseAppId < 2 ^ 22 ∧ appId = appIdOf cfg baseAppId := by
  obtain ⟨hroom, hvalue⟩ := f1xapp_eq_ok h
  have hfile := cfg.fileIdFits
  unfold uintRange at hfile
  rw [Nat.mod_eq_of_lt (by omega)] at hvalue
  exact ⟨hroom, hvalue⟩

private theorem extractGuard_spec {state after : GuardState} {stmt : MatchedStatement}
    (h : extractGuard cfg state stmt = .ok after) :
    state.baseAppId < 2 ^ 22 ∧ after.baseAppId = state.baseAppId + 1 ∧
      after.alreadyMatched = state.alreadyMatched ∧
      jsonIds after = jsonIds state ++ [setInt (appIdOf cfg state.baseAppId)] ∧
      sourceIds after = sourceIds state ++
        if (replacedLength stmt).isSome then [(appIdOf cfg state.baseAppId : Int)] else [] := by
  obtain ⟨appId, happId, h⟩ := bind_eq_ok_iff.mp h
  obtain ⟨hroom, rfl⟩ := f1xapp_eq_appIdOf happId
  refine ⟨hroom, ?_⟩
  cases hlength : replacedLength stmt with
  | none =>
      rw [hlength] at h
      obtain rfl := Except.ok.inj h
      simp [jsonIds, sourceIds, ifGuardApplication]
  | some length =>
      rw [hlength] at h
      obtain rfl := Except.ok.inj h
      simp [jsonIds, sourceIds, ifGuardApplication]

theorem run_cases {state after : GuardState} {stmt : MatchedStatement}
    (h : run cfg state stmt = .ok after) :
    (current cfg stmt ∈ state.alreadyMatched ∧ after = state) ∨
      (current cfg stmt ∉ state.alreadyMatched ∧
        ((¬(stmt.inMainFile ∧ isInterestingLocation cfg (current cfg stmt)) ∧
          after = { state with
            alreadyMatched := insert (current cfg stmt) state.alreadyMatched }) ∨
        ((stmt.inMainFile ∧ isInterestingLocation cfg (current cfg stmt)) ∧
          extractGuard cfg
            { state with alreadyMatched := insert (current cfg stmt) state.alreadyMatched }
            stmt = .ok after))) := by
  unfold run at h
  by_cases hseen : current cfg stmt ∈ state.alreadyMatched
  · rw [if_pos hseen] at h
    exact Or.inl ⟨hseen, (Except.ok.inj h).symm⟩
  · rw [if_neg hseen] at h
    refine Or.inr ⟨hseen, ?_⟩
    cases hfile : stmt.inMainFile with
    | false =>
        simp only [hfile, Bool.not_false, if_true] at h
        exact Or.inl ⟨by simp, (Except.ok.inj h).symm⟩
    | true =>
        cases hinteresting : isInterestingLocation cfg (current cfg stmt) with
        | false =>
            simp only [hfile, hinteresting, Bool.not_true, Bool.not_false, Bool.false_eq_true,
              if_false, if_true] at h
            exact Or.inl ⟨by simp, (Except.ok.inj h).symm⟩
        | true =>
            simp only [hfile, hinteresting, Bool.not_true, Bool.false_eq_true, if_false] at h
            exact Or.inr ⟨⟨rfl, rfl⟩, h⟩

/-- What a run has recorded and replaced: the statements with the ids they got. -/
structure Records (cfg : TransformRun) (state after : GuardState)
    (numbered : List (MatchedStatement × Nat)) : Prop where
  jsonIds : jsonIds after =
    jsonIds state ++ numbered.map fun entry => setInt (appIdOf cfg entry.2)
  sourceIds : sourceIds after =
    sourceIds state ++ (numbered.filter fun entry => (replacedLength entry.1).isSome).map
      fun entry => (appIdOf cfg entry.2 : Int)
  room : ∀ entry ∈ numbered, entry.2 < 2 ^ 22

theorem runAll_records {state after : GuardState} {stmts : List MatchedStatement}
    (h : runAll cfg state stmts = .ok after) :
    Records cfg state after
      ((extracted cfg state.alreadyMatched stmts).zipIdx state.baseAppId) := by
  induction stmts generalizing state with
  | nil =>
      obtain rfl := Except.ok.inj h
      exact ⟨by simp [extracted], by simp [extracted], by simp [extracted]⟩
  | cons stmt stmts ih =>
      obtain ⟨next, hrun, hrest⟩ := bind_eq_ok_iff.mp h
      have hnext := ih hrest
      unfold extracted
      rcases run_cases hrun with ⟨hseen, rfl⟩ | ⟨hseen, ⟨hskip, rfl⟩ | ⟨hpass, hextract⟩⟩
      · rwa [if_pos hseen]
      · rw [if_neg hseen, if_neg hskip]
        exact ⟨hnext.jsonIds, hnext.sourceIds, hnext.room⟩
      · obtain ⟨hroom, hbase, hmatched, hjson, hsource⟩ := extractGuard_spec hextract
        rw [if_neg hseen, if_pos hpass, List.zipIdx_cons]
        rw [hbase, hmatched] at hnext
        refine ⟨?_, ?_, List.forall_mem_cons.mpr ⟨hroom, hnext.room⟩⟩
        · rw [hnext.jsonIds, hjson, List.map_cons, List.append_assoc]
          rfl
        · rw [hnext.sourceIds, hsource, List.filter_cons]
          by_cases hreplaced : (replacedLength stmt).isSome = true
          · rw [if_pos hreplaced, if_pos hreplaced, List.append_assoc]
            rfl
          · rw [if_neg hreplaced, if_neg hreplaced, List.append_nil]
            rfl

theorem setInt_eq_self_iff {n : Nat} : setInt n = n ↔ n < 2 ^ 31 := by
  rw [setInt, Int.bmod_def, uintRange]
  split <;> omega

theorem setInt_appIdOf_iff {baseAppId : Nat} (h : baseAppId < 2 ^ 22) :
    setInt (appIdOf cfg baseAppId) = appIdOf cfg baseAppId ↔ cfg.fileId < 2 ^ 9 := by
  rw [setInt_eq_self_iff, appIdOf]
  omega

private theorem setInt_appIdOf_injective {first second : Nat} (hfirst : first < 2 ^ 22)
    (hsecond : second < 2 ^ 22)
    (h : setInt (appIdOf cfg first) = setInt (appIdOf cfg second)) : first = second := by
  have hemod : (appIdOf cfg first : Int) % uintRange = (appIdOf cfg second : Int) % uintRange := by
    rw [← @Int.bmod_emod (appIdOf cfg first) uintRange,
      ← @Int.bmod_emod (appIdOf cfg second) uintRange]
    exact congrArg (· % (uintRange : Int)) h
  unfold appIdOf uintRange at hemod
  push_cast at hemod
  omega

theorem replacedLength_isSome_iff {stmt : MatchedStatement} :
    (replacedLength stmt).isSome = true ↔ (stmt.isChildOfNonblock = true →
      SemicolonFollows (stmt.characterData.drop stmt.rangeSize)) := by
  unfold replacedLength
  cases stmt.isChildOfNonblock with
  | false => simp
  | true => simp [absorbSemicolon_isSome_iff]

private theorem map_eq_map_filter_iff {α β : Type} {f g : α → β} {p : α → Bool} {xs : List α} :
    xs.map f = (xs.filter p).map g ↔ ∀ x ∈ xs, p x = true ∧ f x = g x := by
  constructor
  · intro h
    have hlength := congrArg List.length h
    rw [List.length_map, List.length_map] at hlength
    have hall := List.length_filter_eq_length_iff.mp hlength.symm
    rw [List.filter_eq_self.mpr hall] at h
    exact fun x hx => ⟨hall x hx, List.map_inj_left.mp h x hx⟩
  · intro h
    rw [List.filter_eq_self.mpr fun x hx => (h x hx).1]
    exact List.map_congr_left fun x hx => (h x hx).2

end Runs

def initialState (baseAppId : Nat) (alreadyMatched : Finset Location) : GuardState where
  baseAppId := baseAppId
  alreadyMatched := alreadyMatched
  schemaApplications := []
  replacements := []

theorem jsonIds_initialState (baseAppId : Nat) (alreadyMatched : Finset Location) :
    jsonIds (initialState baseAppId alreadyMatched) = [] := rfl

theorem sourceIds_initialState (baseAppId : Nat) (alreadyMatched : Finset Location) :
    sourceIds (initialState baseAppId alreadyMatched) = [] := rfl

/--
The ids of the objects are fresh, and they are the ids in the rewritten source
exactly if the scan finds the semicolon of every extracted statement that needs a
block, in a file with one of the ids whose applications fit an `int`.
-/
theorem guards_all_or_nothing_iff {cfg : TransformRun} {baseAppId : Nat}
    {alreadyMatched : Finset Location} {stmts : List MatchedStatement} {after : GuardState}
    (hrun : runAll cfg (initialState baseAppId alreadyMatched) stmts = .ok after) :
    ((jsonIds after).Nodup ∧ jsonIds after = sourceIds after) ↔
      ∀ stmt ∈ extracted cfg alreadyMatched stmts,
        (stmt.isChildOfNonblock = true →
          SemicolonFollows (stmt.characterData.drop stmt.rangeSize)) ∧ cfg.fileId < 2 ^ 9 := by
  have hrecords := runAll_records hrun
  change Records cfg _ after ((extracted cfg alreadyMatched stmts).zipIdx baseAppId) at hrecords
  have hjson := hrecords.jsonIds
  have hsource := hrecords.sourceIds
  rw [jsonIds_initialState, List.nil_append] at hjson
  rw [sourceIds_initialState, List.nil_append] at hsource
  rw [and_iff_right, hjson, hsource, map_eq_map_filter_iff]
  · constructor
    · intro hentries stmt hstmt
      rw [← List.zipIdx_map_fst baseAppId (extracted cfg alreadyMatched stmts)] at hstmt
      obtain ⟨entry, hentry, rfl⟩ := List.mem_map.mp hstmt
      obtain ⟨hreplaced, hid⟩ := hentries entry hentry
      exact ⟨replacedLength_isSome_iff.mp hreplaced,
        (setInt_appIdOf_iff (hrecords.room entry hentry)).mp hid⟩
    · intro hstmts entry hentry
      obtain ⟨hfollows, hfile⟩ := hstmts entry.1 (List.fst_mem_of_mem_zipIdx hentry)
      exact ⟨replacedLength_isSome_iff.mpr hfollows,
        (setInt_appIdOf_iff (hrecords.room entry hentry)).mpr hfile⟩
  · have hdistinct : ((extracted cfg alreadyMatched stmts).zipIdx baseAppId).Pairwise
        fun first second => first.2 ≠ second.2 := by
      refine List.pairwise_map.mp ?_
      rw [List.zipIdx_map_snd]
      exact List.nodup_range'
    rw [hjson]
    refine List.pairwise_map.mpr (hdistinct.imp_of_mem fun {first second} hfirst hsecond hne => ?_)
    exact fun heq => hne (setInt_appIdOf_injective (hrecords.room first hfirst)
      (hrecords.room second hsecond) heq)

/-- A run on the first file, in which the profile has one location. -/
def oneLocation : TransformRun where
  fileId := 0
  interestingLocations := {"0 8 5 8 9"}
  useGlobalVariables := false
  print := Expr.printed
  fileIdFits := by decide

def jump (characterData : String) : MatchedStatement where
  beginLine := 8
  beginColumn := 5
  endLine := 8
  endColumn := 9
  inMainFile := true
  isChildOfNonblock := true
  parents := []
  text := "break"
  rangeSize := 5
  characterData := characterData.toList

private theorem extracted_jump (characterData : String) :
    extracted oneLocation ∅ [jump characterData] = [jump characterData] := by
  have hinteresting : (jump characterData).inMainFile ∧
      isInterestingLocation oneLocation (current oneLocation (jump characterData)) := by
    refine ⟨rfl, ?_⟩
    change isInterestingLocation oneLocation ⟨0, 8, 5, 8, 9⟩ = true
    decide
  rw [extracted, if_neg (Finset.notMem_empty _), if_pos hinteresting, extracted]

theorem guards_all_or_nothing_iff_jump :
    ∃ after, runAll oneLocation (initialState 0 ∅) [jump "break ;"] = .ok after ∧
      (((jsonIds after).Nodup ∧ jsonIds after = sourceIds after) ↔
        ∀ stmt ∈ extracted oneLocation ∅ [jump "break ;"],
          (stmt.isChildOfNonblock = true →
            SemicolonFollows (stmt.characterData.drop stmt.rangeSize)) ∧
          oneLocation.fileId < 2 ^ 9) := by
  obtain ⟨after, hrun⟩ : ∃ after,
      runAll oneLocation (initialState 0 ∅) [jump "break ;"] = .ok after := ⟨_, rfl⟩
  exact ⟨after, hrun, guards_all_or_nothing_iff hrun⟩

/-- A comment before the semicolon: the object is written, the source is left as it was. -/
theorem comment_before_semicolon :
    ∃ after, runAll oneLocation (initialState 0 ∅) [jump "break /* done */;"] = .ok after ∧
      jsonIds after = [0] ∧ sourceIds after = [] := by
  obtain ⟨after, hrun⟩ : ∃ after,
      runAll oneLocation (initialState 0 ∅) [jump "break /* done */;"] = .ok after := ⟨_, rfl⟩
  have hrecords := runAll_records hrun
  change Records oneLocation _ after ((extracted oneLocation ∅ [jump _]).zipIdx 0) at hrecords
  rw [extracted_jump] at hrecords
  have hgivesUp : replacedLength (jump "break /* done */;") = none := by decide
  have hid : appIdOf oneLocation 0 = 0 := Nat.zero_mul _
  have hzero : setInt 0 = 0 := setInt_eq_self_iff.mpr (by decide)
  refine ⟨after, hrun, ?_, ?_⟩
  · have hjson := hrecords.jsonIds
    simpa [hid, hzero, jsonIds_initialState] using hjson
  · have hsource := hrecords.sourceIds
    simpa [hgivesUp, sourceIds_initialState] using hsource

end GuardExtraction

end F1X
