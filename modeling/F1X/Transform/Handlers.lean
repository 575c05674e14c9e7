import F1X.Library.FirstOfKey
import F1X.Library.TreeEdits
import F1X.Repair.FilesArgument
import F1X.Transform.GuardedStatements
import F1X.Transform.MatchedExpressions

/-!
# The handlers of the transformer

The callbacks of `transform/ProfileInstrumentation.cpp`,
`transform/SchemaApplication.cpp` and `transform/PatchApplication.cpp`, called
with the matches of one source file.  A replacement is a tree that is put at the
position of the match.
-/

namespace F1X

open Library

/-! ## Source files -/

/-- From `#if` to `#endif`, in the order of the translation unit. -/
structure ConditionalRange where
  beginLoc : Nat
  endLoc : Nat
  inMainFile : Bool

def intersectConditionalPP (beginLoc endLoc : Nat) (conditionals : List ConditionalRange) :
    Bool :=
  conditionals.any fun range => range.inMainFile &&
    (beginLoc < range.beginLoc && range.beginLoc < endLoc && endLoc < range.endLoc ||
      range.beginLoc < beginLoc && beginLoc < range.endLoc && range.endLoc < endLoc)

/-- What the handlers ask about a match; the last two fields are computed elsewhere. -/
structure NodeInfo where
  stmt : MatchedStatement
  beginLoc : Nat
  endLoc : Nat
  insideMacro : Bool
  context : String
  components : List ComponentJson

structure SourceFile where
  unit : SearchSpaceMatchers.TranslationUnit
  info : LabelledTree.Position → NodeInfo
  conditionals : List ConditionalRange
  nonblock : ∀ position, (info position).stmt.isChildOfNonblock =
    (SearchSpaceMatchers.parentNode unit.root position).any isChildOfNonblock
  fits : ∀ position, (info position).stmt.beginLine < uintRange ∧
    (info position).stmt.beginColumn < uintRange ∧ (info position).stmt.endLine < uintRange ∧
    (info position).stmt.endColumn < uintRange

/-! ## Instrumented programs -/

structure RuntimeCall where
  name : String
  arguments : String
  deriving DecidableEq

inductive InstrumentedKind where
  | original (kind : StmtKind)
  /-- `({ __f1x_trace(location); stmt; })` -/
  | traced (location : Location)
  /-- `(__f1xapp == appId ? call : expr)` -/
  | choice (appId : Nat) (call : RuntimeCall)
  /-- `if (!(__f1xapp == appId) || call) stmt`, in a block of its own or not. -/
  | guarded (addBrackets : Bool) (appId : Nat) (call : RuntimeCall)
  /-- The text of a patch in the place of an expression. -/
  | patched (text : String)
  | patchedGuard (addBrackets : Bool) (text : String)

abbrev Program := LabelledTree InstrumentedKind

def ClangStmt.program (stmt : ClangStmt) : Program := stmt.map .original

namespace SourceFile

open LabelledTree SearchSpaceMatchers

variable (file : SourceFile)

def stmt (position : Position) : MatchedStatement := (file.info position).stmt

def location (fileId : Nat) (position : Position) : Location where
  fileId := fileId
  beginLine := (file.stmt position).beginLine
  beginColumn := (file.stmt position).beginColumn
  endLine := (file.stmt position).endLine
  endColumn := (file.stmt position).endColumn

def node (position : Position) : ClangStmt :=
  (file.unit.root.subtree position).getD (.node .absent [])

/-- Whether the handler for guards is called. -/
def isGuard (position : Position) : Bool := !(ifGuardSchema (file.node position)).isEmpty

def matched (addGuards : Bool) : List Position :=
  everywhere (fun stmt => expressionSchema stmt ++ if addGuards then ifGuardSchema stmt else [])
    file.unit.root

end SourceFile

open LabelledTree SearchSpaceMatchers

structure HandlerState where
  alreadyMatched : Finset Location
  edits : List (LabelledTree.Edit InstrumentedKind)

/-! ## The profile -/

structure ProfileRun where
  fileId : Nat
  fromLine : Nat
  toLine : Nat
  addGuards : Bool

namespace ProfileRun

variable (cfg : ProfileRun) (file : SourceFile)

def replacement (position : Position) : Program :=
  .node (.traced (file.location cfg.fileId position)) [(file.node position).program]

/-- The two handlers; the one for expressions does not ask for a top-level statement. -/
def handle (state : HandlerState) (position : Position) : HandlerState :=
  let info := file.info position
  if info.insideMacro ||
      intersectConditionalPP info.beginLoc info.endLoc file.conditionals then state
  else if file.isGuard position &&
      !isTopLevelStatement (parentNode file.unit.root position) then state
  else if !inRange cfg.fromLine cfg.toLine info.stmt.beginLine then state
  else
    let current := file.location cfg.fileId position
    if current ∈ state.alreadyMatched then state
    else
      let state := { state with alreadyMatched := insert current state.alreadyMatched }
      if !info.stmt.inMainFile then state
      else { state with edits := state.edits ++ [(position, replacement cfg file position)] }

def run : HandlerState := (file.matched cfg.addGuards).foldl (handle cfg file) ⟨∅, []⟩

def accepts (position : Position) : Bool :=
  let info := file.info position
  !(info.insideMacro || intersectConditionalPP info.beginLoc info.endLoc file.conditionals) &&
    !(file.isGuard position && !isTopLevelStatement (parentNode file.unit.root position)) &&
    inRange cfg.fromLine cfg.toLine info.stmt.beginLine

def traced : List Position :=
  firstOfKey (file.location cfg.fileId) (accepts cfg file) (fun p => (file.stmt p).inMainFile) ∅
    (file.matched cfg.addGuards)

theorem handle_skip {state : HandlerState} {position : Position}
    (h : accepts cfg file position = true →
      file.location cfg.fileId position ∈ state.alreadyMatched) :
    handle cfg file state position = state := by
  unfold handle
  by_cases haccepts : accepts cfg file position = true
  · simp only [h haccepts, if_true, ite_self]
  · simp only [accepts, Bool.and_eq_true, Bool.not_eq_true'] at haccepts
    split_ifs <;> first | rfl | simp_all

theorem handle_new {state : HandlerState} {position : Position}
    (haccepts : accepts cfg file position = true)
    (hseen : file.location cfg.fileId position ∉ state.alreadyMatched) :
    (handle cfg file state position).alreadyMatched =
        insert (file.location cfg.fileId position) state.alreadyMatched ∧
      (handle cfg file state position).edits = state.edits ++
        if (file.stmt position).inMainFile then [(position, replacement cfg file position)]
        else [] := by
  simp only [accepts, Bool.and_eq_true, Bool.not_eq_true'] at haccepts
  obtain ⟨⟨hexpansion, htop⟩, hrange⟩ := haccepts
  simp only [handle, hexpansion, htop, hrange, hseen, Bool.not_true, Bool.false_eq_true, if_false]
  change _ ∧ _ = _ ++ if (file.info position).stmt.inMainFile = true then _ else _
  cases (file.info position).stmt.inMainFile <;> simp

theorem run_edits :
    (run cfg file).edits = (traced cfg file).map fun p => (p, replacement cfg file p) := by
  have h := @foldl_firstOfKey _ _ _ (file.location cfg.fileId) (accepts cfg file)
    (fun p => (file.stmt p).inMainFile) _ _ (handle cfg file) HandlerState.alreadyMatched
    HandlerState.edits (fun p => [(p, replacement cfg file p)])
    (fun _ _ => handle_skip cfg file) (fun _ _ => handle_new cfg file) ⟨∅, []⟩
    (file.matched cfg.addGuards)
  rw [run, h, List.nil_append, traced, List.map_eq_flatMap]

end ProfileRun

/-! ## The patch -/

namespace GuardedStatements.PatchRun

variable (cfg : PatchRun) (file : SourceFile)

def isLocation (position : Position) : Bool :=
  let stmt := file.stmt position
  stmt.beginLine = cfg.beginLine && stmt.beginColumn = cfg.beginColumn &&
    stmt.endLine = cfg.endLine && stmt.endColumn = cfg.endColumn

/-- A guard is not inserted where the scan for the semicolon gives up. -/
def replacement (position : Position) : Option Program :=
  let stmt := file.stmt position
  if file.isGuard position then
    (GuardExtraction.replacedLength stmt).map fun _ =>
      .node (.patchedGuard stmt.isChildOfNonblock cfg.patch) [(file.node position).program]
  else some (.node (.patched cfg.patch) [])

def emit (position : Position) : List (LabelledTree.Edit InstrumentedKind) :=
  ((replacement cfg file position).map (Prod.mk position)).toList

def handle (state : HandlerState) (position : Position) : HandlerState :=
  let current := file.location cfg.fileId position
  if current ∈ state.alreadyMatched then state
  else
    let state := { state with alreadyMatched := insert current state.alreadyMatched }
    if !(file.stmt position).inMainFile then state
    else if isLocation cfg file position then
      { state with edits := state.edits ++ emit cfg file position }
    else state

def apply : HandlerState := (file.matched true).foldl (handle cfg file) ⟨∅, []⟩

def replaced : List Position :=
  firstOfKey (file.location cfg.fileId) (fun _ => true)
    (fun p => (file.stmt p).inMainFile && isLocation cfg file p) ∅ (file.matched true)

theorem handle_skip {state : HandlerState} {position : Position}
    (h : true = true → file.location cfg.fileId position ∈ state.alreadyMatched) :
    handle cfg file state position = state := by
  rw [handle, if_pos (h rfl)]

theorem handle_new {state : HandlerState} {position : Position} (_ : true = true)
    (hseen : file.location cfg.fileId position ∉ state.alreadyMatched) :
    (handle cfg file state position).alreadyMatched =
        insert (file.location cfg.fileId position) state.alreadyMatched ∧
      (handle cfg file state position).edits = state.edits ++
        if (file.stmt position).inMainFile && isLocation cfg file position then
          emit cfg file position
        else [] := by
  simp only [handle, hseen, if_false]
  cases (file.stmt position).inMainFile <;> cases isLocation cfg file position <;> simp

theorem apply_edits :
    (apply cfg file).edits = (replaced cfg file).flatMap (emit cfg file) := by
  have h := @foldl_firstOfKey _ _ _ (file.location cfg.fileId) (fun _ => true)
    (fun p => (file.stmt p).inMainFile && isLocation cfg file p) _ _ (handle cfg file)
    HandlerState.alreadyMatched HandlerState.edits (emit cfg file)
    (fun _ _ => handle_skip cfg file) (fun _ _ => handle_new cfg file) ⟨∅, []⟩
    (file.matched true)
  rw [apply, h, List.nil_append, replaced]

end GuardedStatements.PatchRun

/-! ## The search space -/

def generator.locationNameSuffix (loc : Location) : String :=
  toString loc.fileId ++ "_" ++ toString loc.beginLine ++ "_" ++ toString loc.beginColumn ++
    "_" ++ toString loc.endLine ++ "_" ++ toString loc.endColumn

def functionName (loc : Location) : String := "__f1x_" ++ generator.locationNameSuffix loc

structure SchemaState extends HandlerState where
  baseAppId : Nat
  schemaApplications : List ApplicationJson

namespace TransformRun

variable (cfg : TransformRun) (file : SourceFile)

def runtimeCall (position : Position) : RuntimeCall where
  name := functionName (file.location cfg.fileId position)
  arguments := argumentListText (file.info position).components

/-- The object for a match; the visitor asserts that it has one result. -/
def application (position : Position) (appId : Nat) : Except Failure ApplicationJson :=
  let location := GuardExtraction.locToJSON (file.location cfg.fileId position)
  let components := (file.info position).components
  if file.isGuard position then
    .ok ⟨setInt appId, "if_guard", location, "condition",
      .leaf "constant" "integer" "int" "1", components⟩
  else
    match visitedValue (file.node position) with
    | some expression =>
        .ok ⟨setInt appId, "expression", location, (file.info position).context, expression,
          components⟩
    | none => .error .assertionFailed

def replacement (position : Position) (appId : Nat) : Option Program :=
  let stmt := file.stmt position
  if file.isGuard position then
    (GuardExtraction.replacedLength stmt).map fun _ =>
      .node (.guarded stmt.isChildOfNonblock appId (runtimeCall cfg file position))
        [(file.node position).program]
  else
    some (.node (.choice appId (runtimeCall cfg file position)) [(file.node position).program])

def emit (position : Position) (appId : Nat) : List (LabelledTree.Edit InstrumentedKind) :=
  ((replacement cfg file position appId).map (Prod.mk position)).toList

def isInteresting (position : Position) : Bool :=
  GuardExtraction.isInterestingLocation cfg (file.location cfg.fileId position)

/-- The two handlers. -/
def handle (state : SchemaState) (position : Position) : Except Failure SchemaState :=
  let current := file.location cfg.fileId position
  if current ∈ state.alreadyMatched then .ok state
  else
    let state := { state with alreadyMatched := insert current state.alreadyMatched }
    if !(file.stmt position).inMainFile then .ok state
    else if !isInteresting cfg file position then .ok state
    else do
      let appId ← f1xapp state.baseAppId cfg.fileId
      let app ← application cfg file position appId
      .ok { state with
        baseAppId := state.baseAppId + 1
        schemaApplications := state.schemaApplications ++ [app]
        edits := state.edits ++ emit cfg file position appId }

def instrumentFrom (state : SchemaState) : List Position → Except Failure SchemaState
  | [] => .ok state
  | position :: positions => do
      let state ← handle cfg file state position
      instrumentFrom state positions

def instrument : Except Failure SchemaState :=
  instrumentFrom cfg file ⟨⟨∅, []⟩, 0, []⟩ (file.matched true)

def extracted : List Position :=
  firstOfKey (file.location cfg.fileId) (fun _ => true)
    (fun p => (file.stmt p).inMainFile && isInteresting cfg file p) ∅ (file.matched true)

variable {cfg file}

theorem handle_skip {state : SchemaState} {position : Position}
    (h : file.location cfg.fileId position ∈ state.alreadyMatched) :
    handle cfg file state position = .ok state := by
  rw [handle, if_pos h]

theorem handle_new {state after : SchemaState} {position : Position}
    (hseen : file.location cfg.fileId position ∉ state.alreadyMatched)
    (h : handle cfg file state position = .ok after) :
    after.alreadyMatched = insert (file.location cfg.fileId position) state.alreadyMatched ∧
      if (file.stmt position).inMainFile && isInteresting cfg file position then
        ∃ app, state.baseAppId < 2 ^ 22 ∧
          application cfg file position (GuardExtraction.appIdOf cfg state.baseAppId) = .ok app ∧
          after.baseAppId = state.baseAppId + 1 ∧
          after.schemaApplications = state.schemaApplications ++ [app] ∧
          after.edits = state.edits ++
            emit cfg file position (GuardExtraction.appIdOf cfg state.baseAppId)
      else
        after.baseAppId = state.baseAppId ∧
          after.schemaApplications = state.schemaApplications ∧ after.edits = state.edits := by
  rw [handle, if_neg hseen] at h
  cases hfile : (file.stmt position).inMainFile with
  | false =>
      rw [hfile] at h
      obtain rfl := Except.ok.inj h
      simp
  | true =>
      cases hinteresting : isInteresting cfg file position with
      | false =>
          rw [hfile, hinteresting] at h
          obtain rfl := Except.ok.inj h
          simp
      | true =>
          rw [hfile, hinteresting] at h
          obtain ⟨appId, happId, h⟩ := bind_eq_ok_iff.mp h
          obtain ⟨app, happ, h⟩ := bind_eq_ok_iff.mp h
          obtain ⟨hroom, rfl⟩ := GuardExtraction.f1xapp_eq_appIdOf happId
          obtain rfl := Except.ok.inj h
          exact ⟨rfl, app, hroom, happ, rfl, rfl, rfl⟩

/-- The objects and the replacements of a run, for the positions with their numbers. -/
structure Extraction (cfg : TransformRun) (file : SourceFile) (state after : SchemaState)
    (entries : List (Position × Nat)) : Prop where
  edits : after.edits = state.edits ++
    entries.flatMap fun entry => emit cfg file entry.1 (GuardExtraction.appIdOf cfg entry.2)
  applications : ∃ apps, after.schemaApplications = state.schemaApplications ++ apps ∧
    List.Forall₂ (fun entry app => entry.2 < 2 ^ 22 ∧
      application cfg file entry.1 (GuardExtraction.appIdOf cfg entry.2) = .ok app) entries apps

private theorem instrumentFrom_extraction {state after : SchemaState} {positions : List Position}
    (h : instrumentFrom cfg file state positions = .ok after) :
    Extraction cfg file state after
      ((firstOfKey (file.location cfg.fileId) (fun _ => true)
        (fun p => (file.stmt p).inMainFile && isInteresting cfg file p) state.alreadyMatched
        positions).zipIdx state.baseAppId) := by
  induction positions generalizing state with
  | nil =>
      obtain rfl := Except.ok.inj h
      exact ⟨by simp [firstOfKey], [], by simp, .nil⟩
  | cons position positions ih =>
      obtain ⟨next, hhandle, hrest⟩ := bind_eq_ok_iff.mp h
      have hnext := ih hrest
      by_cases hseen : file.location cfg.fileId position ∈ state.alreadyMatched
      · rw [handle_skip hseen] at hhandle
        obtain rfl := Except.ok.inj hhandle
        rwa [firstOfKey_cons_skip positions fun _ => hseen]
      · obtain ⟨hkeys, hstep⟩ := handle_new hseen hhandle
        rw [hkeys] at hnext
        rw [firstOfKey_cons_new positions rfl hseen]
        split at hstep
        · obtain ⟨app, hroom, happ, hbase, happs, hedits⟩ := hstep
          obtain ⟨apps, hafter, hforall⟩ := hnext.applications
          rw [hbase] at hnext hforall
          rw [if_pos ‹_›, List.singleton_append, List.zipIdx_cons]
          refine ⟨?_, app :: apps, ?_, .cons ⟨hroom, happ⟩ hforall⟩
          · rw [hnext.edits, hedits, List.flatMap_cons, List.append_assoc]
          · rw [hafter, happs, List.append_assoc, List.singleton_append]
        · obtain ⟨hbase, happs, hedits⟩ := hstep
          rw [hbase] at hnext
          rw [if_neg ‹_›, List.nil_append]
          refine ⟨hedits ▸ hnext.edits, ?_⟩
          rw [← happs]
          exact hnext.applications

theorem instrument_extraction {after : SchemaState} (h : instrument cfg file = .ok after) :
    Extraction cfg file ⟨⟨∅, []⟩, 0, []⟩ after (extracted cfg file).zipIdx :=
  instrumentFrom_extraction h

end TransformRun

/-! ## A source file -/

def guardedCallLine (position : Position) : Nat :=
  if position = [0, 1] then 3 else if position = [0, 0, 1] then 2 else 1

/-- The matches are on different lines; behind the second call there is its semicolon. -/
def guardedCallFile : SourceFile where
  unit := guardedCall
  info position :=
    { stmt :=
        { beginLine := guardedCallLine position
          beginColumn := 1
          endLine := guardedCallLine position
          endColumn := 4
          inMainFile := true
          isChildOfNonblock := (parentNode guardedCall.root position).any isChildOfNonblock
          parents := []
          text := "g(y)"
          rangeSize := 4
          characterData := "g(y);".toList }
      beginLoc := 0
      endLoc := 0
      insideMacro := false
      context := "condition"
      components := [⟨none, .builtin .int, "x"⟩] }
  conditionals := []
  nonblock _ := rfl
  fits position := by
    unfold guardedCallLine
    split_ifs <;> simp [uintRange]

def guardedCallProfile : ProfileRun := ⟨0, 0, 0, true⟩

private theorem uintRange_pos : 0 < uintRange := by decide

def guardedCallRun : TransformRun where
  fileId := 0
  interestingLocations := {locToString (guardedCallFile.location 0 [0, 1])}
  useGlobalVariables := false
  print _ := ""
  fileIdFits := uintRange_pos

end F1X
