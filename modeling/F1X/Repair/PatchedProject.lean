import F1X.Repair.RuntimeSearch
import F1X.Transform.InstrumentedMeaning

/-!
# The search over an instrumented project

The transformer, the generated functions and the search together.  While the
search runs, every file is instrumented and the environment chooses a candidate;
what is reported is the text of a candidate in one of the sources.  The tests
see the same of both.
-/

namespace F1X

open Library LabelledTree generator synthesis GuardedStatements

/-! ## Projects -/

/-- A file with the runs of the transformer over it. -/
structure InstrumentedFile where
  source : SourceFile
  profile : ProfileRun
  cfg : TransformRun
  after : SchemaState
  prepared : PreparedStandard source profile cfg
  ran : cfg.instrument source = .ok after
  small : cfg.fileId < 2 ^ 10

namespace InstrumentedFile

variable (file : InstrumentedFile)

def program : Program := instrumented file.source file.after

/-- The file of the location gets the patch, every other file stays as it is. -/
def patched (sa : SchemaApplication) (patch : String) : Program :=
  if file.cfg.fileId = sa.location.fileId then
    patchedProgram file.source (patchRun sa file.cfg.fileId patch)
  else file.source.unit.root.program

end InstrumentedFile

structure InstrumentedProject where
  files : List InstrumentedFile
  distinct : (files.map (·.cfg.fileId)).Nodup

/-! ## Patched files -/

section Patched

variable {D : Type*} {sem other : Semantics D} {file : SourceFile} {run : PatchRun}

private theorem apart_apply (file : SourceFile) (run : PatchRun) :
    Apart (run.apply file).edits := by
  rw [PatchRun.apply_edits]
  cases hreplaced : run.replaced file with
  | nil => exact .nil
  | cons position positions =>
      have hmem : position ∈ run.replaced file := by simp [hreplaced]
      rw [← hreplaced, replaced_of_mem hmem, List.flatMap_singleton]
      exact apart_patch position

private theorem denote_replacement_congr (hnode : sem.node = other.node)
    (htext : sem.text = other.text) {position : Position} {program : Program}
    (h : run.replacement file position = some program) (f1xapp f1xapp' : Nat) :
    sem.denote f1xapp program = other.denote f1xapp' program := by
  have hmeaning : sem.meaning (file.node position) = other.meaning (file.node position) := by
    rw [Semantics.meaning, Semantics.meaning, hnode]
  unfold PatchRun.replacement at h
  cases hguard : file.isGuard position with
  | false =>
      rw [hguard] at h
      obtain rfl := Option.some.inj h
      exact congrFun htext run.patch
  | true =>
      rw [hguard] at h
      obtain ⟨length, -, rfl⟩ := Option.map_eq_some_iff.mp h
      simp only [Semantics.denote_node, Semantics.denote_program, Semantics.interpret,
        Semantics.bracketed_eq, Semantics.ifThen, hmeaning, hnode, htext]

private theorem denote_patchedProgram_congr (hnode : sem.node = other.node)
    (htext : sem.text = other.text) (f1xapp f1xapp' : Nat) :
    sem.denote f1xapp (patchedProgram file run) =
      other.denote f1xapp' (patchedProgram file run) := by
  have hapart := apart_apply file run
  rw [patchedProgram, sem.denote_replaceAll f1xapp hapart, other.denote_replaceAll f1xapp' hapart,
    hnode]
  congr 1
  funext position
  cases hput : putAt (run.apply file).edits position with
  | none => rfl
  | some program =>
      have hmem := (putAt_eq_some_iff hapart).mp hput
      rw [PatchRun.apply_edits] at hmem
      obtain ⟨replaced, -, hemit⟩ := List.mem_flatMap.mp hmem
      rw [PatchRun.emit, Option.mem_toList, Option.map_eq_some_iff] at hemit
      obtain ⟨put, hreplacement, heq⟩ := hemit
      obtain rfl := congrArg Prod.snd heq
      exact congrArg some (denote_replacement_congr hnode htext hreplacement f1xapp f1xapp')

end Patched

/-! ## Instrumented files -/

section Instrumented

variable {D : Type*} (sem : Semantics D) {project : InstrumentedProject}
  {home file : InstrumentedFile} {app : ApplicationJson} {sa : SchemaApplication}
  (happ : app ∈ home.after.schemaApplications) (hload : loadSchemaApplication app = .ok sa)

theorem InstrumentedFile.entry_room {entry : Position × Nat}
    (hentry : entry ∈ entries file.cfg file.source) : entry.2 < 2 ^ 22 := by
  obtain ⟨apps, -, hforall⟩ := (TransformRun.instrument_extraction file.ran).applications
  obtain ⟨app, -, hroom, -⟩ := (exists_of_forall₂ hforall).2 entry hentry
  exact hroom

include happ hload

private theorem denote_elsewhere (hne : file.cfg.fileId ≠ home.cfg.fileId) :
    sem.denote sa.id file.program = sem.meaning file.source.unit.root := by
  obtain ⟨entry, hentry, happId, -⟩ := exists_entry home.ran home.small happ hload
  have hroom := home.entry_room hentry
  refine instrumented_eq_source sem file.prepared file.ran fun other hother heq => ?_
  have hother := file.entry_room hother
  unfold GuardExtraction.appIdOf at heq happId
  omega

/-- Every file means under the id of an application what it means with the patch. -/
theorem denote_program_eq_patched (hhome : home ∈ project.files) (hfile : file ∈ project.files)
    {patch : String} (f1xapp : Nat)
    (hcall : sem.call ⟨functionName sa.location, argumentListText app.components⟩ =
      sem.text patch) :
    sem.denote sa.id file.program = sem.denote f1xapp (file.patched sa patch) := by
  obtain ⟨entry, hentry, happId, hlocation, hcomponents⟩ :=
    exists_entry home.ran home.small happ hload
  have hfileId : home.cfg.fileId = sa.location.fileId := congrArg Location.fileId hlocation
  rw [InstrumentedFile.patched, ← hfileId]
  by_cases hsame : file.cfg.fileId = home.cfg.fileId
  · obtain rfl := List.inj_on_of_nodup_map project.distinct hfile hhome hsame
    rw [if_pos rfl]
    rw [← hlocation, hcomponents] at hcall
    exact denote_entry sem file.prepared file.ran hentry happId
      (isLocation_patchRun hlocation file.cfg.fileId patch) f1xapp hcall
  · rw [if_neg hsame, sem.denote_program]
    exact denote_elsewhere sem happ hload hsame

end Instrumented

/-! ## Tests -/

/-- A meaning of programs for each thing that the generated functions may answer. -/
structure Execution (V : Type) (D : Type*) where
  node : StmtKind → List D → D
  call : (Valuation V → Outcome V) → RuntimeCall → D
  text : String → D
  traced : Location → D → D
  block : ∀ d, node .compoundStmt [d] = d
  /-- What a test sees of the meanings of the files. -/
  test : List D → String → TestStatus

namespace Execution

variable {V : Type} {D : Type*} (execution : Execution V D)

def answering (respond : Valuation V → Outcome V) : Semantics D where
  node := execution.node
  call := execution.call respond
  text := execution.text
  traced := execution.traced
  block := execution.block

def instrumentedStatus (project : InstrumentedProject) (respond : Valuation V → Outcome V)
    (f1xapp : AppID) (test : String) : TestStatus :=
  execution.test
    (project.files.map fun file => (execution.answering respond).denote f1xapp file.program) test

def patchedStatus (project : InstrumentedProject) (sa : SchemaApplication) (patch : String)
    (test : String) : TestStatus :=
  execution.test
    (project.files.map fun file =>
      (execution.answering fun _ => .panic).denote 0 (file.patched sa patch)) test

/-- Running an instrumented test is running the test on the instrumented project. -/
def RunsTests (project : InstrumentedProject) (sas : List SchemaApplication)
    (tested : AppID → String → InstrumentedTest V) : Prop :=
  ∀ sa ∈ sas, ∀ respond test trace status,
    Library.Answered (tested sa.id test).next respond (tested sa.id test).start trace status →
      execution.instrumentedStatus project respond sa.id test = status

/-- A candidate for one of the files; type correction may have changed its application. -/
structure Compiles (project : InstrumentedProject) (machine : CMachine V) (patch : Patch)
    (text : String) : Prop where
  printed : expressionToString patch.modified = .ok text
  loaded : ∃ file ∈ project.files, ∃ app ∈ file.after.schemaApplications, ∃ loaded original,
    loadSchemaApplication app = .ok loaded ∧ patch.app = { loaded with original := original } ∧
      execution.call (patchedOutcome machine patch.modified)
        ⟨functionName patch.app.location, argumentListText app.components⟩ = execution.text text

/-- The sources with the text of a candidate pass all related tests. -/
def Repairs (project : InstrumentedProject) (tests : List String) (related : Location → List Nat)
    (patch : Patch) : Prop :=
  ∃ text, expressionToString patch.modified = .ok text ∧
    ∀ i ∈ related patch.app.location, ∀ test, tests[i]? = some test →
      execution.patchedStatus project patch.app text test = .pass

def sourceStatus (project : InstrumentedProject) (searchSpace : List Patch) (id : PatchID)
    (test : String) : TestStatus :=
  match searchSpace.find? (·.id = id) with
  | none => .fail
  | some patch =>
      match expressionToString patch.modified with
      | .ok text => execution.patchedStatus project patch.app text test
      | .error _ => .fail

variable {execution} {project : InstrumentedProject} {machine : CMachine V}

private theorem denote_patched (file : InstrumentedFile) (sa : SchemaApplication) (patch : String)
    (respond respond' : Valuation V → Outcome V) :
    (execution.answering respond).denote 0 (file.patched sa patch) =
      (execution.answering respond').denote 0 (file.patched sa patch) := by
  have hnode : (execution.answering respond).node = (execution.answering respond').node := rfl
  have htext : (execution.answering respond).text = (execution.answering respond').text := rfl
  rw [InstrumentedFile.patched]
  split
  · exact denote_patchedProgram_congr hnode htext 0 0
  · rw [Semantics.denote_program, Semantics.denote_program]
    rfl

private theorem Compiles.status_eq {patch : Patch} {text : String}
    (h : execution.Compiles project machine patch text) (test : String) :
    execution.instrumentedStatus project (patchedOutcome machine patch.modified) patch.app.id
        test = execution.patchedStatus project patch.app text test := by
  obtain ⟨home, hhome, app, happ, loaded, original, hload, heq, hcall⟩ := h.loaded
  rw [heq] at hcall ⊢
  unfold instrumentedStatus patchedStatus
  congr 1
  refine List.map_congr_left fun file hfile => ?_
  rw [denote_program_eq_patched _ happ hload hhome hfile 0 hcall]
  exact denote_patched file loaded text _ _

section Sources

variable {searchSpace : List Patch} (hids : (searchSpace.map Patch.id).Nodup) {patch : Patch}
  (hpatch : patch ∈ searchSpace)

include hids hpatch

private theorem find?_id : searchSpace.find? (·.id = patch.id) = some patch := by
  cases hfind : searchSpace.find? (·.id = patch.id) with
  | none => simpa using List.find?_eq_none.mp hfind patch hpatch
  | some found =>
      have hid : found.id = patch.id := by simpa using List.find?_some hfind
      rw [List.inj_on_of_nodup_map hids (List.mem_of_find?_eq_some hfind) hpatch hid]

theorem sourceStatus_eq {text : String} (h : expressionToString patch.modified = .ok text)
    (test : String) : execution.sourceStatus project searchSpace patch.id test =
      execution.patchedStatus project patch.app text test := by
  simp only [sourceStatus, find?_id hids hpatch, h]

private theorem plausible_iff_repairs {text : String}
    (h : expressionToString patch.modified = .ok text)
    (tests : List String) (related : Location → List Nat) :
    Plausible tests related (execution.sourceStatus project searchSpace) patch ↔
      execution.Repairs project tests related patch := by
  unfold Plausible Repairs
  simp only [sourceStatus_eq hids hpatch h, h, Except.ok.injEq, exists_eq_left']

end Sources

private theorem patched_sourceStatus {sas : List SchemaApplication} {searchSpace : List Patch}
    {tested : AppID → String → InstrumentedTest V}
    (hids : (searchSpace.map Patch.id).Nodup) (happs : ∀ patch ∈ searchSpace, patch.app ∈ sas)
    (hruns : execution.RunsTests project sas tested)
    (hends : ∀ patch ∈ searchSpace, ∀ test, ∃ trace status,
      Library.Answered (tested patch.app.id test).next (patchedOutcome machine patch.modified)
        (tested patch.app.id test).start trace status)
    (hcompiles : ∀ patch ∈ searchSpace, ∃ text, execution.Compiles project machine patch text) :
    Patched machine tested searchSpace (execution.sourceStatus project searchSpace) := by
  intro patch hpatch test
  obtain ⟨text, hcompiles⟩ := hcompiles patch hpatch
  obtain ⟨trace, status, hanswered⟩ := hends patch hpatch test
  have hstatus := hruns patch.app (happs patch hpatch) _ test trace status hanswered
  rw [sourceStatus_eq hids hpatch hcompiles.printed, ← hcompiles.status_eq, hstatus]
  exact ⟨trace, hanswered⟩

end Execution

/-! ## The search -/

section Search

variable {literal : String → String → Int}
  (hliteral : ∀ n : Nat, literal "int" (toString n) = n)
  {cfg : Config} {fuel : Nat} {sas : List SchemaApplication} {codes : List DispatchCode}
  {searchSpace : List Patch} (deployed : Deployed cfg fuel sas codes searchSpace)
  {tested : AppID → String → InstrumentedTest Int} {D : Type*} {execution : Execution Int D}
  {project : InstrumentedProject}

include hliteral deployed

end Search

/-! ## One guarded call -/

def guardedCallApplication : SchemaApplication where
  id := 0
  schema := .ifGuard
  location := ⟨0, 3, 1, 3, 4⟩
  context := .condition
  original := ⟨.constant, .integer, .none, "int", "1", []⟩
  components := [⟨.variable, .integer, .none, "int", "x", []⟩]
  completePointeeTypes := []

private theorem guardedCallApplication_abstractFree : guardedCallApplication.AbstractFree :=
  ⟨rfl, by simp [guardedCallApplication, Expression.AbstractFree, isAbstractExpression,
    anyAbstractExpression, isAbstractNode]⟩

private theorem guardedCallApplication_scoped : guardedCallApplication.Scoped where
  original := .constant _ _ _
  components := by
    simp only [guardedCallApplication, List.forall_mem_cons, List.not_mem_nil, false_imp_iff,
      implies_true, and_true]
    exact .named _ _ (by simp)
  builtin := by simp [guardedCallApplication, builtinTypes]
  pointees := by simp [guardedCallApplication]

def operandAtOne (text : List Char) : Int :=
  if text = "x".toList then 1 else decimal "int" (String.ofList text)

def comparisonAtOne (operator : String) (operand : Int) : Bool :=
  match operator with
  | ">=" => operand ≤ 1
  | ">" => operand < 1
  | "<=" => 1 ≤ operand
  | "<" => 1 < operand
  | "==" => operand = 1
  | "!=" => operand ≠ 1
  | _ => false

/-- Whether the text of a candidate is true for `x = 1`. -/
def holdsAtOne (text : String) : Bool :=
  match text.toList.splitOn ' ' with
  | [_, operator, operand] =>
      comparisonAtOne (String.ofList operator) (operandAtOne operand.dropLast)
  | _ => operandAtOne text.toList ≠ 0

def failsAtOne (outcome : Outcome Int) : Bool := outcome = .panic ∨ outcome = .value 0

/-- A program fails when a guard in it does not hold. -/
def atOne : Execution Int Bool where
  node _ parts := parts.any id
  call respond _ := failsAtOne (respond validPointer)
  text text := !holdsAtOne text
  traced _ d := d
  block d := by simp
  test files _ := if files.any id then .fail else .pass

def guardDecides (after : SchemaState) : Bool :=
  [.panic, .value 1].all fun outcome : Outcome Int =>
    (atOne.answering fun _ => outcome).denote 0 (instrumented guardedCallFile after) =
      failsAtOne outcome

def textAgrees (patch : Patch) : Bool :=
  match expressionToString patch.modified with
  | .ok text => failsAtOne (patchedOutcome (integers decimal) patch.modified validPointer) =
      !holdsAtOne text
  | .error _ => false

private theorem guardedCall_deployed :
    ∃ code searchSpace, Deployed .default 18 [guardedCallApplication] [code] searchSpace ∧
      1 ≤ searchSpace.length ∧ ∀ patch ∈ searchSpace,
        (conditionsCalm guardedCallApplication patch && textAgrees patch) = true :=
  deployed_of_check guardedCallApplication_abstractFree guardedCallApplication_scoped
    (by decide +kernel)

private theorem guardedCall_instrumented :
    ∃ after, guardedCallRun.instrument guardedCallFile = .ok after ∧
      (∃ app ∈ after.schemaApplications, loadSchemaApplication app = .ok guardedCallApplication) ∧
      guardDecides after = true := by
  have hcheck : ((guardedCallRun.instrument guardedCallFile).toOption.any fun after =>
      (after.schemaApplications.any fun app =>
        (loadSchemaApplication app).toOption = some guardedCallApplication) &&
        guardDecides after) = true := by
    decide +kernel
  obtain ⟨after, hrun, hfound⟩ := eq_ok_of_any hcheck
  obtain ⟨hany, hdecides⟩ := Bool.and_eq_true_iff.mp hfound
  obtain ⟨app, happ, hload⟩ := List.any_eq_true.mp hany
  exact ⟨after, hrun, ⟨app, happ, toOption_eq_some_iff.mp (of_decide_eq_true hload)⟩, hdecides⟩

section GuardedCall

variable {after : SchemaState} (hrun : guardedCallRun.instrument guardedCallFile = .ok after)

def guardedCallProject : InstrumentedProject where
  files := [⟨guardedCallFile, guardedCallProfile, guardedCallRun, after,
    preparedStandard_guardedCall, hrun, by decide⟩]
  distinct := by simp

private theorem denote_guardedCall (hdecides : guardDecides after = true)
    (respond : Valuation Int → Outcome Int) :
    (atOne.answering respond).denote 0 (instrumented guardedCallFile after) =
      failsAtOne (respond validPointer) := by
  have hboth := List.all_eq_true.mp hdecides
  obtain ⟨outcome, hsame, hdenote⟩ : ∃ outcome : Outcome Int,
      failsAtOne outcome = failsAtOne (respond validPointer) ∧
        (atOne.answering fun _ => outcome).denote 0 (instrumented guardedCallFile after) =
          failsAtOne outcome := by
    cases failsAtOne (respond validPointer) with
    | true => exact ⟨.panic, by decide, of_decide_eq_true (hboth _ (by simp))⟩
    | false => exact ⟨.value 1, by decide, of_decide_eq_true (hboth _ (by simp))⟩
  have hsem : atOne.answering respond = atOne.answering fun _ => outcome := by
    simp only [Execution.answering, atOne, hsame]
  rw [hsem, hdenote, hsame]

theorem answered_branchTest (valuation : Valuation Int) (respond : Valuation Int → Outcome Int) :
    ∃ trace, Library.Answered (branchTest valuation).next respond none trace
      (if failsAtOne (respond valuation) then .fail else .pass) := by
  refine ⟨_, .asks (s := none) rfl (.finished ?_)⟩
  simp [branchTest, failsAtOne]

private theorem atOne_runsTests (hdecides : guardDecides after = true) :
    atOne.RunsTests (guardedCallProject hrun) [guardedCallApplication]
      fun _ _ => branchTest validPointer := by
  intro sa hsa respond test trace status hanswered
  obtain rfl := List.mem_singleton.mp hsa
  obtain ⟨trace', hanswered'⟩ := answered_branchTest validPointer respond
  have hdenote := denote_guardedCall hdecides respond
  rw [(hanswered.unique hanswered').2, ← hdenote]
  simp [Execution.instrumentedStatus, guardedCallProject, InstrumentedFile.program, atOne,
    guardedCallApplication]

private theorem atOne_compiles {app : ApplicationJson} (happ : app ∈ after.schemaApplications)
    (hload : loadSchemaApplication app = .ok guardedCallApplication) {patch : Patch}
    (hpatch : patch.app = guardedCallApplication) (hagrees : textAgrees patch = true) :
    ∃ text, atOne.Compiles (guardedCallProject hrun) (integers decimal) patch text := by
  unfold textAgrees at hagrees
  cases hprinted : expressionToString patch.modified with
  | error failure => simp [hprinted] at hagrees
  | ok text =>
      rw [hprinted] at hagrees
      refine ⟨text, hprinted, _, List.mem_singleton_self _, app, happ, _, _, hload, hpatch, ?_⟩
      exact of_decide_eq_true hagrees

end GuardedCall

end F1X
