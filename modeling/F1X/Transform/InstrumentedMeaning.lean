import F1X.Transform.Phases

/-!
# The meaning of instrumented programs

For any compositional meaning of C programs, the instrumented program run with
the id of an application is the program in which the node of the application is
replaced by the call of its function, and nothing else.  So it means what the
patched program means when the function returns what the patch computes.
-/

namespace F1X

open Library LabelledTree SearchSpaceMatchers GuardedStatements

/-! ## Meanings -/

/-- A meaning of programs from the meanings of their parts. -/
structure Semantics (D : Type*) where
  node : StmtKind → List D → D
  call : RuntimeCall → D
  /-- The meaning of the text of a patch. -/
  text : String → D
  traced : Location → D → D
  /-- A block around one statement is that statement. -/
  block : ∀ d, node .compoundStmt [d] = d

namespace Semantics

variable {D : Type*} (sem : Semantics D)

def ifThen (condition body : D) : D := sem.node .ifStmt [condition, body, sem.node .absent []]

def bracketed (addBrackets : Bool) (d : D) : D :=
  if addBrackets then sem.node .compoundStmt [d] else d

/-- `__f1xapp` does not change during a run. -/
def interpret (f1xapp : Nat) : InstrumentedKind → List D → D
  | .original kind, parts => sem.node kind parts
  | .traced location, [d] => sem.traced location d
  | .choice appId call, [d] => if f1xapp = appId then sem.call call else d
  | .guarded addBrackets appId call, [d] =>
      sem.bracketed addBrackets (if f1xapp = appId then sem.ifThen (sem.call call) d else d)
  | .patched text, _ => sem.text text
  | .patchedGuard addBrackets text, [d] =>
      sem.bracketed addBrackets (sem.ifThen (sem.text text) d)
  | _, _ => sem.node .absent []

def denote (f1xapp : Nat) (program : Program) : D := fold (sem.interpret f1xapp) program

def meaning (stmt : ClangStmt) : D := fold sem.node stmt

@[simp] theorem bracketed_eq (addBrackets : Bool) (d : D) : sem.bracketed addBrackets d = d := by
  cases addBrackets with
  | false => rfl
  | true => exact sem.block d

@[simp] theorem denote_program (f1xapp : Nat) (stmt : ClangStmt) :
    sem.denote f1xapp stmt.program = sem.meaning stmt :=
  fold_map (sem.interpret f1xapp) .original stmt

theorem denote_node (f1xapp : Nat) (kind : InstrumentedKind) (program : Program) :
    sem.denote f1xapp (.node kind [program]) =
      sem.interpret f1xapp kind [sem.denote f1xapp program] :=
  fold_node (sem.interpret f1xapp) kind [program]

theorem denote_replaceAll (f1xapp : Nat) {edits : List (LabelledTree.Edit InstrumentedKind)}
    (h : Apart edits) (root : ClangStmt) :
    sem.denote f1xapp (replaceAll edits root.program) =
      foldWith sem.node (fun p => (putAt edits p).map (sem.denote f1xapp)) root := by
  rw [denote, fold_replaceAll _ h, ClangStmt.program, foldWith_map]
  rfl

end Semantics

/-! ## Replacements -/

section Replacements

variable {file : SourceFile} {cfg : TransformRun} {D : Type*} (sem : Semantics D)

theorem mem_emit {position : Position} {appId : Nat}
    {edit : LabelledTree.Edit InstrumentedKind} (h : edit ∈ cfg.emit file position appId) :
    edit.1 = position ∧ cfg.replacement file position appId = some edit.2 := by
  rw [TransformRun.emit, Option.mem_toList, Option.map_eq_some_iff] at h
  obtain ⟨program, hprogram, rfl⟩ := h
  exact ⟨rfl, hprogram⟩

private theorem denote_other {position : Position} {appId f1xapp : Nat} {program : Program}
    (h : cfg.replacement file position appId = some program) (hne : f1xapp ≠ appId) :
    sem.denote f1xapp program = sem.meaning (file.node position) := by
  unfold TransformRun.replacement at h
  cases hguard : file.isGuard position with
  | false =>
      rw [hguard] at h
      obtain rfl := Option.some.inj h
      rw [sem.denote_node, sem.denote_program, Semantics.interpret, if_neg hne]
  | true =>
      rw [hguard] at h
      obtain ⟨length, -, rfl⟩ := Option.map_eq_some_iff.mp h
      rw [sem.denote_node, sem.denote_program, Semantics.interpret, if_neg hne, sem.bracketed_eq]

/-- A patch means what its application means when the call means what the text means. -/
theorem denote_own {run : PatchRun} {position : Position} {appId f1xapp : Nat}
    (hcall : sem.call (cfg.runtimeCall file position) = sem.text run.patch) :
    (cfg.replacement file position appId).map (sem.denote appId) =
      (run.replacement file position).map (sem.denote f1xapp) := by
  unfold TransformRun.replacement PatchRun.replacement
  cases hguard : file.isGuard position with
  | false =>
      simp only [Bool.false_eq_true, if_false, Option.map_some, sem.denote_node,
        Semantics.interpret, if_true, hcall]
      rfl
  | true =>
      simp only [if_true, Option.map_map]
      congr 1
      funext length
      simp only [Function.comp, sem.denote_node, Semantics.interpret, if_true, hcall,
        sem.denote_program]

theorem apart_emit_one (position : Position) (appId : Nat) :
    Apart (cfg.emit file position appId) := by
  rw [TransformRun.emit]
  cases cfg.replacement file position appId with
  | none => exact .nil
  | some program => exact List.pairwise_singleton _ _

theorem apart_emit {entries : List (Position × Nat)}
    (h : entries.Pairwise fun first second => Separate first.1 second.1) :
    Apart (entries.flatMap fun entry =>
      cfg.emit file entry.1 (GuardExtraction.appIdOf cfg entry.2)) := by
  rw [Apart, List.pairwise_flatMap]
  constructor
  · exact fun entry _ => apart_emit_one entry.1 _
  · refine h.imp fun hseparate edit hedit edit' hedit' => ?_
    rw [(mem_emit hedit).1, (mem_emit hedit').1]
    exact hseparate

theorem apart_patch {run : PatchRun} (position : Position) : Apart (run.emit file position) := by
  rw [PatchRun.emit]
  cases run.replacement file position with
  | none => exact .nil
  | some program => exact List.pairwise_singleton _ _

end Replacements

/-! ## Instrumented programs -/

section Instrumented

variable {file : SourceFile} {profile : ProfileRun} {cfg : TransformRun} {after : SchemaState}

def entries (cfg : TransformRun) (file : SourceFile) : List (Position × Nat) :=
  (cfg.extracted file).zipIdx

/-- The file has no statement expressions. -/
structure PreparedStandard (file : SourceFile) (profile : ProfileRun) (cfg : TransformRun) : Prop
    extends Prepared file profile cfg where
  standard : file.unit.isStandard = true

theorem entries_separate (h : PreparedStandard file profile cfg) :
    (entries cfg file).Pairwise fun first second => Separate first.1 second.1 := by
  rw [← List.pairwise_map (f := Prod.fst), entries, List.zipIdx_map_fst]
  refine (firstOfKey_pairwise ∅ (file.matched true)).imp_of_mem fun hp hq hne => ?_
  have hselected : ∀ p ∈ cfg.extracted file, p ∈ selected file.unit.root :=
    fun p hp => selected_of_traced (traced_of_extracted h.toPrepared hp)
  have hne := ne_of_apply_ne _ hne
  exact ⟨not_isPrefix_selected file.unit h.standard (hselected _ hp) (hselected _ hq) hne,
    not_isPrefix_selected file.unit h.standard (hselected _ hq) (hselected _ hp) hne.symm⟩

def instrumented (file : SourceFile) (after : SchemaState) : Program :=
  replaceAll after.edits file.unit.root.program

def patchedProgram (file : SourceFile) (run : PatchRun) : Program :=
  replaceAll (run.apply file).edits file.unit.root.program

private theorem instrumented_edits (hrun : cfg.instrument file = .ok after) :
    after.edits = (entries cfg file).flatMap fun entry =>
      cfg.emit file entry.1 (GuardExtraction.appIdOf cfg entry.2) := by
  rw [(TransformRun.instrument_extraction hrun).edits]
  rfl

def own (cfg : TransformRun) (file : SourceFile) (f1xapp : Nat) : List (Position × Nat) :=
  (entries cfg file).filter fun entry => GuardExtraction.appIdOf cfg entry.2 = f1xapp

def ownEdits (cfg : TransformRun) (file : SourceFile) (f1xapp : Nat) :
    List (LabelledTree.Edit InstrumentedKind) :=
  (own cfg file f1xapp).flatMap fun entry =>
    cfg.emit file entry.1 (GuardExtraction.appIdOf cfg entry.2)

theorem ownEdits_apart (h : PreparedStandard file profile cfg) (f1xapp : Nat) :
    Apart (ownEdits cfg file f1xapp) :=
  apart_emit ((entries_separate h).sublist List.filter_sublist)

theorem mem_ownEdits {f1xapp : Nat} {edit : LabelledTree.Edit InstrumentedKind} :
    edit ∈ ownEdits cfg file f1xapp ↔ ∃ entry ∈ entries cfg file,
      GuardExtraction.appIdOf cfg entry.2 = f1xapp ∧ edit ∈ cfg.emit file entry.1 f1xapp := by
  simp only [ownEdits, own, List.mem_flatMap, List.mem_filter, decide_eq_true_eq]
  constructor
  · rintro ⟨entry, ⟨hentry, rfl⟩, hedit⟩
    exact ⟨entry, hentry, rfl, hedit⟩
  · rintro ⟨entry, hentry, rfl, hedit⟩
    exact ⟨entry, ⟨hentry, rfl⟩, hedit⟩

private theorem exists_node {entry : Position × Nat} (hentry : entry ∈ entries cfg file) :
    file.unit.root.subtree entry.1 = some (file.node entry.1) := by
  have hextracted : entry.1 ∈ cfg.extracted file := List.fst_mem_of_mem_zipIdx hentry
  obtain ⟨-, -, -, front, back, hsplit, -⟩ := mem_firstOfKey_iff.mp hextracted
  have hmatched : entry.1 ∈ file.matched true := by simp [hsplit]
  exact exists_subtree hmatched

private theorem putAt_below_other (h : PreparedStandard file profile cfg) {entry : Position × Nat}
    (hentry : entry ∈ entries cfg file) {f1xapp : Nat}
    (hother : GuardExtraction.appIdOf cfg entry.2 ≠ f1xapp) (back : Position) :
    putAt (ownEdits cfg file f1xapp) (entry.1 ++ back) = none := by
  refine putAt_eq_none fun edit hedit heq => ?_
  obtain ⟨owner, howner, happId, hemit⟩ := mem_ownEdits.mp hedit
  have hne : entry ≠ owner := by
    rintro rfl
    exact hother happId
  have hsymm : Std.Symm fun first second : Position × Nat => Separate first.1 second.1 :=
    ⟨fun _ _ h => ⟨h.2, h.1⟩⟩
  have hseparate := (entries_separate h).forall hentry howner hne
  rw [(mem_emit hemit).1] at heq
  exact hseparate.1 (heq ▸ List.prefix_append _ _)

/-- Only the node of the application that runs has another meaning. -/
theorem denote_instrumented {D : Type*} (sem : Semantics D) (h : PreparedStandard file profile cfg)
    (hrun : cfg.instrument file = .ok after) (f1xapp : Nat) :
    sem.denote f1xapp (instrumented file after) =
      foldWith sem.node
        (fun p => (putAt (ownEdits cfg file f1xapp) p).map (sem.denote f1xapp))
        file.unit.root := by
  have hedits := instrumented_edits hrun
  have hapart : Apart after.edits := hedits ▸ apart_emit (entries_separate h)
  rw [instrumented, sem.denote_replaceAll f1xapp hapart]
  refine foldWith_congr sem.node fun position found hfound => ?_
  cases hput : putAt after.edits position with
  | none =>
      refine .inl ?_
      have hown : putAt (ownEdits cfg file f1xapp) position = none := by
        refine putAt_eq_none fun edit hedit heq => ?_
        obtain ⟨entry, hentry, rfl, hemit⟩ := mem_ownEdits.mp hedit
        have hmem : edit ∈ after.edits := by
          rw [hedits]
          exact List.mem_flatMap.mpr ⟨entry, hentry, hemit⟩
        have hsome := (putAt_eq_some_iff hapart).mpr hmem
        rw [heq, hput] at hsome
        cases hsome
      rw [hown]
  | some program =>
      have hmem := (putAt_eq_some_iff hapart).mp hput
      rw [hedits] at hmem
      obtain ⟨entry, hentry, hemit⟩ := List.mem_flatMap.mp hmem
      obtain ⟨rfl, hprogram⟩ := mem_emit hemit
      by_cases happId : GuardExtraction.appIdOf cfg entry.2 = f1xapp
      · refine .inl ?_
        have hown : putAt (ownEdits cfg file f1xapp) entry.1 = some program :=
          (putAt_eq_some_iff (ownEdits_apart h f1xapp)).mpr
            (mem_ownEdits.mpr ⟨entry, hentry, happId, happId ▸ hemit⟩)
        rw [hown]
      · refine .inr ⟨?_, fun back => ?_⟩
        · rw [Option.map_some, denote_other sem hprogram (Ne.symm happId),
            Option.some.inj ((exists_node hentry).symm.trans hfound)]
          rfl
        · rw [putAt_below_other h hentry happId back, Option.map_none]

/-- The instrumented program means what the source means when no application runs. -/
theorem instrumented_eq_source {D : Type*} (sem : Semantics D)
    (h : PreparedStandard file profile cfg) (hrun : cfg.instrument file = .ok after) {f1xapp : Nat}
    (hnone : ∀ entry ∈ entries cfg file, GuardExtraction.appIdOf cfg entry.2 ≠ f1xapp) :
    sem.denote f1xapp (instrumented file after) = sem.meaning file.unit.root := by
  have hown : ownEdits cfg file f1xapp = [] := by
    refine List.eq_nil_iff_forall_not_mem.mpr fun edit hedit => ?_
    obtain ⟨entry, hentry, happId, -⟩ := mem_ownEdits.mp hedit
    exact hnone entry hentry happId
  rw [denote_instrumented sem h hrun, hown]
  rfl

/-! ## Loaded applications -/

theorem application_fields {position : Position} {appId : Nat} {app : ApplicationJson}
    (h : cfg.application file position appId = .ok app) :
    app.appId = setInt appId ∧
      app.location = GuardExtraction.locToJSON (file.location cfg.fileId position) ∧
      app.components = (file.info position).components := by
  unfold TransformRun.application at h
  split at h
  · simp only [Except.ok.injEq] at h
    subst h
    simp only [and_self]
  · split at h
    · simp only [Except.ok.injEq] at h
      subst h
      simp only [and_self]
    · cases h

private theorem loadLocation_locToJSON {loc loaded : Location}
    (h : loadLocation (GuardExtraction.locToJSON loc) = .ok loaded) :
    loaded = ⟨loadedId loc.fileId, loadedId loc.beginLine, loadedId loc.beginColumn,
      loadedId loc.endLine, loadedId loc.endColumn⟩ := by
  unfold loadLocation GuardExtraction.locToJSON at h
  dsimp only at h
  obtain ⟨fileId, hfileId, h⟩ := bind_eq_ok_iff.mp h
  obtain ⟨beginLine, hbeginLine, h⟩ := bind_eq_ok_iff.mp h
  obtain ⟨beginColumn, hbeginColumn, h⟩ := bind_eq_ok_iff.mp h
  obtain ⟨endLine, hendLine, h⟩ := bind_eq_ok_iff.mp h
  obtain ⟨endColumn, hendColumn, h⟩ := bind_eq_ok_iff.mp h
  cases h
  rw [getUint_setInt hfileId, getUint_setInt hbeginLine, getUint_setInt hbeginColumn,
    getUint_setInt hendLine, getUint_setInt hendColumn]

theorem loadedId_of_lt {n : Nat} (h : n < uintRange) : loadedId n = n := Nat.mod_eq_of_lt h

private theorem loadSchemaApplication_location {app : ApplicationJson} {sa : SchemaApplication}
    (h : loadSchemaApplication app = .ok sa) : loadLocation app.location = .ok sa.location := by
  obtain ⟨appId, -, h⟩ := bind_eq_ok_iff.mp h
  obtain ⟨schema, -, h⟩ := bind_eq_ok_iff.mp h
  obtain ⟨location, hlocation, h⟩ := bind_eq_ok_iff.mp h
  obtain ⟨expression, -, h⟩ := bind_eq_ok_iff.mp h
  obtain ⟨components, -, h⟩ := bind_eq_ok_iff.mp h
  obtain rfl := Except.ok.inj h
  exact hlocation

def patchRun (sa : SchemaApplication) (fileId : Nat) (patch : String) : PatchRun where
  fileId := fileId
  beginLine := sa.location.beginLine
  beginColumn := sa.location.beginColumn
  endLine := sa.location.endLine
  endColumn := sa.location.endColumn
  patch := patch

theorem isLocation_patchRun {position : Position} {sa : SchemaApplication}
    (h : file.location cfg.fileId position = sa.location) (fileId : Nat) (patch : String) :
    (patchRun sa fileId patch).isLocation file position = true := by
  simp [PatchRun.isLocation, patchRun, ← h, SourceFile.location]

theorem exists_entry (hrun : cfg.instrument file = .ok after) (hfile : cfg.fileId < 2 ^ 10)
    {app : ApplicationJson} (happ : app ∈ after.schemaApplications) {sa : SchemaApplication}
    (hload : loadSchemaApplication app = .ok sa) :
    ∃ entry ∈ entries cfg file, GuardExtraction.appIdOf cfg entry.2 = sa.id ∧
      file.location cfg.fileId entry.1 = sa.location ∧
      app.components = (file.info entry.1).components := by
  obtain ⟨apps, happs, hforall⟩ := (TransformRun.instrument_extraction hrun).applications
  rw [List.nil_append] at happs
  rw [happs] at happ
  obtain ⟨entry, hentry, hroom, happlication⟩ := (exists_of_forall₂ hforall).1 app happ
  obtain ⟨happId, hlocation, hcomponents⟩ := application_fields happlication
  refine ⟨entry, hentry, ?_, ?_, hcomponents⟩
  · have hid := loadSchemaApplication_id hload
    rw [happId] at hid
    rw [getUint_setInt hid, loadedId_of_lt]
    unfold GuardExtraction.appIdOf uintRange
    omega
  · have hloaded := loadSchemaApplication_location hload
    rw [hlocation] at hloaded
    obtain ⟨hbeginLine, hbeginColumn, hendLine, hendColumn⟩ := file.fits entry.1
    rw [loadLocation_locToJSON hloaded]
    simp only [SourceFile.location, SourceFile.stmt, loadedId_of_lt cfg.fileIdFits,
      loadedId_of_lt hbeginLine, loadedId_of_lt hbeginColumn, loadedId_of_lt hendLine,
      loadedId_of_lt hendColumn]

private theorem putAt_ownEdits (h : PreparedStandard file profile cfg) {entry : Position × Nat}
    (hentry : entry ∈ entries cfg file) {f1xapp : Nat}
    (happId : GuardExtraction.appIdOf cfg entry.2 = f1xapp) (position : Position) :
    putAt (ownEdits cfg file f1xapp) position =
      if position = entry.1 then cfg.replacement file entry.1 f1xapp else none := by
  have happart : Apart (cfg.emit file entry.1 f1xapp) := apart_emit_one entry.1 f1xapp
  rw [putAt_congr (ownEdits_apart h f1xapp) happart, TransformRun.emit, putAt_toList]
  intro edit
  rw [mem_ownEdits]
  constructor
  · rintro ⟨other, hother, hid, hemit⟩
    have hindex : other.2 = entry.2 := by
      unfold GuardExtraction.appIdOf at hid happId
      omega
    obtain ⟨position, index⟩ := entry
    obtain ⟨position', index'⟩ := other
    obtain rfl : index' = index := hindex
    rw [entries, List.mem_zipIdx_iff_getElem?] at hentry hother
    cases hentry.symm.trans hother
    exact hemit
  · exact fun hemit => ⟨entry, hentry, happId, hemit⟩

theorem denote_entry {D : Type*} (sem : Semantics D) (h : PreparedStandard file profile cfg)
    (hrun : cfg.instrument file = .ok after) {entry : Position × Nat}
    (hentry : entry ∈ entries cfg file) {appId : Nat}
    (happId : GuardExtraction.appIdOf cfg entry.2 = appId) {run : PatchRun}
    (hat : run.isLocation file entry.1 = true) (f1xapp : Nat)
    (hcall : sem.call (cfg.runtimeCall file entry.1) = sem.text run.patch) :
    sem.denote appId (instrumented file after) =
      sem.denote f1xapp (patchedProgram file run) := by
  have hextracted : entry.1 ∈ cfg.extracted file := List.fst_mem_of_mem_zipIdx hentry
  have hpatched : (run.apply file).edits = run.emit file entry.1 := by
    rw [PatchRun.apply_edits, replaced_of_mem (mem_replaced hextracted hat),
      List.flatMap_singleton]
  have hapart : Apart (run.apply file).edits := by
    rw [hpatched]
    exact apart_patch entry.1
  have hown := @denote_own file cfg D sem run entry.1 appId f1xapp hcall
  rw [denote_instrumented sem h hrun, patchedProgram, sem.denote_replaceAll f1xapp hapart, hpatched]
  congr 1
  funext position
  rw [putAt_ownEdits h hentry happId, PatchRun.emit, putAt_toList]
  by_cases hposition : position = entry.1
  · rw [if_pos hposition, if_pos hposition, hown]
  · rw [if_neg hposition, if_neg hposition]
    rfl

end Instrumented

/-! ## Profiled programs -/

section Profiled

variable {file : SourceFile} {cfg : ProfileRun} {D : Type*}

def profiled (cfg : ProfileRun) (file : SourceFile) : Program :=
  replaceAll (cfg.run file).edits file.unit.root.program

private theorem profiled_apart (hstandard : file.unit.isStandard = true) :
    Apart (cfg.run file).edits := by
  rw [ProfileRun.run_edits, Apart, List.pairwise_map]
  refine (firstOfKey_pairwise ∅ (file.matched cfg.addGuards)).imp_of_mem fun hp hq hne => ?_
  have hne := ne_of_apply_ne _ hne
  exact ⟨not_isPrefix_selected file.unit hstandard (selected_of_traced hp)
      (selected_of_traced hq) hne,
    not_isPrefix_selected file.unit hstandard (selected_of_traced hq)
      (selected_of_traced hp) hne.symm⟩

private theorem exists_node_of_traced {position : Position} (h : position ∈ cfg.traced file) :
    file.unit.root.subtree position = some (file.node position) := by
  obtain ⟨-, -, -, front, back, hsplit, -⟩ := mem_firstOfKey_iff.mp h
  have hmatched : position ∈ file.matched cfg.addGuards := by simp [hsplit]
  exact exists_subtree hmatched

private theorem denote_profiled (sem : Semantics D) (hstandard : file.unit.isStandard = true)
    (f1xapp : Nat) :
    sem.denote f1xapp (profiled cfg file) =
      foldWith sem.node
        (fun p => if p ∈ cfg.traced file then
          some (sem.traced (file.location cfg.fileId p) (sem.meaning (file.node p))) else none)
        file.unit.root := by
  rw [profiled, sem.denote_replaceAll f1xapp (profiled_apart hstandard), ProfileRun.run_edits]
  congr 1
  funext position
  rw [putAt_map]
  split
  · rw [Option.map_some, ProfileRun.replacement, sem.denote_node, sem.denote_program]
    rfl
  · rfl

end Profiled

/-- The meaning of a program is the number of its nodes. -/
def nodeCount : Semantics Nat where
  node kind parts :=
    match kind, parts with
    | .compoundStmt, [d] => d
    | _, parts => parts.sum + 1
  call _ := 7
  text _ := 7
  traced _ d := d
  block _ := rfl

theorem preparedStandard_guardedCall :
    PreparedStandard guardedCallFile guardedCallProfile guardedCallRun where
  toPrepared := prepared_guardedCall
  standard := by decide

/-- The number of nodes with the number of locations that are recorded in it. -/
def tracedCount : Semantics (Nat × Nat) where
  node kind parts :=
    match kind, parts with
    | .compoundStmt, [d] => d
    | _, parts => ((parts.map Prod.fst).sum + 1, (parts.map Prod.snd).sum)
  call _ := (7, 0)
  text _ := (7, 0)
  traced _ d := (d.1, d.2 + 1)
  block _ := rfl

end F1X
