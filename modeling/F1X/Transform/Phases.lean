import F1X.Transform.Handlers

/-!
# The phases of the transformer

The profile, the search space and the patch are made in three runs over one
source file.  They agree on the node that a location stands for.
-/

namespace F1X

open Library LabelledTree SearchSpaceMatchers GuardedStatements

/-! ## Matches -/

section Matches

variable {file : SourceFile} {position : Position}

theorem mem_matched {addGuards : Bool} (h : position ∈ file.matched addGuards) :
    position ∈ expressionMatches file.unit.root ∨
      ∃ stmt, file.unit.root.subtree position = some stmt ∧ [] ∈ ifGuardSchema stmt := by
  obtain ⟨front, found, back, hfound, rfl, hback⟩ := mem_everywhere.mp h
  rcases List.mem_append.mp hback with hexpression | hguard
  · exact .inl (mem_everywhere.mpr ⟨front, found, back, hfound, rfl, hexpression⟩)
  · cases addGuards with
    | false => cases hguard
    | true =>
        exact .inr (guarded_of_mem
          (mem_everywhere.mpr ⟨front, found, back, hfound, rfl, hguard⟩))

theorem matched_subset {addGuards : Bool} (h : position ∈ file.matched addGuards) :
    position ∈ file.matched true := by
  obtain ⟨front, found, back, hfound, rfl, hback⟩ := mem_everywhere.mp h
  refine mem_everywhere.mpr ⟨front, found, back, hfound, rfl, ?_⟩
  rcases List.mem_append.mp hback with hexpression | hguard
  · exact List.mem_append_left _ hexpression
  · cases addGuards with
    | false => cases hguard
    | true => exact List.mem_append_right _ hguard

theorem node_eq {stmt : ClangStmt} (h : file.unit.root.subtree position = some stmt) :
    file.node position = stmt := by
  rw [SourceFile.node, h, Option.getD_some]

theorem exists_subtree {addGuards : Bool} (h : position ∈ file.matched addGuards) :
    file.unit.root.subtree position = some (file.node position) := by
  obtain ⟨stmt, hstmt⟩ : ∃ stmt, file.unit.root.subtree position = some stmt := by
    rcases mem_matched h with hexpression | ⟨stmt, hstmt, -⟩
    · obtain ⟨m, rfl, -⟩ := matched_of_mem file.unit.shapedTree hexpression
      exact ⟨_, m.subtree_position⟩
    · exact ⟨stmt, hstmt⟩
  rw [node_eq hstmt, hstmt]

theorem selected_of_traced {cfg : ProfileRun} (h : position ∈ cfg.traced file) :
    position ∈ selected file.unit.root := by
  obtain ⟨haccepts, -, -, front, back, hsplit, -⟩ := mem_firstOfKey_iff.mp h
  have hmatched : position ∈ file.matched cfg.addGuards := by simp [hsplit]
  rcases mem_matched hmatched with hexpression | ⟨stmt, hstmt, hguard⟩
  · exact List.mem_append_left _ hexpression
  · have hisGuard : file.isGuard position = true := by
      rw [SourceFile.isGuard, node_eq hstmt, Bool.not_eq_true', List.isEmpty_eq_false_iff]
      exact List.ne_nil_of_mem hguard
    simp only [ProfileRun.accepts, hisGuard, Bool.true_and, Bool.not_not, Bool.and_eq_true]
      at haccepts
    refine List.mem_append_right _ (List.mem_filter.mpr ⟨?_, haccepts.1.2⟩)
    exact mem_everywhere.mpr ⟨position, stmt, [], hstmt, (List.append_nil _).symm, hguard⟩

end Matches

/-! ## One node for a location -/

section Agreement

variable {file : SourceFile} {cfg : TransformRun} {position other : Position}

private theorem location_eq_iff (fileId fileId' : Nat) :
    file.location fileId position = file.location fileId other ↔
      file.location fileId' position = file.location fileId' other := by
  simp [SourceFile.location]

theorem isLocation_iff {run : PatchRun} :
    run.isLocation file position = true ↔ file.location run.fileId position =
      ⟨run.fileId, run.beginLine, run.beginColumn, run.endLine, run.endColumn⟩ := by
  simp [PatchRun.isLocation, SourceFile.location, and_assoc]

theorem mem_replaced {run : PatchRun} (h : position ∈ cfg.extracted file)
    (hlocation : run.isLocation file position = true) : position ∈ run.replaced file := by
  obtain ⟨-, hlate, -, front, back, hsplit, hfront⟩ := mem_firstOfKey_iff.mp h
  refine mem_firstOfKey_iff.mpr
    ⟨rfl, ?_, Finset.notMem_empty _, front, back, hsplit, fun y hy _ heq => ?_⟩
  · rw [(Bool.and_eq_true_iff.mp hlate).1, hlocation, Bool.and_true]
  · exact hfront y hy rfl ((location_eq_iff run.fileId cfg.fileId).mp heq)

/-- There is at most one node with the location of a patch that is replaced. -/
theorem replaced_of_mem {run : PatchRun} (h : position ∈ run.replaced file) :
    run.replaced file = [position] := by
  refine firstOfKey_eq_singleton h fun y hy => ?_
  have hposition := (Bool.and_eq_true_iff.mp (mem_firstOfKey_iff.mp h).2.1).2
  have hy := (Bool.and_eq_true_iff.mp (mem_firstOfKey_iff.mp hy).2.1).2
  rw [isLocation_iff.mp hy, isLocation_iff.mp hposition]

/-- The statement at a position is a guard whose semicolon is not found. -/
def GivesUp (file : SourceFile) (position : Position) : Prop :=
  file.isGuard position = true ∧ GuardExtraction.replacedLength (file.stmt position) = none

/-- The handlers of both runs give up at the same statements. -/
theorem emit_cases (cfg : TransformRun) (run : PatchRun) (file : SourceFile)
    (position : Position) :
    (GivesUp file position ∧ run.emit file position = [] ∧
        ∀ appId, cfg.emit file position appId = []) ∨
      (¬GivesUp file position ∧ (∃ program, run.emit file position = [(position, program)]) ∧
        ∀ appId, ∃ program, cfg.emit file position appId = [(position, program)]) := by
  cases hguard : file.isGuard position with
  | false =>
      simp [GivesUp, TransformRun.emit, TransformRun.replacement, PatchRun.emit,
        PatchRun.replacement, hguard]
  | true =>
      cases hlength : GuardExtraction.replacedLength (file.stmt position) with
      | none =>
          simp [GivesUp, TransformRun.emit, TransformRun.replacement, PatchRun.emit,
            PatchRun.replacement, hguard, hlength]
      | some length =>
          simp [GivesUp, TransformRun.emit, TransformRun.replacement, PatchRun.emit,
            PatchRun.replacement, hguard, hlength]

/--
A patch is applied at the node that the object with its location was written for,
unless the handlers give up there; then neither of the runs changes the node.
-/
theorem apply_extracted {run : PatchRun} (h : position ∈ cfg.extracted file)
    (hlocation : run.isLocation file position = true) :
    (GivesUp file position ∧ (run.apply file).edits = [] ∧
        ∀ appId, cfg.emit file position appId = []) ∨
      (¬GivesUp file position ∧
        (∃ program, (run.apply file).edits = [(position, program)]) ∧
        ∀ appId, ∃ program, cfg.emit file position appId = [(position, program)]) := by
  have hedits : (run.apply file).edits = run.emit file position := by
    rw [PatchRun.apply_edits, replaced_of_mem (mem_replaced h hlocation), List.flatMap_singleton]
  rw [hedits]
  exact emit_cases cfg run file position

theorem apply_extracted_guardedCall :
    ∃ program, ((⟨5, 3, 1, 3, 4, "y"⟩ : PatchRun).apply guardedCallFile).edits =
      [([0, 1], program)] := by
  rcases @apply_extracted guardedCallFile guardedCallRun [0, 1] ⟨5, 3, 1, 3, 4, "y"⟩ (by decide)
    (by decide) with ⟨⟨-, hscan⟩, -⟩ | ⟨-, happlied, -⟩
  · exact absurd hscan (by decide)
  · exact happlied

/-- The file as the three runs find it: its interesting locations have been traced. -/
structure Prepared (file : SourceFile) (profile : ProfileRun) (cfg : TransformRun) : Prop where
  sameFile : profile.fileId = cfg.fileId
  /-- No two nodes have one location, as nodes of one macro expansion would. -/
  distinct : ∀ p ∈ file.matched true, ∀ q ∈ file.matched true,
    file.location cfg.fileId p = file.location cfg.fileId q → p = q
  traced : ∀ location, location.fileId = cfg.fileId →
    locToString location ∈ cfg.interestingLocations →
      ∃ p ∈ profile.traced file, file.location cfg.fileId p = location

variable {profile : ProfileRun}

theorem traced_of_extracted (h : Prepared file profile cfg) (hmem : position ∈ cfg.extracted file) :
    position ∈ profile.traced file := by
  rw [TransformRun.extracted, mem_firstOfKey_of_injOn h.distinct] at hmem
  obtain ⟨hmatched, -, hlate⟩ := hmem
  obtain ⟨other, hother, hlocation⟩ :=
    h.traced _ rfl (of_decide_eq_true (Bool.and_eq_true_iff.mp hlate).2)
  obtain ⟨-, -, -, front, back, hsplit, -⟩ := mem_firstOfKey_iff.mp hother
  have hmem : other ∈ file.matched profile.addGuards := by simp [hsplit]
  obtain rfl := h.distinct other (matched_subset hmem) position hmatched hlocation
  exact hother

theorem extracted_of_traced (h : Prepared file profile cfg)
    (htraced : position ∈ profile.traced file)
    (hinteresting : cfg.isInteresting file position = true) : position ∈ cfg.extracted file := by
  obtain ⟨-, hfile, -, front, back, hsplit, -⟩ := mem_firstOfKey_iff.mp htraced
  have hmem : position ∈ file.matched profile.addGuards := by simp [hsplit]
  rw [TransformRun.extracted, mem_firstOfKey_of_injOn h.distinct]
  exact ⟨matched_subset hmem, rfl, Bool.and_eq_true_iff.mpr ⟨hfile, hinteresting⟩⟩

/-- An object is written for what has been traced and is interesting. -/
theorem mem_extracted_iff (h : Prepared file profile cfg) :
    position ∈ cfg.extracted file ↔
      position ∈ profile.traced file ∧ cfg.isInteresting file position = true := by
  constructor
  · intro hmem
    obtain ⟨-, hlate, -⟩ := mem_firstOfKey_iff.mp hmem
    exact ⟨traced_of_extracted h hmem, (Bool.and_eq_true_iff.mp hlate).2⟩
  · rintro ⟨htraced, hinteresting⟩
    exact extracted_of_traced h htraced hinteresting

end Agreement

theorem prepared_guardedCall : Prepared guardedCallFile guardedCallProfile guardedCallRun where
  sameFile := rfl
  distinct := by decide
  traced _ _ htext := ⟨[0, 1], by decide,
    (locToString_injective (Finset.mem_singleton.mp htext)).symm⟩

theorem mem_extracted_guardedCall :
    [0, 1] ∈ guardedCallRun.extracted guardedCallFile ↔
      [0, 1] ∈ guardedCallProfile.traced guardedCallFile ∧
        guardedCallRun.isInteresting guardedCallFile [0, 1] = true :=
  mem_extracted_iff prepared_guardedCall

end F1X
