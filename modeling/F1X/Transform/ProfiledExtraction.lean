import F1X.Repair.ProfileText
import F1X.Transform.Phases

/-!
# From the profile to the schema applications

The tests run the profiled program one after another; their trace files are
merged into a profile, and the transformer reads it when it writes the schema
applications.  So what is extracted from a file is what its failing tests reach.
-/

namespace F1X

open Library LabelledTree ProfileText

/-! ## The tests of the profiling loop -/

/-- What a test calls `__f1x_trace` with, and how it ends. -/
structure TestRun where
  calls : List Location
  status : TestStatus

def TestRun.isPassing (run : TestRun) : Bool := run.status = .pass

def mergeTraceFiles : Nat → List TestRun → Profiler → Option Profiler
  | _, [], profiler => some profiler
  | index, run :: runs, profiler => do
      let profiler ← mergeTraceFile profiler index run.isPassing
        (run.calls.foldl trace clearTrace).traceFile
      mergeTraceFiles (index + 1) runs profiler

def failingCalls (runs : List TestRun) : List (Finset Location) :=
  (runs.filter (!·.isPassing)).map (·.calls.toFinset)

def ReadBack (run : TestRun) (test : ProfiledTest) : Prop :=
  test.status = run.status ∧ test.trace.toFinset = run.calls.toFinset

section Merge

variable {runs : List TestRun} {tests : List ProfiledTest}

theorem ReadBack.isPassing {run : TestRun} {test : ProfiledTest} (h : ReadBack run test) :
    test.isPassing = run.isPassing := by
  rw [ProfiledTest.isPassing, TestRun.isPassing, h.1]

private theorem failingTraces_readBack (h : List.Forall₂ ReadBack runs tests) :
    failingTraces tests = failingCalls runs := by
  induction h with
  | nil => rfl
  | @cons run test runs tests hfirst _ ih =>
      rw [failingTraces, failingCalls, List.filter_cons, List.filter_cons, hfirst.isPassing]
      cases run.isPassing with
      | true => exact ih
      | false => exact congrArg₂ List.cons hfirst.2 ih

/-- Through the files the loop is `profileTests` over what is read back. -/
theorem mergeTraceFiles_eq (h : ∀ run ∈ runs, ∀ loc ∈ run.calls, IsUnsignedLong loc) (index : Nat)
    (profiler : Profiler) :
    ∃ tests, List.Forall₂ ReadBack runs tests ∧
      mergeTraceFiles index runs profiler = some ((tests.zipIdx index).foldl
        (fun profiler entry => profiler.mergeTrace entry.2 entry.1.isPassing entry.1.trace)
        profiler) := by
  induction runs generalizing index profiler with
  | nil => exact ⟨[], .nil, rfl⟩
  | cons run runs ih =>
      obtain ⟨hrun, hruns⟩ := List.forall_mem_cons.mp h
      obtain ⟨order, horder, -, hread⟩ := readTrace_trace hrun
      obtain ⟨tests, htests, hmerge⟩ :=
        ih hruns (index + 1) (profiler.mergeTrace index run.isPassing order)
      refine ⟨⟨order, run.status⟩ :: tests, .cons ⟨rfl, horder⟩ htests, ?_⟩
      rw [mergeTraceFiles, mergeTraceFile, hread]
      exact hmerge

theorem readProfile_eq (h : ∀ run ∈ runs, ∀ loc ∈ run.calls, IsUnsignedLong loc) :
    ∃ profiler, mergeTraceFiles 0 runs .empty = some profiler ∧
      initInterestingLocations (writeProfile "" profiler.getProfile) =
        (runningIntersection (failingCalls runs)).image locToString := by
  obtain ⟨tests, htests, hmerge⟩ := mergeTraceFiles_eq h 0 .empty
  refine ⟨profileTests tests, hmerge, ?_⟩
  have hprofile : (profileTests tests).getProfile.interestingLocations =
      (runningIntersection (failingCalls runs)).image locToString := by
    rw [← failingTraces_readBack htests]
    exact profileTests_interestingLocations tests
  refine (initInterestingLocations_writeProfile fun text htext => ?_).trans hprofile
  rw [hprofile] at htext
  obtain ⟨loc, -, rfl⟩ := Finset.mem_image.mp htext
  exact newline_notMem_locToString loc

end Merge

/-! ## A file with its tests -/

/-- The runs over a file: profiling, the tests, and the schema applications. -/
structure Pipeline (file : SourceFile) (profile : ProfileRun) (runs : List TestRun)
    (cfg : TransformRun) : Prop where
  sameFile : profile.fileId = cfg.fileId
  distinct : ∀ p ∈ file.matched true, ∀ q ∈ file.matched true,
    file.location cfg.fileId p = file.location cfg.fileId q → p = q
  unsigned : ∀ run ∈ runs, ∀ loc ∈ run.calls, IsUnsignedLong loc
  /-- Only the profiled program calls `__f1x_trace`. -/
  recorded : ∀ run ∈ runs, ∀ loc ∈ run.calls, loc.fileId = cfg.fileId →
    ∃ p ∈ profile.traced file, file.location cfg.fileId p = loc
  read : ∃ profiler, mergeTraceFiles 0 runs .empty = some profiler ∧
    cfg.interestingLocations = initInterestingLocations (writeProfile "" profiler.getProfile)

section Pipeline

variable {file : SourceFile} {profile : ProfileRun} {runs : List TestRun} {cfg : TransformRun}

theorem Pipeline.interestingLocations (h : Pipeline file profile runs cfg) :
    cfg.interestingLocations = (runningIntersection (failingCalls runs)).image locToString := by
  obtain ⟨profiler, hmerge, hread⟩ := h.read
  obtain ⟨other, hother, hprofile⟩ := readProfile_eq h.unsigned
  obtain rfl := Option.some.inj (hmerge.symm.trans hother)
  rw [hread, hprofile]

theorem Pipeline.mem_iff (h : Pipeline file profile runs cfg) (location : Location) :
    locToString location ∈ cfg.interestingLocations ↔
      location ∈ runningIntersection (failingCalls runs) := by
  rw [h.interestingLocations, locToString_injective.mem_finset_image]

theorem Pipeline.prepared (h : Pipeline file profile runs cfg) : Prepared file profile cfg where
  sameFile := h.sameFile
  distinct := h.distinct
  traced location hfile hinteresting := by
    obtain ⟨set, hset, hmem⟩ :=
      exists_of_mem_runningIntersection ((h.mem_iff location).mp hinteresting)
    obtain ⟨run, hrun, rfl⟩ := List.mem_map.mp hset
    exact h.recorded run (List.mem_of_mem_filter hrun) location (List.mem_toFinset.mp hmem) hfile

/-- An object is written for what is traced and reached by the failing tests. -/
theorem extracted_iff_reached (h : Pipeline file profile runs cfg) (position : Position) :
    position ∈ cfg.extracted file ↔
      position ∈ profile.traced file ∧
        file.location cfg.fileId position ∈ runningIntersection (failingCalls runs) := by
  have hprepared := h.prepared
  rw [← h.mem_iff]
  constructor
  · intro hmem
    obtain ⟨-, hlate, -⟩ := mem_firstOfKey_iff.mp hmem
    exact ⟨traced_of_extracted hprepared hmem,
      of_decide_eq_true (Bool.and_eq_true_iff.mp hlate).2⟩
  · rintro ⟨htraced, hinteresting⟩
    exact extracted_of_traced hprepared htraced (decide_eq_true hinteresting)

def guardedCallTests : List TestRun := [⟨[guardedCallFile.location 0 [0, 1]], .fail⟩]

theorem guardedCallTests_unsigned :
    ∀ run ∈ guardedCallTests, ∀ loc ∈ run.calls, IsUnsignedLong loc := by
  intro run hrun loc hloc
  obtain rfl := List.mem_singleton.mp hrun
  obtain rfl := List.mem_singleton.mp hloc
  constructor <;> decide

private theorem guardedCall_pipeline :
    Pipeline guardedCallFile guardedCallProfile guardedCallTests guardedCallRun where
  sameFile := rfl
  distinct := by decide
  unsigned := guardedCallTests_unsigned
  recorded := by
    intro run hrun loc hloc _
    obtain rfl := List.mem_singleton.mp hrun
    obtain rfl := List.mem_singleton.mp hloc
    exact ⟨[0, 1], by decide, rfl⟩
  read := by
    obtain ⟨profiler, hmerge, hread⟩ := readProfile_eq guardedCallTests_unsigned
    exact ⟨profiler, hmerge, hread.symm⟩

theorem extracted_iff_reached_guardedCall :
    [0, 1] ∈ guardedCallRun.extracted guardedCallFile ↔
      [0, 1] ∈ guardedCallProfile.traced guardedCallFile ∧
        guardedCallFile.location 0 [0, 1] ∈ runningIntersection (failingCalls guardedCallTests) :=
  extracted_iff_reached guardedCall_pipeline [0, 1]

end Pipeline

end F1X
