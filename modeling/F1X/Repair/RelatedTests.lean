import F1X.Repair.PlainSearch
import F1X.Repair.Profiler

/-!
# The lists of related tests

What `relatedTestIndexes` and `interestingLocations` of `repair/Profiler.cpp`
satisfy after any sequence of calls of `mergeTrace`, whatever the traces and in
whatever order failing and passing tests come.
-/

namespace F1X

/-- A call of `mergeTrace`, with the content of the trace file it reads. -/
structure MergedTrace where
  testIndex : Nat
  isPassing : Bool
  trace : List Location
  deriving DecidableEq, Repr

def mergeTraces (calls : List MergedTrace) : Profiler :=
  calls.foldl
    (fun profiler call => profiler.mergeTrace call.testIndex call.isPassing call.trace)
    Profiler.empty

private theorem mergeTraces_append_singleton (calls : List MergedTrace) (call : MergedTrace) :
    mergeTraces (calls ++ [call]) =
      (mergeTraces calls).mergeTrace call.testIndex call.isPassing call.trace := by
  simp [mergeTraces]

def FailingIndex (calls : List MergedTrace) (i : Nat) : Prop :=
  ∃ call ∈ calls, call.testIndex = i ∧ call.isPassing = false

def CoveringIndex (calls : List MergedTrace) (loc : Location) (i : Nat) : Prop :=
  ∃ call ∈ calls, call.testIndex = i ∧ loc ∈ call.trace

structure RelatedList (calls : List MergedTrace) (loc : Location) (list : List Nat) :
    Prop where
  nodup : list.Nodup
  covering : ∀ i ∈ list, CoveringIndex calls loc i
  failingFirst : ∃ failing passing, list = failing ++ passing ∧
    (∀ i ∈ failing, FailingIndex calls i) ∧ ∀ i ∈ passing, ¬ FailingIndex calls i

structure RelatedTests (calls : List MergedTrace) (profiler : Profiler) : Prop where
  lists : ∀ loc list, profiler.relatedTestIndexes loc = some list →
    RelatedList calls loc list
  keys : ∀ text ∈ profiler.interestingLocations,
    ∃ loc list, locToString loc = text ∧ profiler.relatedTestIndexes loc = some list ∧
      ∃ i ∈ list, FailingIndex calls i

/-! ## One more call -/

section Step

variable {calls : List MergedTrace} {call : MergedTrace} {loc : Location}
  {list : List Nat} {i : Nat}

theorem FailingIndex.append (h : FailingIndex calls i) : FailingIndex (calls ++ [call]) i := by
  obtain ⟨other, hmem, hindex⟩ := h
  exact ⟨other, List.mem_append_left _ hmem, hindex⟩

private theorem failingIndex_append_iff (hother : i ≠ call.testIndex) :
    FailingIndex (calls ++ [call]) i ↔ FailingIndex calls i := by
  refine ⟨fun h => ?_, FailingIndex.append⟩
  obtain ⟨other, hmem, hindex, hfailing⟩ := h
  rcases List.mem_append.mp hmem with hold | hnew
  · exact ⟨other, hold, hindex, hfailing⟩
  · cases List.mem_singleton.mp hnew
    exact absurd hindex.symm hother

private theorem failingIndex_append_self
    (hfresh : ∀ other ∈ calls, other.testIndex ≠ call.testIndex) :
    FailingIndex (calls ++ [call]) call.testIndex ↔ call.isPassing = false := by
  constructor
  · rintro ⟨other, hmem, hindex, hfailing⟩
    rcases List.mem_append.mp hmem with hold | hnew
    · exact absurd hindex (hfresh other hold)
    · cases List.mem_singleton.mp hnew
      exact hfailing
  · intro hfailing
    exact ⟨call, by simp, rfl, hfailing⟩

namespace RelatedList

theorem nil : RelatedList calls loc [] where
  nodup := List.nodup_nil
  covering := by simp
  failingFirst := ⟨[], [], by simp⟩

theorem ne_of_fresh (h : RelatedList calls loc list)
    (hfresh : ∀ other ∈ calls, other.testIndex ≠ call.testIndex) (hi : i ∈ list) :
    i ≠ call.testIndex := by
  obtain ⟨other, hmem, rfl, -⟩ := h.covering i hi
  exact hfresh other hmem

/-- A call that leaves the list as it is does not change what its indexes stand for. -/
theorem keep (h : RelatedList calls loc list)
    (hfresh : ∀ other ∈ calls, other.testIndex ≠ call.testIndex) :
    RelatedList (calls ++ [call]) loc list := by
  obtain ⟨failing, passing, rfl, hfailing, hpassing⟩ := h.failingFirst
  refine ⟨h.nodup, fun i hi => ?_, failing, passing, rfl, fun i hi => ?_, fun i hi => ?_⟩
  · obtain ⟨other, hmem, hindex⟩ := h.covering i hi
    exact ⟨other, List.mem_append_left _ hmem, hindex⟩
  · exact (hfailing i hi).append
  · rw [failingIndex_append_iff (h.ne_of_fresh hfresh (List.mem_append_right _ hi))]
    exact hpassing i hi

theorem add (h : RelatedList calls loc list)
    (hfresh : ∀ other ∈ calls, other.testIndex ≠ call.testIndex) (hloc : loc ∈ call.trace) :
    RelatedList (calls ++ [call]) loc
      (Profiler.addTestIndex call.testIndex call.isPassing list) := by
  have hkept := h.keep hfresh
  obtain ⟨failing, passing, rfl, hfailing, hpassing⟩ := hkept.failingFirst
  refine ⟨Profiler.nodup_addTestIndex h.nodup, fun i hi => ?_, ?_⟩
  · rcases Profiler.mem_addTestIndex.mp hi with rfl | hold
    · exact ⟨call, by simp, rfl, hloc⟩
    · exact hkept.covering i hold
  · have hnotin : call.testIndex ∉ failing ++ passing := fun hmem =>
      h.ne_of_fresh hfresh hmem rfl
    have hself := failingIndex_append_self hfresh
    rw [Profiler.addTestIndex, if_neg hnotin]
    cases hcall : call.isPassing with
    | true =>
        refine ⟨failing, passing ++ [call.testIndex], by simp, hfailing, ?_⟩
        simpa [or_imp, forall_and, hself, hcall] using hpassing
    | false =>
        refine ⟨call.testIndex :: failing, passing, by simp, ?_, hpassing⟩
        simpa [hself, hcall] using hfailing

end RelatedList

namespace RelatedTests

variable {profiler : Profiler}

theorem empty : RelatedTests [] Profiler.empty where
  lists := by
    intro loc list h
    cases h
  keys := by simp [Profiler.empty]

private theorem lists_relate (h : RelatedTests calls profiler)
    (hfresh : ∀ other ∈ calls, other.testIndex ≠ call.testIndex)
    (hlist : call.trace.foldl (Profiler.relateTest call.testIndex call.isPassing)
      profiler.relatedTestIndexes loc = some list) :
    RelatedList (calls ++ [call]) loc list := by
  rw [Profiler.foldl_relateTest] at hlist
  split_ifs at hlist with hloc
  · cases hlist
    refine RelatedList.add ?_ hfresh hloc
    cases hcurrent : profiler.relatedTestIndexes loc with
    | none => exact .nil
    | some current => exact h.lists loc current hcurrent
  · exact (h.lists loc list hlist).keep hfresh

variable (call) in
theorem keys_relate (h : RelatedTests calls profiler) {text : String}
    (htext : text ∈ profiler.interestingLocations) :
    ∃ loc list, locToString loc = text ∧
      call.trace.foldl (Profiler.relateTest call.testIndex call.isPassing)
        profiler.relatedTestIndexes loc = some list ∧
      ∃ i ∈ list, FailingIndex (calls ++ [call]) i := by
  obtain ⟨loc, list, hloc, hlist, i, hi, hfailing⟩ := h.keys text htext
  rw [← hloc]
  refine ⟨loc, ?_⟩
  rw [Profiler.foldl_relateTest, hlist]
  split_ifs
  · exact ⟨_, rfl, rfl, i, Profiler.mem_addTestIndex.mpr (.inr hi), hfailing.append⟩
  · exact ⟨list, rfl, rfl, i, hi, hfailing.append⟩

private theorem keys_covered (hfailing : call.isPassing = false) {text : String}
    (htext : text ∈ (call.trace.map locToString).toFinset) :
    ∃ loc list, locToString loc = text ∧
      call.trace.foldl (Profiler.relateTest call.testIndex call.isPassing)
        profiler.relatedTestIndexes loc = some list ∧
      ∃ i ∈ list, FailingIndex (calls ++ [call]) i := by
  obtain ⟨loc, hmem, rfl⟩ := List.mem_map.mp (List.mem_toFinset.mp htext)
  refine ⟨loc, ?_⟩
  rw [Profiler.foldl_relateTest, if_pos hmem]
  exact ⟨_, rfl, rfl, call.testIndex, Profiler.mem_addTestIndex.mpr (.inl rfl),
    call, by simp, rfl, hfailing⟩

private theorem merge (h : RelatedTests calls profiler)
    (hfresh : ∀ other ∈ calls, other.testIndex ≠ call.testIndex) :
    RelatedTests (calls ++ [call])
      (profiler.mergeTrace call.testIndex call.isPassing call.trace) := by
  constructor
  · intro loc list hlist
    rcases profiler.mergeTrace_relatedTestIndexes call.testIndex call.isPassing call.trace
      loc with heq | ⟨-, -, hnone⟩
    · rw [heq] at hlist
      exact h.lists_relate hfresh hlist
    · rw [hnone] at hlist
      cases hlist
  · intro text htext
    simp only [Profiler.mergeTrace] at htext ⊢
    split_ifs at htext ⊢ with hpassing hempty
    · exact h.keys_relate call htext
    · exact keys_covered (by simpa using hpassing) htext
    · -- what is erased is not covered, and what stays interesting is covered
      obtain ⟨hold, hcovered⟩ := Finset.mem_filter.mp htext
      obtain ⟨loc, list, rfl, hlist, hcontains⟩ := h.keys_relate call hold
      exact ⟨loc, list, rfl, (if_pos hcovered).trans hlist, hcontains⟩

private theorem plausible_passes (h : RelatedTests calls profiler) {tests : List String}
    {status : PatchID → String → TestStatus} {patch : Patch}
    (hinteresting : locToString patch.app.location ∈ profiler.interestingLocations)
    (haccepted : Plausible tests
      (fun loc => (profiler.getProfile.relatedTestIndexes loc).getD []) status patch) :
    ∃ i, FailingIndex calls i ∧
      ∀ test, tests[i]? = some test → status patch.id test = .pass := by
  obtain ⟨loc, list, hloc, hlist, i, hi, hfailing⟩ := h.keys _ hinteresting
  cases locToString_injective hloc
  refine ⟨i, hfailing, haccepted i ?_⟩
  have hkept : profiler.getProfile.relatedTestIndexes patch.app.location = some list :=
    (if_pos hinteresting).trans hlist
  simpa [hkept] using hi

end RelatedTests

end Step

/-! ## Every state reached -/

theorem mergeTraces_relatedTests (calls : List MergedTrace)
    (hdistinct : (calls.map (·.testIndex)).Nodup) (reached : List MergedTrace)
    (hreached : reached <+: calls) :
    RelatedTests reached (mergeTraces reached) ∧
      ∀ tests status patch,
        locToString patch.app.location ∈ (mergeTraces reached).interestingLocations →
        Plausible tests
          (fun loc => ((mergeTraces reached).getProfile.relatedTestIndexes loc).getD [])
          status patch →
        ∃ i, FailingIndex reached i ∧
          ∀ test, tests[i]? = some test → status patch.id test = .pass := by
  suffices h : RelatedTests reached (mergeTraces reached) from
    ⟨h, fun _ _ _ => h.plausible_passes⟩
  replace hdistinct := hdistinct.sublist (hreached.sublist.map (·.testIndex))
  clear hreached
  induction reached using List.reverseRecOn with
  | nil => exact .empty
  | append_singleton reached call ih =>
      rw [List.map_append, List.nodup_append] at hdistinct
      obtain ⟨hbefore, -, hfresh⟩ := hdistinct
      rw [mergeTraces_append_singleton]
      refine (ih hbefore).merge fun other hother => ?_
      exact hfresh _ (List.mem_map_of_mem hother) _ (by simp)

/-- A passing test comes between two failing ones. -/
def interleavedTraces : List MergedTrace :=
  [⟨2, false, [firstLine, secondLine]⟩, ⟨0, true, [secondLine]⟩, ⟨1, false, [secondLine]⟩]

theorem mergeTraces_relatedTests_interleavedTraces :
    RelatedTests interleavedTraces (mergeTraces interleavedTraces) ∧
      (mergeTraces interleavedTraces).relatedTestIndexes secondLine = some [1, 2, 0] :=
  ⟨(mergeTraces_relatedTests interleavedTraces (by decide) interleavedTraces
    (List.prefix_refl _)).1, by decide +kernel⟩

end F1X
