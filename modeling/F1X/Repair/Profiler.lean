import F1X.Core
import F1X.Library.Names
import F1X.Library.RunningIntersection
import Mathlib.Data.Finset.Dedup

/-!
# Profiling

Which locations are interesting and which tests reach them, from
`repair/Profiler.cpp` and the profiling loop of `repair/Repair.cpp`.  The map
`relatedTestIndexes` is a partial function, the trace file a list of locations.
-/

namespace F1X

open Library

/-! ## Locations as text -/

def locToString (loc : Location) : String :=
  toString loc.fileId ++ " " ++ toString loc.beginLine ++ " " ++
    toString loc.beginColumn ++ " " ++ toString loc.endLine ++ " " ++
    toString loc.endColumn

theorem append_space_inj {front front' : String} {n n' : Nat}
    (h : front ++ " " ++ toString n = front' ++ " " ++ toString n') :
    front = front' ∧ n = n' := by
  have hlist : front.toList ++ ' ' :: (toString n).toList =
      front'.toList ++ ' ' :: (toString n').toList := by
    simpa using congrArg String.toList h
  have hspace : ∀ k : Nat, ' ' ∉ (toString k).toList := notMem_toString rfl
  obtain ⟨hfront, hback⟩ := append_separator_inj (hspace n) (hspace n') hlist
  exact ⟨String.toList_injective hfront, toString_injective (String.toList_injective hback)⟩

theorem locToString_injective : Function.Injective locToString := by
  rintro ⟨fileId, beginLine, beginColumn, endLine, endColumn⟩
    ⟨fileId', beginLine', beginColumn', endLine', endColumn'⟩ h
  obtain ⟨h, hendColumn⟩ := append_space_inj h
  obtain ⟨h, hendLine⟩ := append_space_inj h
  obtain ⟨h, hbeginColumn⟩ := append_space_inj h
  obtain ⟨h, hbeginLine⟩ := append_space_inj h
  rw [Location.mk.injEq]
  exact ⟨toString_injective h, hbeginLine, hbeginColumn, hendLine, hendColumn⟩

/-! ## The profiler -/

structure Profiler where
  relatedTestIndexes : Location → Option (List Nat)
  interestingLocations : Finset String

namespace Profiler

def empty : Profiler where
  relatedTestIndexes := fun _ => none
  interestingLocations := ∅

/-- Failing tests go to the beginning of the list, passing ones to its end. -/
def addTestIndex (testIndex : Nat) (isPassing : Bool) (current : List Nat) : List Nat :=
  if testIndex ∈ current then current
  else if isPassing then current ++ [testIndex]
  else testIndex :: current

def relateTest (testIndex : Nat) (isPassing : Bool)
    (relatedTestIndexes : Location → Option (List Nat)) (loc : Location) :
    Location → Option (List Nat) :=
  Function.update relatedTestIndexes loc
    (some (addTestIndex testIndex isPassing ((relatedTestIndexes loc).getD [])))

def mergeTrace (profiler : Profiler) (testIndex : Nat) (isPassing : Bool)
    (trace : List Location) : Profiler :=
  let related := trace.foldl (relateTest testIndex isPassing) profiler.relatedTestIndexes
  let covered := (trace.map locToString).toFinset
  if isPassing then
    { profiler with relatedTestIndexes := related }
  -- the empty set also stands for "no failing test has been merged yet"
  else if profiler.interestingLocations = ∅ then
    { relatedTestIndexes := related, interestingLocations := covered }
  else
    { relatedTestIndexes := fun loc =>
        if locToString loc ∈ covered then related loc else none
      interestingLocations := profiler.interestingLocations.filter (· ∈ covered) }

/-- `getProfile` without the profile file, whose lines are `interestingLocations`. -/
def getProfile (profiler : Profiler) : Profiler :=
  { profiler with
    relatedTestIndexes := fun loc =>
      if locToString loc ∈ profiler.interestingLocations then
        profiler.relatedTestIndexes loc
      else none }

end Profiler

structure ProfiledTest where
  trace : List Location
  status : TestStatus
  deriving DecidableEq, Repr

namespace ProfiledTest

def isPassing (test : ProfiledTest) : Bool := test.status = .pass

end ProfiledTest

/-- The loop of `repair` over the tests, `mergeTrace` called once for each index. -/
def profileTests (tests : List ProfiledTest) : Profiler :=
  tests.zipIdx.foldl
    (fun profiler entry => profiler.mergeTrace entry.2 entry.1.isPassing entry.1.trace)
    Profiler.empty

theorem profileTests_append_singleton (tests : List ProfiledTest) (test : ProfiledTest) :
    profileTests (tests ++ [test]) =
      (profileTests tests).mergeTrace tests.length test.isPassing test.trace := by
  simp [profileTests, List.zipIdx_append]

/-! ## One merged trace -/

namespace Profiler

@[simp]
theorem mem_addTestIndex {testIndex i : Nat} {isPassing : Bool} {current : List Nat} :
    i ∈ addTestIndex testIndex isPassing current ↔ i = testIndex ∨ i ∈ current := by
  simp only [addTestIndex]
  split_ifs with hmem hpassing
  · constructor
    · exact .inr
    · rintro (rfl | h)
      · exact hmem
      · exact h
  · simp [or_comm]
  · simp

theorem nodup_addTestIndex {testIndex : Nat} {isPassing : Bool} {current : List Nat}
    (h : current.Nodup) : (addTestIndex testIndex isPassing current).Nodup := by
  simp only [addTestIndex]
  split_ifs with hmem hpassing
  · exact h
  · exact List.nodup_append_comm.mp (List.nodup_cons.mpr ⟨hmem, h⟩)
  · exact List.nodup_cons.mpr ⟨hmem, h⟩

theorem foldl_relateTest (testIndex : Nat) (isPassing : Bool) (trace : List Location)
    (table : Location → Option (List Nat)) (loc : Location) :
    trace.foldl (relateTest testIndex isPassing) table loc =
      if loc ∈ trace then some (addTestIndex testIndex isPassing ((table loc).getD []))
      else table loc := by
  induction trace generalizing table with
  | nil => simp
  | cons line trace ih =>
      rw [List.foldl_cons, ih]
      by_cases hline : loc = line
      · subst hline
        by_cases htrace : loc ∈ trace
        · have hadded (current : List Nat) :
              addTestIndex testIndex isPassing (addTestIndex testIndex isPassing current) =
                addTestIndex testIndex isPassing current :=
            if_pos (mem_addTestIndex.mpr (.inl rfl))
          simp [htrace, relateTest, hadded]
        · simp [htrace, relateTest]
      · simp [relateTest, hline]

theorem covered_eq (trace : List Location) :
    (trace.map locToString).toFinset = trace.toFinset.image locToString := by
  ext text
  simp

theorem mem_covered {trace : List Location} {loc : Location} :
    locToString loc ∈ (trace.map locToString).toFinset ↔ loc ∈ trace := by
  rw [covered_eq, locToString_injective.mem_finset_image, List.mem_toFinset]

variable (profiler : Profiler) (testIndex : Nat) (isPassing : Bool) (trace : List Location)

private theorem mergeTrace_interestingLocations :
    (profiler.mergeTrace testIndex isPassing trace).interestingLocations =
      if isPassing then profiler.interestingLocations
      else restart profiler.interestingLocations (trace.toFinset.image locToString) := by
  simp only [mergeTrace, restart, ← covered_eq]
  split_ifs with hpassing hempty
  · rfl
  · rfl
  · ext text
    simp

theorem mergeTrace_relatedTestIndexes (loc : Location) :
    (profiler.mergeTrace testIndex isPassing trace).relatedTestIndexes loc =
        trace.foldl (relateTest testIndex isPassing) profiler.relatedTestIndexes loc ∨
      isPassing = false ∧ loc ∉ trace ∧
        (profiler.mergeTrace testIndex isPassing trace).relatedTestIndexes loc = none := by
  simp only [mergeTrace]
  split_ifs with hpassing hempty
  · exact .inl rfl
  · exact .inl rfl
  · by_cases hmem : loc ∈ trace
    · exact .inl (if_pos (mem_covered.mpr hmem))
    · refine .inr ⟨by simpa using hpassing, hmem, ?_⟩
      exact if_neg (fun h => hmem (mem_covered.mp h))

end Profiler

/-! ## The whole loop -/

def ReachedByFailing (tests : List ProfiledTest) (loc : Location) : Prop :=
  ∀ test ∈ tests, test.status ≠ .pass → loc ∈ test.trace

def Reaches (tests : List ProfiledTest) (loc : Location) (i : Nat) : Prop :=
  ∃ test, tests[i]? = some test ∧ loc ∈ test.trace

def failingTraces (tests : List ProfiledTest) : List (Finset Location) :=
  (tests.filter (!·.isPassing)).map (·.trace.toFinset)

theorem mem_common_failingTraces {tests : List ProfiledTest} {loc : Location} :
    loc ∈ common (failingTraces tests) ↔ ReachedByFailing tests loc := by
  rw [mem_common, failingTraces, List.forall_mem_map]
  simp [ReachedByFailing, ProfiledTest.isPassing]

private theorem failingTraces_append_singleton (tests : List ProfiledTest) (test : ProfiledTest) :
    failingTraces (tests ++ [test]) =
      if test.isPassing then failingTraces tests
      else failingTraces tests ++ [test.trace.toFinset] := by
  cases hpassing : test.isPassing <;> simp [failingTraces, hpassing]

theorem reaches_append_singleton {tests : List ProfiledTest} {test : ProfiledTest}
    {loc : Location} {i : Nat} :
    Reaches (tests ++ [test]) loc i ↔
      Reaches tests loc i ∨ i = tests.length ∧ loc ∈ test.trace := by
  simp only [Reaches]
  rcases lt_trichotomy i tests.length with hlt | rfl | hgt
  · rw [List.getElem?_append_left hlt]
    simp [hlt.ne]
  · simp
  · rw [List.getElem?_eq_none (by simp; omega), List.getElem?_eq_none (by omega)]
    simp [hgt.ne']

theorem profileTests_interestingLocations (tests : List ProfiledTest) :
    (profileTests tests).interestingLocations =
      (runningIntersection (failingTraces tests)).image locToString := by
  induction tests using List.reverseRecOn with
  | nil => rfl
  | append_singleton tests test ih =>
      rw [profileTests_append_singleton, Profiler.mergeTrace_interestingLocations, ih,
        failingTraces_append_singleton]
      cases hpassing : test.isPassing with
      | true => rfl
      | false =>
          have hrunning := runningIntersection_image locToString_injective
            (failingTraces tests ++ [test.trace.toFinset])
          rw [List.map_append, List.map_singleton, runningIntersection_append_singleton,
            runningIntersection_image locToString_injective] at hrunning
          simpa using hrunning

structure Tabulated (tests : List ProfiledTest)
    (table : Location → Option (List Nat)) : Prop where
  nodup : ∀ loc list, table loc = some list → list.Nodup
  sound : ∀ loc list, table loc = some list → ∀ i ∈ list, Reaches tests loc i
  complete : ∀ loc, ReachedByFailing tests loc →
    ∀ i, Reaches tests loc i → ∃ list, table loc = some list ∧ i ∈ list

namespace Tabulated

variable {tests : List ProfiledTest} {test : ProfiledTest}
  {table smaller : Location → Option (List Nat)}

private theorem relate (h : Tabulated tests table) :
    Tabulated (tests ++ [test])
      (test.trace.foldl (Profiler.relateTest tests.length test.isPassing) table) := by
  have hcurrent (loc : Location) (i : Nat) (hi : i ∈ (table loc).getD []) :
      Reaches tests loc i := by
    cases hlist : table loc with
    | none => simp [hlist] at hi
    | some list => exact h.sound loc list hlist i (by simpa [hlist] using hi)
  constructor
  · intro loc list hlist
    rw [Profiler.foldl_relateTest] at hlist
    split_ifs at hlist with hmem
    · cases hlist
      apply Profiler.nodup_addTestIndex
      cases hcurrent : table loc with
      | none => exact List.nodup_nil
      | some current => exact h.nodup loc current hcurrent
    · exact h.nodup loc list hlist
  · intro loc list hlist i hi
    rw [Profiler.foldl_relateTest] at hlist
    rw [reaches_append_singleton]
    split_ifs at hlist with hmem
    · cases hlist
      rcases Profiler.mem_addTestIndex.mp hi with rfl | hold
      · exact .inr ⟨rfl, hmem⟩
      · exact .inl (hcurrent loc i hold)
    · exact .inl (h.sound loc list hlist i hi)
  · intro loc hfailing i hreaches
    have hbefore : ReachedByFailing tests loc := fun other hother =>
      hfailing other (List.mem_append_left _ hother)
    rw [Profiler.foldl_relateTest]
    rcases reaches_append_singleton.mp hreaches with hold | ⟨rfl, hmem⟩
    · obtain ⟨list, hlist, hi⟩ := h.complete loc hbefore i hold
      rw [hlist]
      split_ifs with hmem
      · exact ⟨_, rfl, Profiler.mem_addTestIndex.mpr (.inr hi)⟩
      · exact ⟨list, rfl, hi⟩
    · rw [if_pos hmem]
      exact ⟨_, rfl, Profiler.mem_addTestIndex.mpr (.inl rfl)⟩

theorem erase (h : Tabulated tests table)
    (hsmaller : ∀ loc, smaller loc = table loc ∨
      ¬ ReachedByFailing tests loc ∧ smaller loc = none) :
    Tabulated tests smaller := by
  have hle {loc : Location} {list : List Nat} (hlist : smaller loc = some list) :
      table loc = some list := by
    rcases hsmaller loc with heq | ⟨-, hnone⟩
    · rw [← heq, hlist]
    · rw [hnone] at hlist
      cases hlist
  constructor
  · intro loc list hlist
    exact h.nodup loc list (hle hlist)
  · intro loc list hlist
    exact h.sound loc list (hle hlist)
  · intro loc hfailing
    rcases hsmaller loc with heq | ⟨hmissed, -⟩
    · rw [heq]
      exact h.complete loc hfailing
    · exact absurd hfailing hmissed

end Tabulated

theorem profileTests_tabulated (tests : List ProfiledTest) :
    Tabulated tests (profileTests tests).relatedTestIndexes := by
  induction tests using List.reverseRecOn with
  | nil =>
      constructor
      · intro loc list h
        cases h
      · intro loc list h
        cases h
      · rintro loc - i ⟨test, htest, -⟩
        simp at htest
  | append_singleton tests test ih =>
      rw [profileTests_append_singleton]
      refine ih.relate.erase fun loc => ?_
      rcases (profileTests tests).mergeTrace_relatedTestIndexes tests.length
        test.isPassing test.trace loc with heq | ⟨hfailing, hmissed, hnone⟩
      · exact .inl heq
      · refine .inr ⟨fun hreached => hmissed (hreached test (by simp) ?_), hnone⟩
        simpa [ProfiledTest.isPassing] using hfailing

/-! ## Exact profiles -/

structure ExactProfile (tests : List ProfiledTest) (profiler : Profiler) : Prop where
  interesting : ∀ text, text ∈ profiler.interestingLocations ↔
    ∃ loc, ReachedByFailing tests loc ∧ locToString loc = text
  keys : ∀ loc, (profiler.relatedTestIndexes loc).isSome ↔ ReachedByFailing tests loc
  lists : ∀ loc list, profiler.relatedTestIndexes loc = some list →
    ∀ i, i ∈ list ↔ Reaches tests loc i

private theorem exactProfile_of_interesting {tests : List ProfiledTest}
    (hfailing : ∃ test ∈ tests, test.status ≠ .pass)
    (h : ∀ loc, loc ∈ runningIntersection (failingTraces tests) ↔
      ReachedByFailing tests loc) :
    ExactProfile tests (profileTests tests).getProfile := by
  have hinteresting (loc : Location) :
      locToString loc ∈ (profileTests tests).interestingLocations ↔
        ReachedByFailing tests loc := by
    rw [profileTests_interestingLocations, locToString_injective.mem_finset_image, h]
  have htable : Tabulated tests (profileTests tests).getProfile.relatedTestIndexes := by
    refine (profileTests_tabulated tests).erase fun loc => ?_
    by_cases hreached : ReachedByFailing tests loc
    · exact .inl (if_pos ((hinteresting loc).mpr hreached))
    · exact .inr ⟨hreached, if_neg (fun hmem => hreached ((hinteresting loc).mp hmem))⟩
  have hkeys (loc : Location) :
      ((profileTests tests).getProfile.relatedTestIndexes loc).isSome →
        ReachedByFailing tests loc := by
    intro hsome
    by_contra hreached
    have hnone : (profileTests tests).getProfile.relatedTestIndexes loc = none :=
      if_neg (fun hmem => hreached ((hinteresting loc).mp hmem))
    simp [hnone] at hsome
  constructor
  · intro text
    simp only [Profiler.getProfile, profileTests_interestingLocations, Finset.mem_image, h]
  · intro loc
    refine ⟨hkeys loc, fun hreached => ?_⟩
    obtain ⟨test, hmem, hstatus⟩ := hfailing
    obtain ⟨i, hi⟩ := List.mem_iff_getElem?.mp hmem
    obtain ⟨list, hlist, -⟩ :=
      htable.complete loc hreached i ⟨test, hi, hreached test hmem hstatus⟩
    simp [hlist]
  · intro loc list hlist i
    refine ⟨htable.sound loc list hlist i, fun hreaches => ?_⟩
    obtain ⟨list', hlist', hi⟩ :=
      htable.complete loc (hkeys loc (by simp [hlist])) i hreaches
    rw [hlist] at hlist'
    cases hlist'
    exact hi

/--
Profiling is exact when the failing traces have a location in common, or else
when every fresh start of the intersection used up its run.
-/
theorem getProfile_exact_iff (tests : List ProfiledTest)
    (hfailing : ∃ test ∈ tests, test.status ≠ .pass) :
    ExactProfile tests (profileTests tests).getProfile ↔
      (common (failingTraces tests)).Nonempty ∨ Exhausted (failingTraces tests) := by
  have hne : failingTraces tests ≠ [] := by
    obtain ⟨test, hmem, hstatus⟩ := hfailing
    simpa [failingTraces, ProfiledTest.isPassing] using ⟨test, hmem, hstatus⟩
  rw [← runningIntersection_eq_common_iff hne]
  constructor
  · intro hexact loc
    rw [mem_common_failingTraces, ← locToString_injective.mem_finset_image,
      ← profileTests_interestingLocations]
    apply (hexact.interesting (locToString loc)).trans
    constructor
    · rintro ⟨other, hreached, htext⟩
      rwa [← locToString_injective htext]
    · intro hreached
      exact ⟨loc, hreached, rfl⟩
  · intro h
    refine exactProfile_of_interesting hfailing fun loc => ?_
    rw [h loc, mem_common_failingTraces]

/-! ## A fresh start in the middle -/

def firstLine : Location :=
  { fileId := 0, beginLine := 1, beginColumn := 1, endLine := 1, endColumn := 2 }

def secondLine : Location :=
  { fileId := 0, beginLine := 2, beginColumn := 1, endLine := 2, endColumn := 2 }

/-- Three failing tests; the first and the third reach only the first line. -/
def alternatingTests : List ProfiledTest :=
  [⟨[firstLine], .fail⟩, ⟨[secondLine], .fail⟩, ⟨[firstLine], .fail⟩]

theorem alternatingTests_inexact :
    (∃ test ∈ alternatingTests, test.status ≠ .pass) ∧
      ¬ ExactProfile alternatingTests (profileTests alternatingTests).getProfile := by
  refine ⟨by decide, fun hexact => ?_⟩
  have hreached := (hexact.keys firstLine).mp (by decide +kernel)
  have hmem := hreached ⟨[secondLine], .fail⟩ (by decide) (by decide)
  exact absurd hmem (by decide)

theorem getProfile_exact_iff_alternatingTests :
    (∃ test ∈ alternatingTests, test.status ≠ .pass) ∧
      (ExactProfile alternatingTests (profileTests alternatingTests).getProfile ↔
        (common (failingTraces alternatingTests)).Nonempty ∨
          Exhausted (failingTraces alternatingTests)) :=
  ⟨by decide, getProfile_exact_iff alternatingTests (by decide)⟩

end F1X
