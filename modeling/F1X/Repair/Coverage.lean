import F1X.Library.MoveToFront
import F1X.Repair.PlainSearch

/-!
# What the coverage set holds

With test equivalence and semantic differences on, an execution adds an entry for
its test, and what is skipped has one already.  So the tests with an entry are
those that the explored candidates reach in the original order of their related
tests, although neither the order nor the executions are those of a plain search.
-/

namespace F1X

open Library

section Reached

variable (tests : List String) (related : Location → List Nat)
  (status : PatchID → String → TestStatus) (patch : Patch)

def fails (i : Nat) : Bool :=
  tests[i]?.any fun test => status patch.id test ≠ .pass

/-- The related tests up to the first one that the patch fails. -/
def reached : List Nat :=
  through (fails tests status patch) (related patch.app.location)

def passesRelated : Bool :=
  (related patch.app.location).all fun i => !fails tests status patch i

def Related (test : String) : Prop :=
  ∃ i ∈ related patch.app.location, tests[i]? = some test

end Reached

theorem fails_iff {tests : List String} {status : PatchID → String → TestStatus}
    {patch : Patch} {i : Nat} {test : String} (htest : tests[i]? = some test) :
    fails tests status patch i = true ↔ status patch.id test ≠ .pass := by
  simp [fails, htest]

theorem fails_eq_false_iff {tests : List String} {status : PatchID → String → TestStatus}
    {patch : Patch} {i : Nat} {test : String} (htest : tests[i]? = some test) :
    fails tests status patch i = false ↔ status patch.id test = .pass := by
  simp [fails, htest]

theorem passesRelated_iff_fails {tests : List String} {related : Location → List Nat}
    {status : PatchID → String → TestStatus} {patch : Patch} :
    passesRelated tests related status patch = true ↔
      ∀ i ∈ related patch.app.location, fails tests status patch i = false := by
  simp [passesRelated]

private theorem passesRelated_iff {tests : List String} {related : Location → List Nat}
    {status : PatchID → String → TestStatus} {patch : Patch} :
    passesRelated tests related status patch = true ↔
      Plausible tests related status patch := by
  rw [passesRelated_iff_fails]
  refine forall_congr' fun i => forall_congr' fun _ => ?_
  cases htest : tests[i]? with
  | none => simp [fails, htest]
  | some test => simp [fails, htest]

private theorem prioritizeTest_append (passed testOrder : List Nat) (i : Nat) :
    prioritizeTest (passed ++ i :: testOrder) passed.length =
      some (i :: (passed ++ testOrder)) := by
  simp [prioritizeTest, List.eraseIdx_append_of_length_le]

namespace SearchEngine

variable {ω : Type}

def HasEntry (engine : SearchEngine ω) (test : String) : Prop :=
  ∃ id, (engine.coverageSet test id).isSome

def Grows (engine after : SearchEngine ω) : Prop :=
  ∀ test id, (engine.coverageSet test id).isSome → (after.coverageSet test id).isSome

theorem HasEntry.mono {engine after : SearchEngine ω} {test : String}
    (h : engine.HasEntry test) (hgrows : Grows engine after) : after.HasEntry test := by
  obtain ⟨id, hid⟩ := h
  exact ⟨id, hgrows test id hid⟩

section Entries

variable {cfg : Config} {harness : TestHarness ω} {searchSpace : List Patch}
  {tests : List String} {related : Location → List Nat}
  {status : PatchID → String → TestStatus}

/-- What is remembered is true, and there is an entry for all that is known to pass. -/
structure Recorded (searchSpace : List Patch) (tests : List String)
    (related : Location → List Nat) (status : PatchID → String → TestStatus)
    (engine : SearchEngine ω) : Prop
    extends Consistent searchSpace tests related status engine where
  covered : ∀ test, ∀ id ∈ engine.passing test, (engine.coverageSet test id).isSome
  keys : ∀ test id, (engine.coverageSet test id).isSome →
    ∃ patch ∈ searchSpace, patch.id = id ∧ Related tests related patch test

theorem Recorded.outside {engine : SearchEngine ω}
    (h : Recorded searchSpace tests related status engine) (stat : SearchStatistics)
    (world : ω) :
    Recorded searchSpace tests related status
      { engine with stat := stat, world := world } :=
  ⟨h.toConsistent.outside stat world, h.covered, h.keys⟩

/-- The candidates whose results an execution also decides. -/
def Decided (harness : TestHarness ω) (elem : Patch) (test : String) (engine : SearchEngine ω)
    (id : PatchID) : Prop :=
  id = elem.id ∨ id ∈ harness.getPartition
    (harness.execute (environment elem) test
      (harness.setPartition (engine.partitionable elem.app.id) engine.world)).2

/-- What one execution adds to the sets. -/
structure Adds (test : String) (passAll : Bool) (decided : PatchID → Prop)
    (engine executed : SearchEngine ω) : Prop where
  coverage : ∀ other id, (executed.coverageSet other id).isSome ↔
    (engine.coverageSet other id).isSome ∨ other = test ∧ decided id
  passing : ∀ other id, id ∈ executed.passing other ↔
    id ∈ engine.passing other ∨ passAll = true ∧ other = test ∧ decided id
  failing : ∀ id, id ∈ executed.failing ↔
    id ∈ engine.failing ∨ passAll = false ∧ decided id

theorem Adds.outside {test : String} {passAll : Bool} {decided : PatchID → Prop}
    {engine executed : SearchEngine ω} {stat : SearchStatistics} {world : ω}
    (h : Adds test passAll decided { engine with stat := stat, world := world } executed) :
    Adds test passAll decided engine executed :=
  ⟨h.coverage, h.passing, h.failing⟩

private theorem recordPartition_adds (hdiff : cfg.patchPrioritization = .semanticDiff) (index : Nat)
    (elem : Patch) (test : String) (passAll : Bool) (engine : SearchEngine ω) :
    Adds test passAll
      (fun id => id = elem.id ∨ id ∈ harness.getPartition engine.world) engine
      (engine.recordPartition cfg harness index elem test passAll) where
  coverage := by
    intro other id
    have hset : (engine.recordPartition cfg harness index elem test passAll).coverageSet =
        Function.update engine.coverageSet test fun id =>
          if id = elem.id ∨ id ∈ harness.getPartition engine.world then
            some (harness.extractAndSaveCoverage (test ++ "_" ++ toString index ++ ".xml")
              engine.world)
          else engine.coverageSet test id := by
      cases passAll <;> simp only [recordPartition, hdiff, if_true, Bool.false_eq_true, if_false]
    rw [hset]
    by_cases hother : other = test
    · subst hother
      rw [Function.update_self]
      split_ifs with hid
      · simp [hid]
      · simp [hid]
    · simp [hother]
  passing := by
    intro other id
    cases passAll with
    | true =>
        by_cases hother : other = test
        · subst hother
          simp only [recordPartition, if_true, Function.update_self, Finset.mem_union,
            Finset.mem_insert, true_and]
          rw [or_right_comm, or_comm]
        · simp [recordPartition, hother]
    | false => simp [recordPartition]
  failing := by
    intro id
    cases passAll with
    | true => simp [recordPartition]
    | false =>
        simp only [recordPartition, Bool.false_eq_true, if_false, Finset.mem_union,
          Finset.mem_insert, true_and]
        rw [or_right_comm, or_comm]

private theorem executeTest_adds (hteq : cfg.valueTEQ = true)
    (hdiff : cfg.patchPrioritization = .semanticDiff) {index : Nat} {elem : Patch}
    {test : String} {passAll : Bool} {engine executed : SearchEngine ω}
    (h : engine.executeTest cfg harness index elem test = (passAll, executed)) :
    Adds test passAll (Decided harness elem test engine) engine executed := by
  simp only [executeTest, hteq, if_true, Prod.mk.injEq] at h
  obtain ⟨rfl, rfl⟩ := h
  exact (recordPartition_adds hdiff index elem test _ _).outside

/-! ## One candidate -/

/-- What is remembered once the tests in `ran` are executed, or known to pass, for `elem`. -/
structure Extends (searchSpace : List Patch) (tests : List String)
    (related : Location → List Nat) (status : PatchID → String → TestStatus)
    (ran : List Nat) (elem : Patch) (engine after : SearchEngine ω) : Prop where
  recorded : Recorded searchSpace tests related status after
  grows : Grows engine after
  entries : ∀ test, after.HasEntry test →
    engine.HasEntry test ∨ ∃ i ∈ ran, tests[i]? = some test
  covered : ∀ i ∈ ran, ∃ test, tests[i]? = some test ∧
    (after.coverageSet test elem.id).isSome
  failing : ∀ patch ∈ searchSpace, patch.id ∈ after.failing → patch.id ∈ engine.failing ∨
    patch.app.location = elem.app.location ∧ ∃ i ∈ ran, fails tests status patch i = true

theorem Extends.refl {elem : Patch} {engine : SearchEngine ω}
    (h : Recorded searchSpace tests related status engine) :
    Extends searchSpace tests related status [] elem engine engine where
  recorded := h
  grows := fun _ _ hid => hid
  entries := fun _ htest => .inl htest
  covered := by simp
  failing := fun _ _ hid => .inl hid

theorem Extends.trans {ran ran' : List Nat} {elem : Patch}
    {engine between after : SearchEngine ω}
    (h : Extends searchSpace tests related status ran elem engine between)
    (h' : Extends searchSpace tests related status ran' elem between after) :
    Extends searchSpace tests related status (ran ++ ran') elem engine after where
  recorded := h'.recorded
  grows := fun test id hid => h'.grows test id (h.grows test id hid)
  entries := by
    intro test htest
    rcases h'.entries test htest with hbetween | ⟨i, hi, hget⟩
    · rcases h.entries test hbetween with hold | ⟨i, hi, hget⟩
      · exact .inl hold
      · exact .inr ⟨i, List.mem_append_left _ hi, hget⟩
    · exact .inr ⟨i, List.mem_append_right _ hi, hget⟩
  covered := by
    intro i hi
    rcases List.mem_append.mp hi with hi | hi
    · obtain ⟨test, htest, hcovered⟩ := h.covered i hi
      exact ⟨test, htest, h'.grows test elem.id hcovered⟩
    · exact h'.covered i hi
  failing := by
    intro patch hpatch hid
    rcases h'.failing patch hpatch hid with hbetween | ⟨hlocation, i, hi, hfails⟩
    · rcases h.failing patch hpatch hbetween with hold | ⟨hlocation, i, hi, hfails⟩
      · exact .inl hold
      · exact .inr ⟨hlocation, i, List.mem_append_left _ hi, hfails⟩
    · exact .inr ⟨hlocation, i, List.mem_append_right _ hi, hfails⟩

theorem Extends.skip {elem : Patch} {engine : SearchEngine ω} {i : Nat} {test : String}
    (h : Recorded searchSpace tests related status engine) (htest : tests[i]? = some test)
    (hskip : elem.id ∈ engine.passing test) :
    Extends searchSpace tests related status [i] elem engine engine where
  recorded := h
  grows := fun _ _ hid => hid
  entries := fun _ htest => .inl htest
  covered := by simpa [htest] using h.covered test elem.id hskip
  failing := fun _ _ hid => .inl hid

theorem Extends.reorder {ran reordered : List Nat} {elem : Patch} {location : Location}
    {engine after : SearchEngine ω}
    (h : Extends searchSpace tests related status ran elem engine after)
    (hperm : reordered.Perm (after.relatedTestIndexes location)) :
    Extends searchSpace tests related status ran elem engine
      { after with
        relatedTestIndexes := Function.update after.relatedTestIndexes location reordered } where
  recorded := ⟨h.recorded.toConsistent.reorder hperm, h.recorded.covered, h.recorded.keys⟩
  grows := h.grows
  entries := h.entries
  covered := h.covered
  failing := h.failing

/-- What the loop over `testOrder` leaves when it starts with `passed` behind it. -/
structure RanTests (searchSpace : List Patch) (tests : List String)
    (related : Location → List Nat) (status : PatchID → String → TestStatus) (elem : Patch)
    (passed testOrder : List Nat) (passAll : Bool) (engine after : SearchEngine ω) : Prop where
  extended : Extends searchSpace tests related status
    (through (fails tests status elem) testOrder) elem engine after
  passes : passAll = true ↔ ∀ i ∈ testOrder, fails tests status elem i = false
  reordered : ∃ searched suffix,
    testOrder = through (fails tests status elem) testOrder ++ suffix ∧
      searched.Perm (passed ++ through (fails tests status elem) testOrder) ∧
      after.relatedTestIndexes =
        Function.update engine.relatedTestIndexes elem.app.location (searched ++ suffix)

theorem RanTests.cons {elem : Patch} {passed testOrder : List Nat} {i : Nat} {passAll : Bool}
    {engine between after : SearchEngine ω} (hpass : fails tests status elem i = false)
    (hone : Extends searchSpace tests related status [i] elem engine between)
    (hrelated : between.relatedTestIndexes = engine.relatedTestIndexes)
    (h : RanTests searchSpace tests related status elem (passed ++ [i]) testOrder passAll
      between after) :
    RanTests searchSpace tests related status elem passed (i :: testOrder) passAll
      engine after := by
  have hthrough : through (fails tests status elem) (i :: testOrder) =
      i :: through (fails tests status elem) testOrder := by
    rw [through, hpass]
    rfl
  obtain ⟨searched, suffix, hsplit, hperm, hupdate⟩ := h.reordered
  refine ⟨?_, ?_, searched, suffix, ?_, ?_, ?_⟩
  · rw [hthrough]
    exact hone.trans h.extended
  · rw [List.forall_mem_cons, h.passes]
    simp [hpass]
  · rw [hthrough, List.cons_append, ← hsplit]
  · rw [hthrough]
    simpa using hperm
  · rw [hupdate, hrelated]

theorem RanTests.stop {elem : Patch} {passed testOrder searched : List Nat} {i : Nat}
    {engine after : SearchEngine ω} (hfails : fails tests status elem i = true)
    (hone : Extends searchSpace tests related status [i] elem engine after)
    (hperm : searched.Perm (passed ++ [i]))
    (hupdate : after.relatedTestIndexes =
      Function.update engine.relatedTestIndexes elem.app.location (searched ++ testOrder)) :
    RanTests searchSpace tests related status elem passed (i :: testOrder) false
      engine after := by
  have hthrough : through (fails tests status elem) (i :: testOrder) = [i] := by
    rw [through, hfails]
    rfl
  refine ⟨?_, by simp [hfails], searched, testOrder, ?_, ?_, hupdate⟩
  · rwa [hthrough]
  · rw [hthrough]
    rfl
  · rwa [hthrough]

/-! ## The explored candidates -/

/--
The tests of the location that the candidates in `seen` reach are a front of the
original order, and all of them have entries.
-/
def SearchedAt (searchSpace : List Patch) (tests : List String)
    (related : Location → List Nat) (status : PatchID → String → TestStatus)
    (seen : List Patch) (engine : SearchEngine ω) (location : Location) : Prop :=
  ∃ done, Reordered (related location) (engine.relatedTestIndexes location) done ∧
    (∀ i ∈ done, ∃ test, tests[i]? = some test ∧ engine.HasEntry test) ∧
    ∀ patch ∈ searchSpace, patch.app.location = location →
      patch ∈ seen ∨ patch.id ∈ engine.failing → reached tests related status patch ⊆ done

/-- The entries after the candidates in `seen` were executed or skipped. -/
structure Explored (searchSpace : List Patch) (tests : List String)
    (related : Location → List Nat) (status : PatchID → String → TestStatus)
    (seen : List Patch) (engine : SearchEngine ω) : Prop
    extends Recorded searchSpace tests related status engine where
  sound : ∀ test, engine.HasEntry test →
    ∃ patch ∈ seen, ∃ i ∈ reached tests related status patch, tests[i]? = some test
  complete : ∀ location, SearchedAt searchSpace tests related status seen engine location

theorem create_explored (table : Location → Option (List Nat)) (world : ω) :
    Explored searchSpace tests (fun location => (table location).getD []) status []
      (create tests (getPartitionable searchSpace) table world) where
  toConsistent := create_consistent table world
  covered := by simp [create]
  keys := by simp [create]
  sound := by simp [HasEntry, create]
  complete := fun location => ⟨[], .refl _, by simp, by simp [create]⟩

section Explored

variable {seen : List Patch} {engine after : SearchEngine ω} {elem : Patch} {passAll : Bool}

theorem Explored.outside (h : Explored searchSpace tests related status seen engine)
    (stat : SearchStatistics) (world : ω) :
    Explored searchSpace tests related status seen
      { engine with stat := stat, world := world } :=
  ⟨h.toRecorded.outside stat world, h.sound, h.complete⟩

/-- A test has an entry exactly if one of these candidates reaches it in the original order. -/
theorem Explored.hasEntry_iff (h : Explored searchSpace tests related status seen engine)
    (hseen : seen ⊆ searchSpace) (test : String) :
    engine.HasEntry test ↔
      ∃ patch ∈ seen, ∃ i ∈ reached tests related status patch, tests[i]? = some test := by
  refine ⟨h.sound test, ?_⟩
  rintro ⟨patch, hpatch, i, hi, htest⟩
  obtain ⟨done, -, hentries, hreached⟩ := h.complete patch.app.location
  obtain ⟨other, hother, hentry⟩ :=
    hentries i (hreached patch (hseen hpatch) rfl (.inl hpatch) hi)
  rw [htest] at hother
  rwa [Option.some.inj hother]

/-- A candidate that is known to fail reaches only tests that have entries. -/
theorem Explored.skip (h : Explored searchSpace tests related status seen engine)
    (hskip : elem.id ∈ engine.failing) :
    Explored searchSpace tests related status (seen ++ [elem]) engine where
  toRecorded := h.toRecorded
  sound := by
    intro test htest
    obtain ⟨patch, hpatch, hreaches⟩ := h.sound test htest
    exact ⟨patch, List.mem_append_left _ hpatch, hreaches⟩
  complete := by
    intro location
    obtain ⟨done, hreordered, hentries, hreached⟩ := h.complete location
    refine ⟨done, hreordered, hentries, fun patch hpatch hlocation hknown => ?_⟩
    refine hreached patch hpatch hlocation (hknown.elim (fun hmem => ?_) .inr)
    rcases List.mem_append.mp hmem with hseen | hnew
    · exact .inl hseen
    · rw [List.mem_singleton.mp hnew]
      exact .inr hskip

theorem SearchedAt.next
    (h : SearchedAt searchSpace tests related status seen engine elem.app.location)
    (hran : RanTests searchSpace tests related status elem []
      (engine.relatedTestIndexes elem.app.location) passAll engine after) :
    SearchedAt searchSpace tests related status (seen ++ [elem]) after elem.app.location := by
  obtain ⟨searched, suffix, hsplit, hperm, hupdate⟩ := hran.reordered
  obtain ⟨done, hreordered, hentries, hreached⟩ := h
  obtain ⟨done', hreordered', hcurrent, horiginal⟩ := hreordered.search hsplit hperm
  refine ⟨done', ?_, fun i hi => ?_, fun patch hpatch hlocation hknown => ?_⟩
  · rwa [hupdate, Function.update_self]
  · rcases (hcurrent i).mp hi with hdone | hnew
    · obtain ⟨test, htest, hentry⟩ := hentries i hdone
      exact ⟨test, htest, hentry.mono hran.extended.grows⟩
    · obtain ⟨test, htest, hcovered⟩ := hran.extended.covered i hnew
      exact ⟨test, htest, elem.id, hcovered⟩
  · have hold (hknown : patch ∈ seen ∨ patch.id ∈ engine.failing) :
        reached tests related status patch ⊆ done' :=
      fun i hi => (hcurrent i).mpr (.inl (hreached patch hpatch hlocation hknown hi))
    rcases hknown with hmem | hfailing
    · rcases List.mem_append.mp hmem with hseen | hnew
      · exact hold (.inl hseen)
      · rw [List.mem_singleton.mp hnew]
        exact fun i hi => (horiginal i).mpr (.inr hi)
    · rcases hran.extended.failing patch hpatch hfailing with hbefore | ⟨-, i, hi, hfails⟩
      · exact hold (.inr hbefore)
      · rw [reached, hlocation]
        exact hreordered'.through_subset ⟨i, (hcurrent i).mpr (.inr hi), hfails⟩

theorem SearchedAt.other {location : Location}
    (h : SearchedAt searchSpace tests related status seen engine location)
    (hother : location ≠ elem.app.location)
    (hran : RanTests searchSpace tests related status elem []
      (engine.relatedTestIndexes elem.app.location) passAll engine after) :
    SearchedAt searchSpace tests related status (seen ++ [elem]) after location := by
  obtain ⟨searched, suffix, -, -, hupdate⟩ := hran.reordered
  obtain ⟨done, hreordered, hentries, hreached⟩ := h
  refine ⟨done, ?_, fun i hi => ?_, fun patch hpatch hlocation hknown => ?_⟩
  · rwa [hupdate, Function.update_of_ne hother]
  · obtain ⟨test, htest, hentry⟩ := hentries i hi
    exact ⟨test, htest, hentry.mono hran.extended.grows⟩
  · refine hreached patch hpatch hlocation (hknown.imp (fun hmem => ?_) fun hfailing => ?_)
    · rcases List.mem_append.mp hmem with hseen | hnew
      · exact hseen
      · rw [List.mem_singleton.mp hnew] at hlocation
        exact absurd hlocation.symm hother
    · rcases hran.extended.failing patch hpatch hfailing with hbefore | ⟨hsame, -⟩
      · exact hbefore
      · exact absurd (hlocation.symm.trans hsame) hother

theorem Explored.next (h : Explored searchSpace tests related status seen engine)
    (hran : RanTests searchSpace tests related status elem []
      (engine.relatedTestIndexes elem.app.location) passAll engine after) :
    Explored searchSpace tests related status (seen ++ [elem]) after where
  toRecorded := hran.extended.recorded
  sound := by
    intro test htest
    have hold (hentry : engine.HasEntry test) :
        ∃ patch ∈ seen ++ [elem], ∃ i ∈ reached tests related status patch,
          tests[i]? = some test := by
      obtain ⟨patch, hpatch, hreaches⟩ := h.sound test hentry
      exact ⟨patch, List.mem_append_left _ hpatch, hreaches⟩
    rcases hran.extended.entries test htest with hentry | ⟨i, hi, hget⟩
    · exact hold hentry
    · obtain ⟨searched, suffix, hsplit, hperm, -⟩ := hran.reordered
      obtain ⟨done, hreordered, hentries, -⟩ := h.complete elem.app.location
      obtain ⟨done', -, hcurrent, horiginal⟩ := hreordered.search hsplit hperm
      -- what is searched in the current order only has an entry already
      rcases (horiginal i).mp ((hcurrent i).mpr (.inr hi)) with hdone | hnew
      · obtain ⟨other, hother, hentry⟩ := hentries i hdone
        rw [hget] at hother
        exact hold (Option.some.inj hother ▸ hentry)
      · exact ⟨elem, List.mem_append_right _ (List.mem_singleton_self _), i, hnew, hget⟩
  complete := by
    intro location
    by_cases hother : location = elem.app.location
    · subst hother
      exact (h.complete elem.app.location).next hran
    · exact (h.complete location).other hother hran

end Explored

variable (cfg) (hids : (searchSpace.map Patch.id).Nodup)
  (hlocations : ∀ p ∈ searchSpace, ∀ q ∈ searchSpace,
    p.app.id = q.app.id → p.app.location = q.app.location)
  (hfaithful : harness.Faithful searchSpace status)
  (hteq : cfg.valueTEQ = true) (hdiff : cfg.patchPrioritization = .semanticDiff)

include hids hlocations hfaithful hteq hdiff

private theorem executeTest_extends {engine : SearchEngine ω} {elem : Patch} {test : String}
    {i : Nat} (index : Nat) (h : Recorded searchSpace tests related status engine)
    (helem : elem ∈ searchSpace) (hi : i ∈ related elem.app.location)
    (htest : tests[i]? = some test) :
    ∃ passAll executed,
      engine.executeTest cfg harness index elem test = (passAll, executed) ∧
        fails tests status elem i = !passAll ∧
        executed.relatedTestIndexes = engine.relatedTestIndexes ∧
        Extends searchSpace tests related status [i] elem engine executed := by
  obtain ⟨passAll, executed, hexecute, hstatus, hconsistent, hrelated⟩ :=
    executeTest_spec cfg hids hlocations hfaithful index h.toConsistent helem hi htest
  have hadds := executeTest_adds hteq hdiff hexecute
  have hside (patch : Patch) (hpatch : patch ∈ searchSpace)
      (hdecided : Decided harness elem test engine patch.id) :
      patch.app.location = elem.app.location ∧
        (status patch.id test = .pass ↔ status elem.id test = .pass) := by
    rw [Decided, h.partitionable_eq] at hdecided
    exact mem_partition hids hlocations hfaithful helem hpatch hdecided
  have hknown (id : PatchID) (hdecided : Decided harness elem test engine id) :
      ∃ patch ∈ searchSpace, patch.id = id := by
    rcases hdecided with rfl | hmem
    · exact ⟨elem, helem, rfl⟩
    · rw [h.partitionable_eq] at hmem
      obtain ⟨hpartitionable, -⟩ := hfaithful.getPartition elem helem test engine.world id hmem
      obtain ⟨patch, hpatch, hid, -⟩ := mem_getPartitionable.mp hpartitionable
      exact ⟨patch, hpatch, hid⟩
  refine ⟨passAll, executed, hexecute, ?_, hrelated, ⟨⟨hconsistent, ?_, ?_⟩, ?_, ?_, ?_, ?_⟩⟩
  · cases passAll with
    | true => exact (fails_eq_false_iff htest).mpr (hstatus.mp rfl)
    | false => exact (fails_iff htest).mpr fun hpass => Bool.false_ne_true (hstatus.mpr hpass)
  · intro other id hid
    rw [hadds.coverage]
    rcases (hadds.passing other id).mp hid with hold | ⟨-, hnew⟩
    · exact .inl (h.covered other id hold)
    · exact .inr hnew
  · intro other id hid
    rcases (hadds.coverage other id).mp hid with hold | ⟨rfl, hdecided⟩
    · exact h.keys other id hold
    · obtain ⟨patch, hpatch, rfl⟩ := hknown id hdecided
      exact ⟨patch, hpatch, rfl, i, by rwa [(hside patch hpatch hdecided).1], htest⟩
  · exact fun other id hid => (hadds.coverage other id).mpr (.inl hid)
  · rintro other ⟨id, hid⟩
    rcases (hadds.coverage other id).mp hid with hold | ⟨rfl, -⟩
    · exact .inl ⟨id, hold⟩
    · exact .inr ⟨i, List.mem_singleton_self i, htest⟩
  · rintro j hj
    obtain rfl := List.mem_singleton.mp hj
    exact ⟨test, htest, (hadds.coverage test elem.id).mpr (.inr ⟨rfl, .inl rfl⟩)⟩
  · intro patch hpatch hid
    rcases (hadds.failing patch.id).mp hid with hold | ⟨rfl, hdecided⟩
    · exact .inl hold
    · obtain ⟨hlocation, hiff⟩ := hside patch hpatch hdecided
      refine .inr ⟨hlocation, i, List.mem_singleton_self i, ?_⟩
      rw [fails_iff htest, Ne, hiff, ← hstatus]
      exact Bool.false_ne_true

private theorem runTests_extends {elem : Patch} {index : Nat} (helem : elem ∈ searchSpace)
    {passed testOrder : List Nat} {engine after : SearchEngine ω} {passAll : Bool}
    (h : Recorded searchSpace tests related status engine)
    (horder : engine.relatedTestIndexes elem.app.location = passed ++ testOrder)
    (hrun : engine.runTests cfg harness index elem passed.length testOrder true =
      some (passAll, after)) :
    RanTests searchSpace tests related status elem passed testOrder passAll engine after := by
  induction testOrder generalizing passed engine with
  | nil =>
      obtain ⟨rfl, rfl⟩ := Prod.mk.inj (Option.some.inj hrun)
      refine ⟨.refl h, by simp, passed, [], rfl, by simp [through], ?_⟩
      rw [← horder, Function.update_eq_self]
  | cons i testOrder ih =>
      have hi : i ∈ related elem.app.location :=
        (h.perm _).mem_iff.mp (by simp [horder])
      rw [runTests] at hrun
      obtain ⟨test, htest, hrun⟩ := Option.bind_eq_some_iff.mp hrun
      rw [h.tests_eq] at htest
      have hnext {between : SearchEngine ω}
          (hone : Extends searchSpace tests related status [i] elem engine between)
          (hrelated : between.relatedTestIndexes = engine.relatedTestIndexes)
          (hrest : between.runTests cfg harness index elem (passed.length + 1) testOrder true =
            some (passAll, after)) :
          RanTests searchSpace tests related status elem (passed ++ [i]) testOrder passAll
            between after := by
        refine ih hone.recorded ?_ (by simpa using hrest)
        simp [hrelated, horder]
      by_cases hskip : cfg.valueTEQ = true ∧ elem.id ∈ engine.passing test
      · rw [if_pos hskip] at hrun
        have hpass : fails tests status elem i = false :=
          (fails_eq_false_iff htest).mpr (h.passing elem helem test hskip.2)
        have hone := Extends.skip h htest hskip.2
        exact (hnext hone rfl hrun).cons hpass hone rfl
      · rw [if_neg hskip] at hrun
        obtain ⟨passes, executed, hexecute, hfails, hrelated, hone⟩ :=
          executeTest_extends cfg hids hlocations hfaithful hteq hdiff index h helem hi htest
        rw [hexecute] at hrun
        cases passes with
        | true => exact (hnext hone hrelated hrun).cons hfails hone hrelated
        | false =>
            have hprioritize : prioritizeTest
                (executed.relatedTestIndexes elem.app.location) passed.length =
                  some (i :: (passed ++ testOrder)) := by
              rw [hrelated, horder, prioritizeTest_append]
            dsimp only at hrun
            rw [if_neg Bool.false_ne_true, hprioritize] at hrun
            -- the failing test is moved to the front, or the order stays as it is
            split_ifs at hrun with hmax
            · obtain ⟨rfl, rfl⟩ := Prod.mk.inj (Option.some.inj hrun)
              refine .stop hfails (hone.reorder ?_) (List.perm_append_singleton i passed).symm ?_
              · rw [hrelated, horder]
                exact List.perm_middle.symm
              · rw [hrelated, List.cons_append]
            · obtain ⟨rfl, rfl⟩ := Prod.mk.inj (Option.some.inj hrun)
              refine .stop hfails hone .rfl ?_
              rw [List.append_assoc, List.singleton_append, ← horder,
                Function.update_eq_self, hrelated]

/-! ## The search -/

def CoveredAll (tests : List String) (related : Location → List Nat) (engine : SearchEngine ω)
    (patch : Patch) : Prop :=
  ∀ test, Related tests related patch test → (engine.coverageSet test patch.id).isSome

omit hids hlocations hfaithful hteq hdiff in
theorem CoveredAll.mono {engine after : SearchEngine ω} {patch : Patch}
    (h : CoveredAll tests related engine patch) (hgrows : Grows engine after) :
    CoveredAll tests related after patch :=
  fun test htest => hgrows test patch.id (h test htest)

structure Found (searchSpace : List Patch) (tests : List String)
    (related : Location → List Nat) (status : PatchID → String → TestStatus)
    (start hit : Nat) (engine after : SearchEngine ω) : Prop where
  explored : Explored searchSpace tests related status (searchSpace.take (hit + 1)) after
  next : IsNext (passesRelated tests related status · = true) searchSpace start hit
  grows : Grows engine after
  covered : ∀ patch, searchSpace[hit]? = some patch → CoveredAll tests related after patch

omit hids hlocations hfaithful hteq hdiff in
private theorem RanTests.coveredAll {elem : Patch} {passAll : Bool} {engine after : SearchEngine ω}
    (hperm : (engine.relatedTestIndexes elem.app.location).Perm (related elem.app.location))
    (h : RanTests searchSpace tests related status elem []
      (engine.relatedTestIndexes elem.app.location) passAll engine after)
    (hpass : passAll = true) : CoveredAll tests related after elem := by
  rintro test ⟨i, hi, htest⟩
  have hcovered := h.extended.covered
  rw [through_eq_self (h.passes.mp hpass)] at hcovered
  obtain ⟨other, hother, hid⟩ := hcovered i (hperm.mem_iff.mpr hi)
  rw [htest] at hother
  rwa [Option.some.inj hother]

private theorem findNextFrom_found {rest : List Patch} {index hit : Nat}
    {engine after : SearchEngine ω}
    (h : Explored searchSpace tests related status (searchSpace.take index) engine)
    (hindex : index ≤ searchSpace.length) (hrest : searchSpace.drop index = rest)
    (hrun : engine.findNextFrom cfg harness index rest = some (hit, after)) :
    Found searchSpace tests related status index hit engine after := by
  induction rest generalizing index engine with
  | nil =>
      have hend : index = searchSpace.length :=
        Nat.le_antisymm hindex (List.drop_eq_nil_iff.mp hrest)
      subst hend
      obtain ⟨rfl, rfl⟩ := Prod.mk.inj (Option.some.inj hrun)
      refine ⟨?_, .atEnd, fun _ _ hid => hid, by simp⟩
      rw [List.take_length] at h
      rwa [List.take_of_length_le (Nat.le_succ _)]
  | cons elem rest ih =>
      have hget : searchSpace[index]? = some elem := by
        rw [← List.head?_drop, hrest, List.head?_cons]
      obtain ⟨hlt, -⟩ := List.getElem?_eq_some_iff.mp hget
      have helem : elem ∈ searchSpace := List.mem_of_getElem? hget
      have htail : searchSpace.drop (index + 1) = rest := by
        rw [← List.tail_drop, hrest, List.tail_cons]
      have htake : searchSpace.take (index + 1) = searchSpace.take index ++ [elem] := by
        rw [List.take_add_one, hget]
        rfl
      have hexplored := h.outside
        { engine.stat with explorationCounter := engine.stat.explorationCounter + 1 }
        engine.world
      have hnext {between : SearchEngine ω}
          (hbetween : Explored searchSpace tests related status
            (searchSpace.take index ++ [elem]) between) (hgrows : Grows engine between)
          (hfails : ¬ passesRelated tests related status elem = true)
          (hrest : between.findNextFrom cfg harness (index + 1) rest = some (hit, after)) :
          Found searchSpace tests related status index hit engine after := by
        rw [← htake] at hbetween
        obtain ⟨hafter, hhit, hlater, hcovered⟩ := ih hbetween hlt htail hrest
        exact ⟨hafter, hhit.skip hget hfails,
          fun test id hid => hlater test id (hgrows test id hid), hcovered⟩
      rw [findNextFrom] at hrun
      dsimp only at hrun
      by_cases hskip : cfg.valueTEQ = true ∧ elem.id ∈ engine.failing
      · rw [if_pos hskip] at hrun
        refine hnext (hexplored.skip hskip.2) (fun _ _ hid => hid) ?_ hrun
        rw [passesRelated_iff]
        exact h.failing elem helem hskip.2
      · rw [if_neg hskip] at hrun
        obtain ⟨⟨passAll, executed⟩, htests, hrun⟩ := Option.bind_eq_some_iff.mp hrun
        have hran := runTests_extends cfg hids hlocations hfaithful hteq hdiff helem
          hexplored.toRecorded (List.nil_append _).symm htests
        have hpasses : passAll = true ↔ passesRelated tests related status elem = true := by
          rw [hran.passes, passesRelated_iff_fails]
          exact forall_congr' fun i => by rw [(h.perm _).mem_iff]
        dsimp only at hrun
        cases passAll with
        | true =>
            obtain ⟨rfl, rfl⟩ := Prod.mk.inj (Option.some.inj hrun)
            refine ⟨?_, .here hget (hpasses.mp rfl), hran.extended.grows, ?_⟩
            · rw [htake]
              exact hexplored.next hran
            · intro patch hpatch
              rw [hget] at hpatch
              rw [← Option.some.inj hpatch]
              exact hran.coveredAll (hexplored.perm _) rfl
        | false =>
            refine hnext (hexplored.next hran) hran.extended.grows ?_ hrun
            rw [← hpasses]
            exact Bool.false_ne_true

theorem findNext_found {start hit : Nat} {engine after : SearchEngine ω}
    (h : Explored searchSpace tests related status (searchSpace.take start) engine)
    (hstart : start ≤ searchSpace.length)
    (hrun : engine.findNext cfg harness searchSpace start = some (hit, after)) :
    Found searchSpace tests related status start hit engine after :=
  findNextFrom_found cfg hids hlocations hfaithful hteq hdiff h hstart rfl hrun

end Entries

end SearchEngine

end F1X
