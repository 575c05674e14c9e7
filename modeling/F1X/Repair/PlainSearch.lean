import F1X.Library.Names
import F1X.Repair.SearchEngine
import Mathlib.Data.Finset.Filter
import Mathlib.Data.List.Forall2

/-!
# The memoised search is the plain search

What the engine remembers is true of every patch it is remembered for, and
reordering only permutes the test lists.  So each call of `findNext` returns the
next patch that passes its related tests, whatever the configuration.
-/

namespace F1X

open Library

def Plausible (tests : List String) (related : Location → List Nat)
    (status : PatchID → String → TestStatus) (patch : Patch) : Prop :=
  ∀ i ∈ related patch.app.location, ∀ test, tests[i]? = some test →
    status patch.id test = .pass

/--
Executions have a fixed status, and a partition read after one holds only
patches of the same application on the same side of the test.
-/
structure TestHarness.Faithful {ω : Type} (harness : TestHarness ω)
    (searchSpace : List Patch) (status : PatchID → String → TestStatus) : Prop where
  execute : ∀ patch ∈ searchSpace, ∀ test world,
    (harness.execute (environment patch) test world).1 = status patch.id test
  getPartition : ∀ patch ∈ searchSpace, ∀ test world,
    let before := harness.setPartition
      (getPartitionable searchSpace patch.app.id) world
    let after := (harness.execute (environment patch) test before).2
    ∀ id ∈ harness.getPartition after,
      id ∈ getPartitionable searchSpace patch.app.id ∧
        (status id test = .pass ↔ status patch.id test = .pass)

/--
The same of the worlds that the engine prepares under one configuration: with
test equivalence on, the partition of the application is set before a test.
-/
structure TestHarness.FaithfulUnder {ω : Type} (cfg : Config) (harness : TestHarness ω)
    (searchSpace : List Patch) (status : PatchID → String → TestStatus) : Prop where
  execute : ∀ patch ∈ searchSpace, ∀ test world,
    (harness.execute (environment patch) test
      (if cfg.valueTEQ then
        harness.setPartition (getPartitionable searchSpace patch.app.id) world
      else world)).1 = status patch.id test
  getPartition : cfg.valueTEQ = true → ∀ patch ∈ searchSpace, ∀ test world,
    let before := harness.setPartition
      (getPartitionable searchSpace patch.app.id) world
    let after := (harness.execute (environment patch) test before).2
    ∀ id ∈ harness.getPartition after,
      id ∈ getPartitionable searchSpace patch.app.id ∧
        (status id test = .pass ↔ status patch.id test = .pass)

theorem TestHarness.Faithful.under {ω : Type} {harness : TestHarness ω}
    {searchSpace : List Patch} {status : PatchID → String → TestStatus}
    (h : harness.Faithful searchSpace status) (cfg : Config) :
    harness.FaithfulUnder cfg searchSpace status where
  execute := fun patch hpatch test _ => h.execute patch hpatch test _
  getPartition := fun _ => h.getPartition

theorem mem_getPartitionable {searchSpace : List Patch} {app : AppID} {id : PatchID} :
    id ∈ getPartitionable searchSpace app ↔
      ∃ patch ∈ searchSpace, patch.id = id ∧ patch.app.id = app := by
  have hloop (result : AppID → Finset PatchID) :
      id ∈ searchSpace.foldl
          (fun result el =>
            Function.update result el.app.id (insert el.id (result el.app.id)))
          result app ↔
        id ∈ result app ∨ ∃ patch ∈ searchSpace, patch.id = id ∧ patch.app.id = app := by
    induction searchSpace generalizing result with
    | nil => simp
    | cons el searchSpace ih =>
        rw [List.foldl_cons, ih]
        by_cases happ : app = el.app.id
        · subst happ
          simp only [Function.update_self, Finset.mem_insert, List.mem_cons,
            exists_eq_or_imp, and_true]
          rw [eq_comm, or_comm (a := el.id = id), or_assoc]
        · rw [Function.update_of_ne happ]
          simp [Ne.symm happ]
  rw [getPartitionable, hloop]
  simp

theorem getPartitionable_perm {searchSpace reordered : List Patch}
    (h : reordered.Perm searchSpace) :
    getPartitionable reordered = getPartitionable searchSpace := by
  funext app
  ext id
  simp only [mem_getPartitionable, h.mem_iff]

theorem TestHarness.Faithful.perm {ω : Type} {harness : TestHarness ω}
    {searchSpace reordered : List Patch} {status : PatchID → String → TestStatus}
    (hfaithful : harness.Faithful searchSpace status) (h : reordered.Perm searchSpace) :
    harness.Faithful reordered status where
  execute := fun patch hpatch => hfaithful.execute patch (h.mem_iff.mp hpatch)
  getPartition := by
    rw [getPartitionable_perm h]
    exact fun patch hpatch => hfaithful.getPartition patch (h.mem_iff.mp hpatch)

theorem TestHarness.FaithfulUnder.perm {ω : Type} {cfg : Config} {harness : TestHarness ω}
    {searchSpace reordered : List Patch} {status : PatchID → String → TestStatus}
    (hfaithful : harness.FaithfulUnder cfg searchSpace status)
    (h : reordered.Perm searchSpace) :
    harness.FaithfulUnder cfg reordered status where
  execute := by
    rw [getPartitionable_perm h]
    exact fun patch hpatch => hfaithful.execute patch (h.mem_iff.mp hpatch)
  getPartition := by
    rw [getPartitionable_perm h]
    exact fun hteq patch hpatch => hfaithful.getPartition hteq patch (h.mem_iff.mp hpatch)

private theorem prioritizeTest_perm {testOrder : List Nat} {index : Nat}
    (h : index < testOrder.length) :
    ∃ prioritized, prioritizeTest testOrder index = some prioritized ∧
      prioritized.Perm testOrder := by
  refine ⟨testOrder[index] :: testOrder.eraseIdx index, ?_,
    List.getElem_cons_eraseIdx_perm h⟩
  simp [prioritizeTest, List.getElem?_eq_getElem h]

namespace SearchEngine

section Soundness

variable {ω : Type} {cfg : Config} {harness : TestHarness ω} {searchSpace : List Patch}
  {tests : List String} {related : Location → List Nat}
  {status : PatchID → String → TestStatus}

/-- What the engine remembers is true, and its test lists are the original ones reordered. -/
structure Consistent (searchSpace : List Patch) (tests : List String)
    (related : Location → List Nat) (status : PatchID → String → TestStatus)
    (engine : SearchEngine ω) : Prop where
  tests_eq : engine.tests = tests
  partitionable_eq : engine.partitionable = getPartitionable searchSpace
  failing : ∀ patch ∈ searchSpace, patch.id ∈ engine.failing →
    ¬ Plausible tests related status patch
  passing : ∀ patch ∈ searchSpace, ∀ test, patch.id ∈ engine.passing test →
    status patch.id test = .pass
  perm : ∀ location, (engine.relatedTestIndexes location).Perm (related location)

theorem create_consistent (table : Location → Option (List Nat)) (world : ω) :
    Consistent searchSpace tests (fun location => (table location).getD []) status
      (create tests (getPartitionable searchSpace) table world) where
  tests_eq := rfl
  partitionable_eq := rfl
  failing := by simp [create]
  passing := by simp [create]
  perm := fun _ => .rfl

theorem Consistent.outside {engine : SearchEngine ω}
    (h : Consistent searchSpace tests related status engine) (stat : SearchStatistics)
    (world : ω) :
    Consistent searchSpace tests related status
      { engine with stat := stat, world := world } :=
  ⟨h.tests_eq, h.partitionable_eq, h.failing, h.passing, h.perm⟩

theorem Consistent.reorder {engine : SearchEngine ω} {location : Location}
    {reordered : List Nat} (h : Consistent searchSpace tests related status engine)
    (hperm : reordered.Perm (engine.relatedTestIndexes location)) :
    Consistent searchSpace tests related status
      { engine with
        relatedTestIndexes :=
          Function.update engine.relatedTestIndexes location reordered } := by
  refine ⟨h.tests_eq, h.partitionable_eq, h.failing, h.passing, fun other => ?_⟩
  by_cases hother : other = location
  · subst hother
    simpa using hperm.trans (h.perm other)
  · simpa [hother] using h.perm other

private theorem recordPartition_consistent {engine : SearchEngine ω} {elem : Patch} {test : String}
    {passAll : Bool} {i : Nat} (index : Nat)
    (h : Consistent searchSpace tests related status engine)
    (hi : i ∈ related elem.app.location) (htest : tests[i]? = some test)
    (hside : ∀ patch ∈ searchSpace,
      patch.id = elem.id ∨ patch.id ∈ harness.getPartition engine.world →
        patch.app.location = elem.app.location ∧
          (status patch.id test = .pass ↔ passAll = true)) :
    Consistent searchSpace tests related status
      (engine.recordPartition cfg harness index elem test passAll) := by
  cases passAll with
  | true =>
      refine ⟨h.tests_eq, h.partitionable_eq, h.failing, ?_, h.perm⟩
      intro patch hpatch other hmem
      simp only [recordPartition, if_true] at hmem
      by_cases hother : other = test
      · subst hother
        rw [Function.update_self, Finset.mem_union, Finset.mem_insert, or_right_comm] at hmem
        rcases hmem with hnew | hold
        · exact (hside patch hpatch hnew).2.mpr rfl
        · exact h.passing patch hpatch other hold
      · rw [Function.update_of_ne hother] at hmem
        exact h.passing patch hpatch other hmem
  | false =>
      refine ⟨h.tests_eq, h.partitionable_eq, ?_, h.passing, h.perm⟩
      intro patch hpatch hmem hpasses
      simp only [recordPartition, Bool.false_eq_true, if_false] at hmem
      rw [Finset.mem_union, Finset.mem_insert, or_right_comm] at hmem
      rcases hmem with hnew | hold
      · obtain ⟨hlocation, hstatus⟩ := hside patch hpatch hnew
        have hpass := hpasses i (by rwa [hlocation]) test htest
        simp [hpass] at hstatus
      · exact h.failing patch hpatch hold hpasses

@[simp]
theorem recordPartition_relatedTestIndexes (engine : SearchEngine ω) (index : Nat)
    (elem : Patch) (test : String) (passAll : Bool) :
    (engine.recordPartition cfg harness index elem test passAll).relatedTestIndexes =
      engine.relatedTestIndexes := by
  cases passAll <;> rfl

section Prepared

variable (cfg) (hids : (searchSpace.map Patch.id).Nodup)
  (hlocations : ∀ p ∈ searchSpace, ∀ q ∈ searchSpace,
    p.app.id = q.app.id → p.app.location = q.app.location)
  (hindexes : ∀ location, ∀ i ∈ related location, i < tests.length)
  (hfaithful : harness.FaithfulUnder cfg searchSpace status)

include hids hlocations hfaithful

theorem mem_prepared_partition {elem patch : Patch} {test : String} {world : ω}
    (hteq : cfg.valueTEQ = true) (helem : elem ∈ searchSpace) (hpatch : patch ∈ searchSpace)
    (hmem : patch.id = elem.id ∨ patch.id ∈ harness.getPartition
      (harness.execute (environment elem) test
        (harness.setPartition (getPartitionable searchSpace elem.app.id) world)).2) :
    patch.app.location = elem.app.location ∧
      (status patch.id test = .pass ↔ status elem.id test = .pass) := by
  rcases hmem with heq | hmem
  · rw [List.inj_on_of_nodup_map hids hpatch helem heq]
    exact ⟨rfl, .rfl⟩
  · obtain ⟨hpartitionable, hside⟩ := hfaithful.getPartition hteq elem helem test world _ hmem
    obtain ⟨other, hother, hid, happ⟩ := mem_getPartitionable.mp hpartitionable
    rw [← List.inj_on_of_nodup_map hids hother hpatch hid]
    rw [← hid] at hside
    exact ⟨hlocations other hother elem helem happ, hside⟩

theorem executeTest_prepared {engine : SearchEngine ω} {elem : Patch} {test : String} {i : Nat}
    (index : Nat) (h : Consistent searchSpace tests related status engine)
    (helem : elem ∈ searchSpace) (hi : i ∈ related elem.app.location)
    (htest : tests[i]? = some test) :
    ∃ passAll executed,
      engine.executeTest cfg harness index elem test = (passAll, executed) ∧
        (passAll = true ↔ status elem.id test = .pass) ∧
        Consistent searchSpace tests related status executed ∧
        executed.relatedTestIndexes = engine.relatedTestIndexes := by
  have hexecute := hfaithful.execute elem helem test engine.world
  rw [← h.partitionable_eq] at hexecute
  refine ⟨_, _, rfl, ?_, ?_, ?_⟩
  · rw [decide_eq_true_iff]
    exact iff_of_eq (congrArg (· = TestStatus.pass) hexecute)
  · split_ifs with hteq
    · rw [if_pos hteq] at hexecute
      apply recordPartition_consistent index (h.outside _ _) hi htest
      intro patch hpatch hmem
      rw [decide_eq_true_iff, hexecute]
      rw [h.partitionable_eq] at hmem
      exact mem_prepared_partition cfg hids hlocations hfaithful hteq helem hpatch hmem
    · exact h.outside _ _
  · split_ifs <;> simp

include hindexes

private theorem runTests_prepared {elem : Patch} (index : Nat) (helem : elem ∈ searchSpace)
    (testOrder done : List Nat) (engine : SearchEngine ω)
    (h : Consistent searchSpace tests related status engine)
    (horder : engine.relatedTestIndexes elem.app.location = done ++ testOrder) :
    ∃ passAll after,
      engine.runTests cfg harness index elem done.length testOrder true =
        some (passAll, after) ∧
      Consistent searchSpace tests related status after ∧
      (passAll = true ↔ ∀ i ∈ testOrder, ∀ test, tests[i]? = some test →
        status elem.id test = .pass) := by
  induction testOrder generalizing done engine with
  | nil => exact ⟨true, engine, rfl, h, by simp⟩
  | cons i testOrder ih =>
      have hi : i ∈ related elem.app.location :=
        (h.perm _).mem_iff.mp (by simp [horder])
      obtain ⟨test, htest⟩ : ∃ test, tests[i]? = some test :=
        ⟨_, List.getElem?_eq_getElem (hindexes _ i hi)⟩
      simp only [runTests, h.tests_eq, htest, Option.bind_eq_bind, Option.bind_some,
        List.forall_mem_cons, Option.some_inj, forall_eq']
      have hnext (engine : SearchEngine ω)
          (h : Consistent searchSpace tests related status engine)
          (horder : engine.relatedTestIndexes elem.app.location = done ++ i :: testOrder) :=
        ih (done ++ [i]) engine h (by rw [horder, List.append_assoc]; rfl)
      simp only [List.length_append, List.length_singleton] at hnext
      by_cases hskip : cfg.valueTEQ = true ∧ elem.id ∈ engine.passing test
      -- a remembered pass is true, so skipping the test changes nothing
      · obtain ⟨passAll, after, hrun, hafter, hresult⟩ := hnext engine h horder
        have hpass := h.passing elem helem test hskip.2
        exact ⟨passAll, after, by rw [if_pos hskip, hrun], hafter, by simp [hpass, hresult]⟩
      · obtain ⟨passAll, executed, hexecute, hstatus, hexecuted, hrelated⟩ :=
          executeTest_prepared cfg hids hlocations hfaithful index h helem hi htest
        rw [if_neg hskip, hexecute]
        cases passAll with
        | true =>
            obtain ⟨passAll, after, hrun, hafter, hresult⟩ :=
              hnext executed hexecuted (by rw [hrelated, horder])
            refine ⟨passAll, after, by simpa using hrun, hafter, ?_⟩
            simp [hstatus.mp rfl, hresult]
        | false =>
            have hfail : status elem.id test ≠ .pass := fun hpass => by
              simpa using hstatus.mpr hpass
            by_cases hmax : cfg.testPrioritization = .maxFailing
            -- the failing test stands right behind `done` in the list of the location
            · have hlt : done.length <
                  (executed.relatedTestIndexes elem.app.location).length := by
                simp [hrelated, horder]
              obtain ⟨prioritized, hprioritize, hperm⟩ := prioritizeTest_perm hlt
              exact ⟨false, _, by simp [hmax, hprioritize], hexecuted.reorder hperm,
                by simp [hfail]⟩
            · exact ⟨false, executed, by simp [hmax], hexecuted, by simp [hfail]⟩

private theorem findNextFrom_prepared (rest : List Patch) (index : Nat) (engine : SearchEngine ω)
    (h : Consistent searchSpace tests related status engine)
    (hindex : index ≤ searchSpace.length) (hrest : searchSpace.drop index = rest) :
    ∃ hit after,
      engine.findNextFrom cfg harness index rest = some (hit, after) ∧
      Consistent searchSpace tests related status after ∧
      IsNext (Plausible tests related status) searchSpace index hit := by
  induction rest generalizing index engine with
  | nil =>
      have hend : index = searchSpace.length :=
        Nat.le_antisymm hindex (List.drop_eq_nil_iff.mp hrest)
      subst hend
      exact ⟨_, engine, rfl, h, .atEnd⟩
  | cons elem rest ih =>
      have hget : searchSpace[index]? = some elem := by
        rw [← List.head?_drop, hrest, List.head?_cons]
      have helem : elem ∈ searchSpace := List.mem_of_getElem? hget
      have hlt : index < searchSpace.length := (List.getElem?_eq_some_iff.mp hget).1
      have htail : searchSpace.drop (index + 1) = rest := by
        rw [← List.tail_drop, hrest, List.tail_cons]
      have hnext (engine : SearchEngine ω)
          (h : Consistent searchSpace tests related status engine)
          (helem : ¬ Plausible tests related status elem) :
          ∃ hit after,
            engine.findNextFrom cfg harness (index + 1) rest = some (hit, after) ∧
            Consistent searchSpace tests related status after ∧
            IsNext (Plausible tests related status) searchSpace index hit := by
        obtain ⟨hit, after, hrun, hafter, hhit⟩ := ih (index + 1) engine h hlt htail
        exact ⟨hit, after, hrun, hafter, hhit.skip hget helem⟩
      have hexplored : Consistent searchSpace tests related status
          { engine with
            stat := { engine.stat with
              explorationCounter := engine.stat.explorationCounter + 1 } } :=
        h.outside _ _
      simp only [findNextFrom]
      by_cases hskip : cfg.valueTEQ = true ∧ elem.id ∈ engine.failing
      · rw [if_pos hskip]
        exact hnext _ hexplored (h.failing elem helem hskip.2)
      · obtain ⟨passAll, executed, hrun, hexecuted, hresult⟩ :=
          runTests_prepared cfg hids hlocations hindexes hfaithful index helem
            (engine.relatedTestIndexes elem.app.location) [] _ hexplored rfl
        rw [if_neg hskip]
        simp only [List.length_nil] at hrun
        have hpasses : passAll = true ↔ Plausible tests related status elem :=
          hresult.trans (forall_congr' fun i => by rw [(h.perm _).mem_iff])
        cases passAll with
        | true =>
            exact ⟨index, executed, by simp [hrun], hexecuted, .here hget (hpasses.mp rfl)⟩
        | false =>
            simpa [hrun] using hnext executed hexecuted (by simpa using hpasses)

theorem findNext_prepared (start : Nat) (engine : SearchEngine ω)
    (h : Consistent searchSpace tests related status engine)
    (hstart : start ≤ searchSpace.length) :
    ∃ hit after,
      engine.findNext cfg harness searchSpace start = some (hit, after) ∧
      Consistent searchSpace tests related status after ∧
      IsNext (Plausible tests related status) searchSpace start hit :=
  findNextFrom_prepared cfg hids hlocations hindexes hfaithful _ start engine h hstart rfl

theorem findNexts_prepared (starts : List Nat) (engine : SearchEngine ω)
    (h : Consistent searchSpace tests related status engine)
    (hstarts : ∀ start ∈ starts, start ≤ searchSpace.length) :
    ∃ hits after,
      engine.findNexts cfg harness searchSpace starts = some (hits, after) ∧
      List.Forall₂ (IsNext (Plausible tests related status) searchSpace) starts hits := by
  induction starts generalizing engine with
  | nil => exact ⟨[], engine, rfl, .nil⟩
  | cons start starts ih =>
      rw [List.forall_mem_cons] at hstarts
      obtain ⟨hit, between, hfirst, hbetween, hhit⟩ :=
        findNext_prepared cfg hids hlocations hindexes hfaithful start engine h hstarts.1
      obtain ⟨hits, after, hrest, hhits⟩ := ih between hbetween hstarts.2
      exact ⟨hit :: hits, after, by simp [findNexts, hfirst, hrest], .cons hhit hhits⟩

end Prepared

section Faithful

variable (cfg) (hids : (searchSpace.map Patch.id).Nodup)
  (hlocations : ∀ p ∈ searchSpace, ∀ q ∈ searchSpace,
    p.app.id = q.app.id → p.app.location = q.app.location)
  (hindexes : ∀ location, ∀ i ∈ related location, i < tests.length)
  (hfaithful : harness.Faithful searchSpace status)

include hids hlocations hfaithful

theorem mem_partition {elem patch : Patch} {test : String} {world : ω}
    (helem : elem ∈ searchSpace) (hpatch : patch ∈ searchSpace)
    (hmem : patch.id = elem.id ∨ patch.id ∈ harness.getPartition
      (harness.execute (environment elem) test
        (harness.setPartition (getPartitionable searchSpace elem.app.id) world)).2) :
    patch.app.location = elem.app.location ∧
      (status patch.id test = .pass ↔ status elem.id test = .pass) :=
  mem_prepared_partition .default hids hlocations (hfaithful.under .default) rfl helem hpatch
    hmem

theorem executeTest_spec {engine : SearchEngine ω} {elem : Patch} {test : String} {i : Nat}
    (index : Nat) (h : Consistent searchSpace tests related status engine)
    (helem : elem ∈ searchSpace) (hi : i ∈ related elem.app.location)
    (htest : tests[i]? = some test) :
    ∃ passAll executed,
      engine.executeTest cfg harness index elem test = (passAll, executed) ∧
        (passAll = true ↔ status elem.id test = .pass) ∧
        Consistent searchSpace tests related status executed ∧
        executed.relatedTestIndexes = engine.relatedTestIndexes :=
  executeTest_prepared cfg hids hlocations (hfaithful.under cfg) index h helem hi htest

include hindexes

private theorem findNexts_spec (starts : List Nat) (engine : SearchEngine ω)
    (h : Consistent searchSpace tests related status engine)
    (hstarts : ∀ start ∈ starts, start ≤ searchSpace.length) :
    ∃ hits after,
      engine.findNexts cfg harness searchSpace starts = some (hits, after) ∧
      List.Forall₂ (IsNext (Plausible tests related status) searchSpace) starts hits :=
  findNexts_prepared cfg hids hlocations hindexes (hfaithful.under cfg) starts engine h hstarts

end Faithful

end Soundness

/--
Every sequence of calls finds the next plausible patches, and the same ones
under every configuration.
-/
theorem findNexts_plain {ω : Type} (harness : TestHarness ω) (searchSpace : List Patch)
    (tests : List String) (table : Location → Option (List Nat))
    (status : PatchID → String → TestStatus) (world : ω)
    (hids : (searchSpace.map Patch.id).Nodup)
    (hlocations : ∀ p ∈ searchSpace, ∀ q ∈ searchSpace,
      p.app.id = q.app.id → p.app.location = q.app.location)
    (hindexes : ∀ location list, table location = some list → ∀ i ∈ list, i < tests.length)
    (hfaithful : harness.Faithful searchSpace status)
    (starts : List Nat) (hstarts : ∀ start ∈ starts, start ≤ searchSpace.length) :
    ∃ hits,
      List.Forall₂
        (IsNext (Plausible tests (fun location => (table location).getD []) status)
          searchSpace) starts hits ∧
      ∀ cfg,
        ((create tests (getPartitionable searchSpace) table world).findNexts
          cfg harness searchSpace starts).map Prod.fst = some hits := by
  have hrelated : ∀ location, ∀ i ∈ (table location).getD [], i < tests.length := by
    intro location i hi
    cases hlist : table location with
    | none => simp [hlist] at hi
    | some list => exact hindexes location list hlist i (by simpa [hlist] using hi)
  have hcalls (cfg : Config) :=
    findNexts_spec cfg hids hlocations hrelated hfaithful starts _
      (create_consistent table world) hstarts
  obtain ⟨hits, -, -, hhits⟩ := hcalls .default
  refine ⟨hits, hhits, fun cfg => ?_⟩
  obtain ⟨hits', after, hrun, hhits'⟩ := hcalls cfg
  have heq : hits' = hits :=
    List.right_unique_forall₂' (fun _ _ _ hi hj => hi.unique hj) hhits' hhits
  rw [hrun, heq]
  rfl

/-! ## Two patches of one application -/

def twoPatchesApp : SchemaApplication where
  id := 7
  schema := .expression
  location := { fileId := 0, beginLine := 3, beginColumn := 5, endLine := 3, endColumn := 9 }
  context := .unknown
  original := trueNode
  components := []
  completePointeeTypes := []

def twoPatches : List Patch :=
  [{ id := ⟨1, 0, 0, 0, 0⟩, app := twoPatchesApp, modified := falseNode,
     metadata := ⟨.concretization, 1⟩ },
   { id := ⟨2, 0, 0, 0, 0⟩, app := twoPatchesApp, modified := nullNode,
     metadata := ⟨.concretization, 1⟩ }]

def twoPatchesStatus (id : PatchID) (test : String) : TestStatus :=
  if id.base = 1 ∧ test = "n2" then .fail else .pass

/-- The world is the partition buffer; an execution keeps the patches with its own outcome. -/
def twoPatchesHarness : TestHarness (Finset PatchID) where
  execute := fun environment test partition =>
    let status : TestStatus :=
      if environment.lookup "F1X_ID_BASE" = some (toString 1) ∧ test = "n2" then .fail else .pass
    (status, partition.filter fun id => twoPatchesStatus id test = status)
  setPartition := fun ids _ => ids
  getPartition := id
  extractAndSaveCoverage := fun _ _ _ => ∅

theorem twoPatchesHarness_execute (patch : Patch) (test : String)
    (partition : Finset PatchID) :
    twoPatchesHarness.execute (environment patch) test partition =
      (twoPatchesStatus patch.id test,
        partition.filter fun id =>
          twoPatchesStatus id test = twoPatchesStatus patch.id test) := by
  have hlookup : (environment patch).lookup "F1X_ID_BASE" = some (toString patch.id.base) := by
    simp [environment, List.lookup_cons]
  have hbase : toString patch.id.base = toString 1 ↔ patch.id.base = 1 :=
    ⟨toString_injective, congrArg toString⟩
  simp only [twoPatchesHarness, hlookup, Option.some_inj, hbase]
  rfl

theorem twoPatchesHarness_faithful :
    twoPatchesHarness.Faithful twoPatches twoPatchesStatus where
  execute := by
    intro patch hpatch test partition
    rw [twoPatchesHarness_execute]
  getPartition := by
    intro patch hpatch test partition before after id hid
    have hafter : after = before.filter fun id =>
        twoPatchesStatus id test = twoPatchesStatus patch.id test :=
      congrArg Prod.snd (twoPatchesHarness_execute patch test before)
    obtain ⟨hbefore, hstatus⟩ := Finset.mem_filter.mp (hafter ▸ hid)
    exact ⟨hbefore, by rw [hstatus]⟩

theorem findNexts_plain_twoPatches :
    ∃ hits,
      List.Forall₂
        (IsNext (Plausible ["n1", "n2"] (fun _ => [0, 1]) twoPatchesStatus) twoPatches)
        [0, 2] hits ∧
      ∀ cfg,
        ((create ["n1", "n2"] (getPartitionable twoPatches) (fun _ => some [0, 1]) ∅).findNexts
          cfg twoPatchesHarness twoPatches [0, 2]).map Prod.fst = some hits :=
  findNexts_plain twoPatchesHarness twoPatches ["n1", "n2"] (fun _ => some [0, 1])
    twoPatchesStatus ∅ (by decide) (by decide)
    (by
      intro location list hlist
      cases hlist
      decide)
    twoPatchesHarness_faithful [0, 2] (by decide)

end SearchEngine

end F1X
