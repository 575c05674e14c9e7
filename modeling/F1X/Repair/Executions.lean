import F1X.Repair.RuntimeSearch

/-!
# What the search executes

A driver that also writes down what it executes.  With test equivalence on, no
candidate is executed with a test that an equivalent candidate has been executed
with before, in whatever order the search is called.
-/

namespace F1X

open Library generator

/-- The environment and the test of every execution, in order. -/
abbrev ExecutionLog := List (List (String × String) × String)

namespace TestHarness

variable {ω : Type}

def logged (harness : TestHarness ω) : TestHarness (ω × ExecutionLog) where
  execute entries test world :=
    let (status, after) := harness.execute entries test world.1
    (status, after, world.2 ++ [(entries, test)])
  setPartition ids world := (harness.setPartition ids world.1, world.2)
  getPartition world := harness.getPartition world.1
  extractAndSaveCoverage coverageFile world :=
    harness.extractAndSaveCoverage coverageFile world.1

/-- Whoever is the same under a test is read back from the partition after it. -/
def Exact (harness : TestHarness ω) (searchSpace : List Patch)
    (Same : String → Patch → Patch → Prop) : Prop :=
  ∀ p ∈ searchSpace, ∀ test world, ∀ q ∈ searchSpace, Same test p q →
    q.id ∈ harness.getPartition (harness.execute (environment p) test
      (harness.setPartition (getPartitionable searchSpace p.app.id) world)).2

theorem Exact.logged {harness : TestHarness ω} {searchSpace : List Patch}
    {Same : String → Patch → Patch → Prop} (h : harness.Exact searchSpace Same) :
    harness.logged.Exact searchSpace Same :=
  fun p hp test world q hq hsame => h p hp test world.1 q hq hsame

end TestHarness

namespace SearchEngine

section Economy

variable {ω : Type} {cfg : Config} {harness : TestHarness ω} {searchSpace : List Patch}
  {Same : String → Patch → Patch → Prop}

/-- Two executions that tell the search something different. -/
def Distinguished (Same : String → Patch → Patch → Prop) (earlier later : Patch × String) :
    Prop :=
  earlier.2 = later.2 → earlier.1.id ≠ later.1.id ∧ ¬Same earlier.2 earlier.1 later.1

/-- Whoever is the same as an executed candidate is remembered with its result. -/
structure Economical (searchSpace : List Patch) (Same : String → Patch → Patch → Prop)
    (executed : List (Patch × String)) (engine : SearchEngine (ω × ExecutionLog)) :
    Prop where
  partitionable_eq : engine.partitionable = getPartitionable searchSpace
  log : engine.world.2 = executed.map fun e => (environment e.1, e.2)
  counted : engine.stat.executionCounter = executed.length
  mem : ∀ e ∈ executed, e.1 ∈ searchSpace
  distinguished : executed.Pairwise (Distinguished Same)
  remembered : ∀ e ∈ executed, ∀ q ∈ searchSpace, q.id = e.1.id ∨ Same e.2 e.1 q →
    q.id ∈ engine.passing e.2 ∨ q.id ∈ engine.failing

private theorem create_economical (tests : List String) (table : Location → Option (List Nat))
    (world : ω) :
    Economical searchSpace Same []
      (create tests (getPartitionable searchSpace) table (world, [])) where
  partitionable_eq := rfl
  log := rfl
  counted := rfl
  mem := by simp
  distinguished := .nil
  remembered := by simp

theorem Economical.explore {executed : List (Patch × String)}
    {engine : SearchEngine (ω × ExecutionLog)}
    (h : Economical searchSpace Same executed engine) (explorationCounter : Nat)
    (relatedTestIndexes : Location → List Nat) :
    Economical searchSpace Same executed
      { engine with
        stat := { engine.stat with explorationCounter := explorationCounter }
        relatedTestIndexes := relatedTestIndexes } :=
  ⟨h.partitionable_eq, h.log, h.counted, h.mem, h.distinguished, h.remembered⟩

/-! ## One execution -/

section Recording

variable {σ : Type} {recorder : TestHarness σ} {engine : SearchEngine σ} (index : Nat)
  {elem : Patch} {test : String} (passAll : Bool)

@[simp]
theorem recordPartition_partitionable :
    (engine.recordPartition cfg recorder index elem test passAll).partitionable =
      engine.partitionable := by
  cases passAll <;> rfl

@[simp]
theorem recordPartition_world :
    (engine.recordPartition cfg recorder index elem test passAll).world = engine.world := by
  cases passAll <;> rfl

@[simp]
theorem recordPartition_stat :
    (engine.recordPartition cfg recorder index elem test passAll).stat = engine.stat := by
  cases passAll <;> rfl

private theorem recordPartition_remembers {id : PatchID}
    (h : id = elem.id ∨ id ∈ recorder.getPartition engine.world) :
    id ∈ (engine.recordPartition cfg recorder index elem test passAll).passing test ∨
      id ∈ (engine.recordPartition cfg recorder index elem test passAll).failing := by
  cases passAll with
  | true =>
      left
      rcases h with rfl | h <;> simp [recordPartition, *]
  | false =>
      right
      rcases h with rfl | h <;> simp [recordPartition, *]

private theorem recordPartition_keeps {id : PatchID} {other : String}
    (h : id ∈ engine.passing other ∨ id ∈ engine.failing) :
    id ∈ (engine.recordPartition cfg recorder index elem test passAll).passing other ∨
      id ∈ (engine.recordPartition cfg recorder index elem test passAll).failing := by
  cases passAll with
  | true =>
      refine h.imp (fun hpassing => ?_) fun hfailing => hfailing
      by_cases hother : other = test
      · subst hother
        simp [recordPartition, hpassing]
      · simpa [recordPartition, hother] using hpassing
  | false =>
      refine h.imp (fun hpassing => hpassing) fun hfailing => ?_
      simp [recordPartition, hfailing]

theorem executeTest_on (hteq : cfg.valueTEQ = true) :
    let before := recorder.setPartition (engine.partitionable elem.app.id) engine.world
    let done := recorder.execute (environment elem) test before
    engine.executeTest cfg recorder index elem test =
      (decide (done.1 = .pass),
        ({ engine with
            world := done.2
            stat := engine.stat.countExecution done.1 } :
          SearchEngine σ).recordPartition cfg recorder index elem test
            (decide (done.1 = .pass))) := by
  simp [executeTest, hteq]

end Recording

private theorem countExecution_executionCounter (stat : SearchStatistics) (status : TestStatus) :
    (stat.countExecution status).executionCounter = stat.executionCounter + 1 := by
  unfold SearchStatistics.countExecution
  split <;> rfl

variable (hexact : harness.Exact searchSpace Same) (hteq : cfg.valueTEQ = true)

include hexact hteq

private theorem executeTest_economical {executed : List (Patch × String)}
    {engine : SearchEngine (ω × ExecutionLog)}
    (h : Economical searchSpace Same executed engine) (index : Nat) {elem : Patch}
    (helem : elem ∈ searchSpace) {test : String} (hpassing : elem.id ∉ engine.passing test)
    (hfailing : elem.id ∉ engine.failing) :
    Economical searchSpace Same (executed ++ [(elem, test)])
      (engine.executeTest cfg harness.logged index elem test).2 := by
  rw [executeTest_on index hteq]
  refine ⟨?_, ?_, ?_, ?_, ?_, ?_⟩
  · simpa using h.partitionable_eq
  · simp [TestHarness.logged, h.log]
  · simp [countExecution_executionCounter, h.counted]
  · intro e he
    rcases List.mem_append.mp he with he | he
    · exact h.mem e he
    · rw [List.mem_singleton.mp he]
      exact helem
  · refine List.pairwise_append.mpr ⟨h.distinguished, List.pairwise_singleton _ _, ?_⟩
    intro e he later hlater htest
    obtain rfl := List.mem_singleton.mp hlater
    -- the engine would have skipped whoever the earlier execution has decided
    have hnew : ¬(elem.id = e.1.id ∨ Same e.2 e.1 elem) := by
      intro hsame
      rcases h.remembered e he elem helem hsame with hremembered | hremembered
      · rw [show e.2 = test by exact htest] at hremembered
        exact hpassing hremembered
      · exact hfailing hremembered
    exact ⟨fun hid => hnew (.inl hid.symm), fun hsame => hnew (.inr hsame)⟩
  · intro e he q hq hsame
    rcases List.mem_append.mp he with he | he
    · exact recordPartition_keeps index _ (h.remembered e he q hq hsame)
    · obtain rfl := List.mem_singleton.mp he
      apply recordPartition_remembers
      refine hsame.imp id fun hsame => ?_
      rw [h.partitionable_eq]
      exact hexact.logged elem helem test engine.world q hq hsame

omit hexact in
private theorem executeTest_failing {engine : SearchEngine (ω × ExecutionLog)} {index : Nat}
    {elem : Patch} {test : String}
    (hpass : (engine.executeTest cfg harness.logged index elem test).1 = true) :
    (engine.executeTest cfg harness.logged index elem test).2.failing = engine.failing := by
  rw [executeTest_on index hteq] at hpass ⊢
  simp only at hpass
  simp [hpass, recordPartition]

/-! ## Whole runs -/

theorem runTests_economical {index : Nat} {elem : Patch} (helem : elem ∈ searchSpace)
    {testOrder : List Nat} {orderIndex : Nat} {passAll result : Bool}
    {executed : List (Patch × String)} {engine after : SearchEngine (ω × ExecutionLog)}
    (h : Economical searchSpace Same executed engine) (hfailing : elem.id ∉ engine.failing)
    (hrun : engine.runTests cfg harness.logged index elem orderIndex testOrder passAll =
      some (result, after)) :
    ∃ executed, Economical searchSpace Same executed after := by
  induction testOrder generalizing orderIndex passAll executed engine with
  | nil =>
      cases hrun
      exact ⟨executed, h⟩
  | cons testIndex testOrder ih =>
      obtain ⟨test, -, hrun⟩ := Option.bind_eq_some_iff.mp hrun
      by_cases hskip : cfg.valueTEQ = true ∧ elem.id ∈ engine.passing test
      · rw [if_pos hskip] at hrun
        exact ih h hfailing hrun
      · rw [if_neg hskip] at hrun
        have hnext := executeTest_economical hexact hteq h index helem
          (fun hpassing => hskip ⟨hteq, hpassing⟩) hfailing
        cases hpass : (engine.executeTest cfg harness.logged index elem test).1 with
        | true =>
            simp only [hpass, if_true] at hrun
            refine ih hnext ?_ hrun
            rwa [executeTest_failing hteq hpass]
        | false =>
            simp only [hpass, Bool.false_eq_true, if_false] at hrun
            split at hrun
            · obtain ⟨prioritized, -, hrun⟩ := Option.bind_eq_some_iff.mp hrun
              cases hrun
              exact ⟨_, hnext.explore _ _⟩
            · cases hrun
              exact ⟨_, hnext⟩

private theorem findNextFrom_economical {rest : List Patch}
    (hrest : ∀ elem ∈ rest, elem ∈ searchSpace)
    {index hit : Nat} {executed : List (Patch × String)}
    {engine after : SearchEngine (ω × ExecutionLog)}
    (h : Economical searchSpace Same executed engine)
    (hrun : engine.findNextFrom cfg harness.logged index rest = some (hit, after)) :
    ∃ executed, Economical searchSpace Same executed after := by
  induction rest generalizing index executed engine with
  | nil =>
      cases hrun
      exact ⟨executed, h⟩
  | cons elem rest ih =>
      obtain ⟨helem, hrest⟩ := List.forall_mem_cons.mp hrest
      have hexplored := h.explore (engine.stat.explorationCounter + 1)
        engine.relatedTestIndexes
      rw [findNextFrom] at hrun
      by_cases hskip : cfg.valueTEQ = true ∧ elem.id ∈ engine.failing
      · simp only [hskip, and_self, if_true] at hrun
        exact ih hrest hexplored hrun
      · rw [if_neg hskip] at hrun
        obtain ⟨⟨passAll, tested⟩, htests, hrun⟩ := Option.bind_eq_some_iff.mp hrun
        obtain ⟨executed, hexecuted⟩ := runTests_economical hexact hteq helem hexplored
          (fun hfailing => hskip ⟨hteq, hfailing⟩) htests
        cases passAll with
        | true =>
            cases hrun
            exact ⟨executed, hexecuted⟩
        | false => exact ih hrest hexecuted hrun

private theorem findNexts_economical {starts hits : List Nat} {executed : List (Patch × String)}
    {engine after : SearchEngine (ω × ExecutionLog)}
    (h : Economical searchSpace Same executed engine)
    (hrun : engine.findNexts cfg harness.logged searchSpace starts = some (hits, after)) :
    ∃ executed, Economical searchSpace Same executed after := by
  induction starts generalizing executed engine hits with
  | nil =>
      cases hrun
      exact ⟨executed, h⟩
  | cons start starts ih =>
      obtain ⟨⟨hit, between⟩, hfirst, hrun⟩ := Option.bind_eq_some_iff.mp hrun
      obtain ⟨⟨others, last⟩, hothers, hrun⟩ := Option.bind_eq_some_iff.mp hrun
      cases hrun
      obtain ⟨executed, hbetween⟩ := findNextFrom_economical hexact hteq
        (fun elem helem => List.mem_of_mem_drop helem) h hfirst
      exact ih hbetween hothers

end Economy

end SearchEngine

/-! ## Over the generated runtime -/

section Hosted

variable {V : Type} [DecidableEq V] [Zero V] {machine : CMachine V} {genCfg : Config}
  {fuel : Nat} {sas : List SchemaApplication} {codes : List DispatchCode}
  {searchSpace : List Patch} {tested : AppID → String → InstrumentedTest V}
  {status : PatchID → String → TestStatus} {ω : Type} {harness : TestHarness ω}
  {memory : ω → PartitionMemory}

/-- The test reaches the location, and the two candidates answer alike whenever it does. -/
def SameRun (machine : CMachine V) (functions : List (SchemaApplication × DispatchCode))
    (tested : AppID → String → InstrumentedTest V) (test : String) (p q : Patch) : Prop :=
  ∃ function ∈ functions, p.app = function.1 ∧ q.app = function.1 ∧ ∃ trace status,
    trace ≠ [] ∧ (tested function.1.id test).Answered machine function p.id trace status ∧
      (tested function.1.id test).Answered machine function q.id trace status

theorem Hosts.logged {valueTEQ : Bool} {functions : List (SchemaApplication × DispatchCode)}
    (hosts : Hosts valueTEQ machine functions tested harness memory) :
    Hosts valueTEQ machine functions tested harness.logged (memory ∘ Prod.fst) where
  setPartition ids world hsize := hosts.setPartition ids world.1 hsize
  getPartition world partition h := hosts.getPartition world.1 partition h
  execute function hfunction entries test world id hload hrun :=
    hosts.execute function hfunction entries test world.1 id hload hrun

theorem Hosts.exact (hosts : Hosts true machine (sas.zip codes) tested harness memory)
    (deployed : Deployed genCfg fuel sas codes searchSpace)
    (htrap : NeverTraps machine (sas.zip codes) tested searchSpace)
    (halone : RunAlone machine (sas.zip codes) tested searchSpace status) :
    harness.Exact searchSpace (SameRun machine (sas.zip codes) tested) := by
  rintro p hp test world q hq ⟨function, hfunction, hpapp, hqapp, trace, result, hnil, hpRun,
    hqRun⟩
  obtain ⟨ran, hran, hpartition⟩ :=
    hosts.partition_on deployed htrap halone hfunction hp hpapp test world
  obtain ⟨rfl, -⟩ := hran.unique hpRun
  refine (hpartition q.id).mpr ⟨hnil, ?_, fun entry hentry => ?_⟩
  · exact mem_getPartitionable.mpr ⟨q, hq, rfl, by rw [hqapp, hpapp]⟩
  · exact (hqRun.answers entry hentry).symm

/--
With test equivalence on, every sequence of calls executes each test with at most
one of the candidates that it cannot tell apart, and counts what it executes.
-/
theorem findNexts_executes_once (deployed : Deployed genCfg fuel sas codes searchSpace)
    (htrap : NeverTraps machine (sas.zip codes) tested searchSpace)
    (halone : RunAlone machine (sas.zip codes) tested searchSpace status)
    (hosts : Hosts true machine (sas.zip codes) tested harness memory) (cfg : Config)
    (hteq : cfg.valueTEQ = true) (tests : List String)
    (table : Location → Option (List Nat))
    (hindexes : ∀ location, ∀ i ∈ (table location).getD [], i < tests.length)
    (starts : List Nat) (hstarts : ∀ start ∈ starts, start ≤ searchSpace.length) (world : ω) :
    ∃ hits after, ∃ executed : List (Patch × String),
      (SearchEngine.create tests (getPartitionable searchSpace) table (world, [])).findNexts
        cfg harness.logged searchSpace starts = some (hits, after) ∧
      after.world.2 = executed.map (fun e => (environment e.1, e.2)) ∧
      after.stat.executionCounter = executed.length ∧
      (∀ e ∈ executed, e.1 ∈ searchSpace) ∧
      executed.Pairwise fun earlier later => earlier.2 = later.2 →
        earlier.1.id ≠ later.1.id ∧
          ¬SameRun machine (sas.zip codes) tested earlier.2 earlier.1 later.1 := by
  have hlogged := hosts.logged
  rw [← hteq] at hlogged
  obtain ⟨hits, after, hrun, -⟩ := SearchEngine.findNexts_prepared cfg deployed.patchIds
    (fun p hp q hq => deployed.locations hp hq) hindexes
    (hlogged.faithfulUnder deployed htrap halone) starts _
    (SearchEngine.create_consistent table (world, [])) hstarts
  obtain ⟨executed, h⟩ := SearchEngine.findNexts_economical
    (hosts.exact deployed htrap halone) hteq
    (SearchEngine.create_economical tests table world) hrun
  exact ⟨hits, after, executed, hrun, h.log, h.counted, h.mem, h.distinguished⟩

theorem findNexts_executes_once_nullTest :
    ∃ code searchSpace hits after, ∃ executed : List (Patch × String),
      (SearchEngine.create ["n1"] (getPartitionable searchSpace) (fun _ => some [0])
        ((fun _ => outputTerminator), [])).findNexts .default
          (bufferHarness true (integers decimal) [(generator.nullTest, code)]
            fun _ _ => branchTest nullPointer).logged
          searchSpace [0, 1] = some (hits, after) ∧
      after.stat.executionCounter = executed.length ∧
      executed.Pairwise fun earlier later => earlier.2 = later.2 →
        earlier.1.id ≠ later.1.id ∧
          ¬SameRun (integers decimal) [(generator.nullTest, code)]
            (fun _ _ => branchTest nullPointer) earlier.2 earlier.1 later.1 := by
  obtain ⟨code, searchSpace, deployed, hlength, -⟩ := nullTest_deployed
  have htrap : NeverTraps (integers decimal) [(generator.nullTest, code)]
      (fun _ _ => branchTest nullPointer) searchSpace :=
    neverTraps_integers decimal_toString deployed
  have hindexes : ∀ location : Location, ∀ i ∈ (some [0]).getD [], i < ["n1"].length :=
    fun _ => by decide
  obtain ⟨hits, after, executed, hrun, -, hcounted, -, hdistinguished⟩ :=
    findNexts_executes_once deployed htrap (runAlone_branchTest nullPointer)
      (bufferHarness_hosts deployed true (integers decimal) _) .default rfl ["n1"]
      (fun _ => some [0]) hindexes [0, 1] (by simpa using hlength) (fun _ => outputTerminator)
  exact ⟨code, searchSpace, hits, after, executed, hrun, hcounted, hdistinguished⟩

end Hosted

end F1X
