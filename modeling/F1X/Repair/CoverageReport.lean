import F1X.Repair.Coverage
import F1X.Repair.Main

/-!
# The report of the semantic differences

The report dereferences the coverage of every plausible patch on every test that
has an entry.  A candidate has entries for its own related tests only, so that the
report needs all tests that the search reaches to be related to all the patches.
-/

namespace F1X.Repair

open Library SearchEngine

variable {ω : Type}

/-- The number of plausible patches behind which the next one ends the search. -/
def searchLimit (cfg : Config) : Option Nat :=
  if cfg.generateAll = false then some 0
  else if cfg.outputTop = 0 then none
  else some (outputLimit cfg)

/-- The candidates up to the plausible patch that ends the search. -/
def IsExplored (cfg : Config) (passes : Patch → Bool) (searchSpace : List Patch)
    (patch : Patch) : Prop :=
  ∃ i, searchSpace[i]? = some patch ∧
    ∀ limit ∈ searchLimit cfg, (searchSpace.take i).countP passes ≤ limit

/-- Every test that the search reaches is related to all of the plausible patches. -/
def SharesTests (cfg : Config) (tests : List String) (related : Location → List Nat)
    (status : PatchID → String → TestStatus) (searchSpace plausiblePatches : List Patch) :
    Prop :=
  ∀ patch, IsExplored cfg (passesRelated tests related status) searchSpace patch →
    ∀ i ∈ reached tests related status patch, ∀ test, tests[i]? = some test →
      ∀ other ∈ plausiblePatches, Related tests related other test

def CoverageComplete (plausiblePatches : List Patch) (engine : SearchEngine ω) : Prop :=
  ∀ test, engine.HasEntry test →
    ∀ patch ∈ plausiblePatches, (engine.coverageSet test patch.id).isSome

/-! ## The search loop -/

section Loop

variable {cfg : Config} {tools : Toolchain ω} {args : Arguments} {searchSpace : List Patch}
  {tests : List String} {related : Location → List Nat}
  {status : PatchID → String → TestStatus}

private theorem searchLimit_of_stop {count : Nat}
    (h : cfg.generateAll = false ∨ foundEnough cfg count = true) :
    ∃ limit ∈ searchLimit cfg, limit ≤ count := by
  cases hmode : cfg.generateAll with
  | false => exact ⟨0, by simp [searchLimit, hmode], Nat.zero_le _⟩
  | true =>
      obtain ⟨htop, hle⟩ : cfg.outputTop ≠ 0 ∧ outputLimit cfg ≤ count := by
        simpa [hmode, foundEnough] using h
      exact ⟨outputLimit cfg, by simp [searchLimit, hmode, htop], hle⟩

private theorem searchLimit_of_continue {count : Nat} (hall : cfg.generateAll = true)
    (h : foundEnough cfg count = false) : ∀ limit ∈ searchLimit cfg, count + 1 ≤ limit := by
  intro limit hlimit
  by_cases htop : cfg.outputTop = 0
  · simp [searchLimit, hall, htop] at hlimit
  · simp [searchLimit, hall, htop] at hlimit
    simp [foundEnough, htop] at h
    omega

theorem countP_take_le {passes : Patch → Bool} {i j : Nat} (h : i ≤ j) :
    (searchSpace.take i).countP passes ≤ (searchSpace.take j).countP passes :=
  (List.take_prefix_take_left h).sublist.countP_le

/-- The search ends with the candidates up to `n` explored. -/
def StopsAt (cfg : Config) (passes : Patch → Bool) (searchSpace : List Patch) (n : Nat) :
    Prop :=
  ∀ i < searchSpace.length,
    i < n ↔ ∀ limit ∈ searchLimit cfg, (searchSpace.take i).countP passes ≤ limit

theorem StopsAt.mem_take_iff {passes : Patch → Bool} {n : Nat} {patch : Patch}
    (h : StopsAt cfg passes searchSpace n) :
    patch ∈ searchSpace.take n ↔ IsExplored cfg passes searchSpace patch := by
  rw [List.mem_take_iff_getElem]
  constructor
  · rintro ⟨i, hi, rfl⟩
    exact ⟨i, List.getElem?_eq_getElem _, (h i (by omega)).mp (by omega)⟩
  · rintro ⟨i, hget, hlimit⟩
    obtain ⟨hi, rfl⟩ := List.getElem?_eq_some_iff.mp hget
    have hn := (h i hi).mpr hlimit
    exact ⟨i, by omega, rfl⟩

theorem stopsAt_end {passes : Patch → Bool} {n : Nat} (hn : searchSpace.length ≤ n)
    (hlimit : ∀ limit ∈ searchLimit cfg, searchSpace.countP passes ≤ limit) :
    StopsAt cfg passes searchSpace n := by
  intro i hi
  refine ⟨fun _ limit hmem => ?_, fun _ => Nat.lt_of_lt_of_le hi hn⟩
  exact ((List.take_sublist i searchSpace).countP_le).trans (hlimit limit hmem)

private theorem stopsAt_hit {passes : Patch → Bool} {last hit : Nat}
    (hnext : IsNext (passes · = true) searchSpace last hit) (hhit : hit < searchSpace.length)
    (hlimit : ∀ limit ∈ searchLimit cfg, (searchSpace.take last).countP passes ≤ limit)
    (hstop : ∃ limit ∈ searchLimit cfg, limit ≤ (searchSpace.take last).countP passes) :
    StopsAt cfg passes searchSpace (hit + 1) := by
  have hbefore : (searchSpace.take hit).countP passes =
      (searchSpace.take last).countP passes := by
    simpa using hnext.countP_take hnext.start_le (Nat.le_refl _)
  have hafter : (searchSpace.take (hit + 1)).countP passes =
      (searchSpace.take last).countP passes + 1 := by
    simpa using hnext.countP_take_hit hhit
  intro i _
  constructor
  · intro hi limit hmem
    have hle : (searchSpace.take i).countP passes ≤ (searchSpace.take hit).countP passes :=
      countP_take_le (Nat.le_of_lt_succ hi)
    exact (hle.trans_eq hbefore).trans (hlimit limit hmem)
  · intro hcount
    by_contra hi
    obtain ⟨limit, hmem, hle⟩ := hstop
    have hlater : (searchSpace.take (hit + 1)).countP passes ≤
        (searchSpace.take i).countP passes := countP_take_le (Nat.le_of_not_lt hi)
    have hcount := hcount limit hmem
    omega

private theorem findNext_run {start : Nat} {engine : SearchEngine ω} {ws after : Workspace ω}
    {result : Nat × SearchEngine ω}
    (h : (findNext cfg tools searchSpace start engine).run ws = some (result, after)) :
    ({ engine with world := ws.world } : SearchEngine ω).findNext cfg tools.toTestHarness
      searchSpace start = some result := by
  rw [findNext, run_get_bind] at h
  obtain ⟨found, hfound, h⟩ := run_lift_bind_eq_some.mp h
  rw [run_modify_bind] at h
  obtain ⟨rfl, -⟩ := run_pure_eq_some.mp h
  exact hfound

/-- What is found, and the coverage it comes with. -/
structure Searched (cfg : Config) (tests : List String) (related : Location → List Nat)
    (status : PatchID → String → TestStatus) (searchSpace found : List Patch)
    (engine : SearchEngine ω) : Prop where
  explored : ∃ n, Explored searchSpace tests related status (searchSpace.take n) engine ∧
    StopsAt cfg (passesRelated tests related status) searchSpace n
  reported : ∀ patch ∈ found, patch ∈ searchSpace ∧ CoveredAll tests related engine patch

/-- The invariant of the search loop at `last`. -/
structure Searching (cfg : Config) (tests : List String) (related : Location → List Nat)
    (status : PatchID → String → TestStatus) (searchSpace : List Patch) (last : Nat)
    (found : List Patch) (engine : SearchEngine ω) : Prop where
  explored : Explored searchSpace tests related status (searchSpace.take last) engine
  last_le : last ≤ searchSpace.length
  reported : ∀ patch ∈ found, patch ∈ searchSpace ∧ CoveredAll tests related engine patch
  count : (searchSpace.take last).countP (passesRelated tests related status) = found.length
  limit : ∀ limit ∈ searchLimit cfg, found.length ≤ limit

variable (hids : (searchSpace.map Patch.id).Nodup)
  (hlocations : ∀ p ∈ searchSpace, ∀ q ∈ searchSpace,
    p.app.id = q.app.id → p.app.location = q.app.location)
  (hfaithful : tools.toTestHarness.Faithful searchSpace status)
  (hteq : cfg.valueTEQ = true) (hdiff : cfg.patchPrioritization = .semanticDiff)

theorem Searching.found_kept {last hit : Nat} {found : List Patch}
    {engine next : SearchEngine ω}
    (h : Searching cfg tests related status searchSpace last found engine)
    (hfind : Found searchSpace tests related status last hit engine next) :
    ∀ p ∈ found, p ∈ searchSpace ∧ CoveredAll tests related next p := by
  intro p hp
  obtain ⟨hmem, hcovered⟩ := h.reported p hp
  exact ⟨hmem, hcovered.mono hfind.grows⟩

theorem Searching.found_append {last hit : Nat} {found : List Patch} {patch : Patch}
    {engine next : SearchEngine ω}
    (h : Searching cfg tests related status searchSpace last found engine)
    (hfind : Found searchSpace tests related status last hit engine next)
    (hpatch : searchSpace[hit]? = some patch) :
    ∀ p ∈ found ++ [patch], p ∈ searchSpace ∧ CoveredAll tests related next p := by
  intro p hp
  rcases List.mem_append.mp hp with hold | hnew
  · exact h.found_kept hfind p hold
  · rw [List.mem_singleton.mp hnew]
    exact ⟨List.mem_of_getElem? hpatch, hfind.covered patch hpatch⟩

theorem Searching.next {last hit : Nat} {found : List Patch} {patch : Patch}
    {engine next : SearchEngine ω}
    (h : Searching cfg tests related status searchSpace last found engine)
    (hfind : Found searchSpace tests related status last hit engine next)
    (hpatch : searchSpace[hit]? = some patch) (hall : cfg.generateAll = true)
    (henough : foundEnough cfg found.length = false) :
    Searching cfg tests related status searchSpace (hit + 1) (found ++ [patch]) next := by
  obtain ⟨hlt, -⟩ := List.getElem?_eq_some_iff.mp hpatch
  refine ⟨hfind.explored, hlt, h.found_append hfind hpatch, ?_, ?_⟩
  · have hcount := hfind.next.countP_take_hit hlt
    simpa [h.count] using hcount
  · simpa using searchLimit_of_continue hall henough

theorem Searching.stop {last hit : Nat} {found found' : List Patch}
    {engine next : SearchEngine ω}
    (h : Searching cfg tests related status searchSpace last found engine)
    (hfind : Found searchSpace tests related status last hit engine next)
    (hlt : hit < searchSpace.length)
    (hstop : cfg.generateAll = false ∨ foundEnough cfg found.length = true)
    (hfound : ∀ p ∈ found', p ∈ searchSpace ∧ CoveredAll tests related next p) :
    Searched cfg tests related status searchSpace found' next := by
  refine ⟨⟨hit + 1, hfind.explored, stopsAt_hit hfind.next hlt ?_ ?_⟩, hfound⟩
  · rw [h.count]
    exact h.limit
  · rw [h.count]
    exact searchLimit_of_stop hstop

private theorem Searching.miss {last : Nat} {found : List Patch} {engine next : SearchEngine ω}
    (h : Searching cfg tests related status searchSpace last found engine)
    (hfind : Found searchSpace tests related status last searchSpace.length engine next) :
    Searched cfg tests related status searchSpace found next := by
  have hcount : searchSpace.countP (passesRelated tests related status) = found.length := by
    have hskipped := hfind.next.countP_take hfind.next.start_le (Nat.le_refl _)
    rw [List.take_length] at hskipped
    simpa [h.count] using hskipped
  refine ⟨⟨_, hfind.explored, stopsAt_end (Nat.le_succ _) ?_⟩, h.found_kept hfind⟩
  rw [hcount]
  exact h.limit

private theorem Searching.finish {found : List Patch} {engine : SearchEngine ω}
    (h : Searching cfg tests related status searchSpace searchSpace.length found engine) :
    Searched cfg tests related status searchSpace found engine := by
  have hcount := h.count
  rw [List.take_length] at hcount
  refine ⟨⟨searchSpace.length, h.explored, stopsAt_end (Nat.le_refl _) ?_⟩, h.reported⟩
  rw [hcount]
  exact h.limit

include hids hlocations hfaithful hteq hdiff

private theorem findNext_searching {last hit : Nat} {found : List Patch}
    {engine next : SearchEngine ω} {ws after : Workspace ω}
    (h : Searching cfg tests related status searchSpace last found engine)
    (hrun : (findNext cfg tools searchSpace last engine).run ws = some ((hit, next), after)) :
    Found searchSpace tests related status last hit engine next := by
  obtain ⟨hexplored, hnext, hgrows, hcovered⟩ :=
    findNext_found cfg hids hlocations hfaithful hteq hdiff
      (h.explored.outside engine.stat ws.world) h.last_le (findNext_run hrun)
  exact ⟨hexplored, hnext, hgrows, hcovered⟩

private theorem searchLoop_searched {rounds last : Nat} {found found' : List Patch}
    {engine engine' : SearchEngine ω} {ws after : Workspace ω}
    (h : Searching cfg tests related status searchSpace last found engine)
    (hrun : (searchLoop cfg tools args searchSpace rounds last found engine).run ws =
      some ((found', engine'), after)) :
    Searched cfg tests related status searchSpace found' engine' := by
  induction rounds generalizing last found engine ws with
  | zero => cases hrun
  | succ rounds ih =>
      have hfound {hit : Nat} {next : SearchEngine ω} {searched : Workspace ω}
          (hfind : (findNext cfg tools searchSpace last engine).run ws =
            some ((hit, next), searched)) :=
        findNext_searching hids hlocations hfaithful hteq hdiff h hfind
      cases searchLoop_round hrun with
      | finished hlast =>
          obtain rfl : last = searchSpace.length := Nat.le_antisymm h.last_le hlast
          exact h.finish
      | missed _ hfind => exact h.miss (hfound hfind)
      | enough _ hfind hhit henough =>
          have hlt := Nat.lt_of_le_of_ne (hfound hfind).next.le_length hhit
          exact h.stop (hfound hfind) hlt (.inr henough) (h.found_kept (hfound hfind))
      | single _ hfind hpatch _ hmode _ =>
          obtain ⟨hlt, -⟩ := List.getElem?_eq_some_iff.mp hpatch
          exact h.stop (hfound hfind) hlt (.inl hmode) (h.found_append (hfound hfind) hpatch)
      | next _ hfind hpatch henough hmode hrest =>
          exact ih (h.next (hfound hfind) hpatch hmode henough) hrest

omit tests related in
private theorem searchPatches_searched {table : Location → Option (List Nat)}
    {reported : List Patch} {engine : SearchEngine ω} {ws after : Workspace ω}
    (hrun : (searchPatches cfg tools args searchSpace table).run ws =
      some ((reported, engine), after)) :
    Searched cfg args.tests (fun location => (table location).getD []) status searchSpace
      reported engine := by
  rw [searchPatches, run_get_bind] at hrun
  obtain ⟨⟨found, engine'⟩, middle, hloop, hrun⟩ := run_bind_eq_some.mp hrun
  obtain ⟨reported', final, hvalidate, hrun⟩ := run_bind_eq_some.mp hrun
  obtain ⟨heq, -⟩ := run_pure_eq_some.mp hrun
  obtain ⟨rfl, rfl⟩ := Prod.mk.inj heq
  have hstart : Searching cfg args.tests (fun location => (table location).getD []) status
      searchSpace 0 [] (create args.tests (getPartitionable searchSpace) table ws.world) :=
    ⟨create_explored table ws.world, Nat.zero_le _, by simp, by simp, by simp⟩
  obtain ⟨hexplored, hreported⟩ :=
    searchLoop_searched hids hlocations hfaithful hteq hdiff hstart hloop
  exact ⟨hexplored, fun patch hpatch =>
    hreported patch (validateFound_subset hvalidate hpatch)⟩

end Loop

/-! ## The report -/

section Report

variable {searchSpace reported : List Patch} {tests : List String}
  {related : Location → List Nat} {status : PatchID → String → TestStatus}
  {engine : SearchEngine ω}

private theorem hasCoverage_iff (h : Recorded searchSpace tests related status engine)
    (test : String) : hasCoverage searchSpace engine test = true ↔ engine.HasEntry test := by
  rw [hasCoverage, List.any_eq_true]
  constructor
  · rintro ⟨elem, -, hentry⟩
    exact ⟨elem.id, hentry⟩
  · rintro ⟨id, hentry⟩
    obtain ⟨patch, hpatch, rfl, -⟩ := h.keys test id hentry
    exact ⟨patch, hpatch, hentry⟩

private theorem reportEntries_isSome_iff (reported : List Patch) (engine : SearchEngine ω)
    (test : String) :
    (do
      let entries ← reported.mapM fun patch => do
        let coverage ← engine.coverageSet test patch.id
        some (patch.id, coverage)
      some (test, entries) : Option (String × List (PatchID × Coverage))).isSome ↔
      ∀ patch ∈ reported, (engine.coverageSet test patch.id).isSome := by
  simp only [Option.bind_eq_bind, Option.isSome_bind, Option.isSome_some, Option.any_true,
    isSome_mapM_iff]

private theorem reportCoverage_isSome_iff (h : Recorded searchSpace tests related status engine) :
    (reportCoverage searchSpace reported engine).isSome ↔
      CoverageComplete reported engine := by
  rw [reportCoverage, isSome_mapM_iff]
  refine forall_congr' fun test => ?_
  rw [reportEntries_isSome_iff, List.mem_filter, List.mem_eraseDups, hasCoverage_iff h]
  refine ⟨fun hreport htest => hreport ⟨?_, htest⟩, fun hcomplete hmem => hcomplete hmem.2⟩
  obtain ⟨id, hid⟩ := htest
  obtain ⟨patch, -, -, i, -, hget⟩ := h.keys test id hid
  rw [h.tests_eq]
  exact List.mem_of_getElem? hget

/-- The tests with entries are those that the search reaches. -/
theorem coverageComplete_iff {cfg : Config} (hids : (searchSpace.map Patch.id).Nodup)
    (h : Searched cfg tests related status searchSpace reported engine) :
    CoverageComplete reported engine ↔
      SharesTests cfg tests related status searchSpace reported := by
  obtain ⟨⟨n, hexplored, hstops⟩, hreported⟩ := h
  have hentry := hexplored.hasEntry_iff (List.take_subset n _)
  constructor
  · intro hcomplete patch hpatch i hi test htest other hother
    have hid := hcomplete test
      ((hentry test).mpr ⟨patch, hstops.mem_take_iff.mpr hpatch, i, hi, htest⟩) other hother
    obtain ⟨same, hsame, heq, hrelated⟩ := hexplored.keys test other.id hid
    rwa [List.inj_on_of_nodup_map hids hsame (hreported other hother).1 heq] at hrelated
  · intro hshares test htest other hother
    obtain ⟨patch, hpatch, i, hi, hget⟩ := (hentry test).mp htest
    exact (hreported other hother).2 test
      (hshares patch (hstops.mem_take_iff.mp hpatch) i hi test hget other hother)

end Report

/--
The coverage of every plausible patch on every test with an entry is there, and
the report reads it, exactly if the plausible patches share all reached tests.
-/
theorem coverage_report_iff (cfg : Config) (tools : Toolchain ω) (args : Arguments)
    (searchSpace : List Patch) (table : Location → Option (List Nat))
    (status : PatchID → String → TestStatus) {ws after : Workspace ω} {reported : List Patch}
    {engine : SearchEngine ω} (hteq : cfg.valueTEQ = true)
    (hdiff : cfg.patchPrioritization = .semanticDiff)
    (hids : (searchSpace.map Patch.id).Nodup)
    (hlocations : ∀ p ∈ searchSpace, ∀ q ∈ searchSpace,
      p.app.id = q.app.id → p.app.location = q.app.location)
    (hfaithful : tools.toTestHarness.Faithful searchSpace status)
    (hrun : (searchPatches cfg tools args searchSpace table).run ws =
      some ((reported, engine), after)) :
    CoverageComplete reported engine ∧ (reportCoverage searchSpace reported engine).isSome ↔
      SharesTests cfg args.tests (fun location => (table location).getD []) status searchSpace
        reported := by
  have hsearched := searchPatches_searched hids hlocations hfaithful hteq hdiff hrun
  obtain ⟨n, hexplored, -⟩ := hsearched.explored
  rw [reportCoverage_isSome_iff hexplored.toRecorded, and_self]
  exact coverageComplete_iff hids hsearched

/-! ## Two locations -/

def reportingConfig : Config :=
  { onePatchConfig with generateAll := true, patchPrioritization := .semanticDiff }

/-- Every candidate passes every test, and the partitions stay empty. -/
def passingTools : Toolchain Unit :=
  { onePatchTools with execute := fun _ _ world => (.pass, world) }

theorem passingTools_faithful (searchSpace : List Patch) :
    passingTools.toTestHarness.Faithful searchSpace fun _ _ => .pass where
  execute := fun _ _ _ _ => rfl
  getPartition := by
    intro patch hpatch test world before after id hid
    simp [passingTools, onePatchTools] at hid

def secondLocation : Location := ⟨0, 8, 3, 8, 12⟩

def twoLocations : List Patch :=
  [{ id := ⟨1, 0, 0, 0, 0⟩, app := SearchEngine.twoPatchesApp, modified := falseNode,
     metadata := ⟨.concretization, 1⟩ },
   { id := ⟨2, 0, 0, 0, 0⟩,
     app := { SearchEngine.twoPatchesApp with id := 8, location := secondLocation },
     modified := falseNode, metadata := ⟨.concretization, 1⟩ }]

def reportingRun (table : Location → Option (List Nat)) :
    Option ((List Patch × SearchEngine Unit) × Workspace Unit) :=
  (searchPatches reportingConfig passingTools
    { onePatchArguments with tests := ["n1", "p1"] } twoLocations table).run onePatchWorkspace

theorem coverage_report_iff_sameTests :
    ∃ reported engine after,
      reportingRun (fun _ => some [0]) = some ((reported, engine), after) ∧
      CoverageComplete reported engine ∧
        (reportCoverage twoLocations reported engine).isSome := by
  obtain ⟨⟨⟨reported, engine⟩, after⟩, hrun⟩ :
      ∃ run, reportingRun (fun _ => some [0]) = some run :=
    Option.isSome_iff_exists.mp (by decide +kernel)
  refine ⟨reported, engine, after, hrun, (coverage_report_iff _ _ _ _ _ (fun _ _ => .pass) rfl
    rfl (by decide) (by decide) (passingTools_faithful _) hrun).mpr ?_⟩
  intro patch _ i hi test htest other _
  exact ⟨i, (through_isPrefix _).subset hi, htest⟩

/-- The test `p1` is related to the first location only. -/
theorem coverage_report_null :
    ¬ ∀ (cfg : Config) (tools : Toolchain Unit) (args : Arguments) (searchSpace : List Patch)
      (table : Location → Option (List Nat)) (status : PatchID → String → TestStatus)
      (ws after : Workspace Unit) (reported : List Patch) (engine : SearchEngine Unit),
      cfg.valueTEQ = true → cfg.patchPrioritization = .semanticDiff →
      (searchSpace.map Patch.id).Nodup →
      (∀ p ∈ searchSpace, ∀ q ∈ searchSpace,
        p.app.id = q.app.id → p.app.location = q.app.location) →
      tools.toTestHarness.Faithful searchSpace status →
      (searchPatches cfg tools args searchSpace table).run ws =
        some ((reported, engine), after) →
      CoverageComplete reported engine ∧
        (reportCoverage searchSpace reported engine).isSome := by
  intro hreports
  have hnull : (reportingRun fun location =>
        some (if location = secondLocation then [0] else [0, 1])).any (fun run =>
      (reportCoverage twoLocations run.1.1 run.1.2).isNone) = true := by
    decide +kernel
  obtain ⟨⟨⟨reported, engine⟩, after⟩, hrun, hnone⟩ := (Option.any_eq_true _ _).mp hnull
  obtain ⟨-, hsome⟩ := hreports _ _ _ _ _ (fun _ _ => .pass) _ after reported engine rfl rfl
    (by decide) (by decide) (passingTools_faithful _) hrun
  rw [Option.isNone_iff_eq_none] at hnone
  simp [hnone] at hsome

end F1X.Repair
