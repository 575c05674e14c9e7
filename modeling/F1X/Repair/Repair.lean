import F1X.Repair.PlainSearch
import F1X.Repair.Prioritization

/-!
# From the search space to the reported patches

The second half of `repair` in `repair/Repair.cpp`: prioritization, the search
loop, validation and the written patches.  The engine is a parameter; the log
output and the source edits behind a patch file are left out.
-/

namespace F1X

open Library

inductive RepairStatus where
  | success
  | failure
  | error
  | noNegativeTests
  deriving DecidableEq, Repr

/-- `patches` are the written files with the patch each is made from. -/
structure RepairResult where
  status : RepairStatus
  plausiblePatches : List Patch
  patches : List (String × Patch)
  deriving DecidableEq, Repr

section Model

variable {σ : Type} (cfg : Config) (findNext : List Patch → Nat → σ → Option (Nat × σ))

/-- `cfg.outputTop` after the conversion from `signed` to `size_t`. -/
def outputLimit : Nat := (cfg.outputTop % 2 ^ 64).toNat

def foundEnough (size : Nat) : Bool :=
  cfg.outputTop ≠ 0 && outputLimit cfg ≤ size

/-- The search loop, with a bound on its rounds; `none` also for an index behind the end. -/
def plausibleLoop (searchSpace : List Patch) :
    (rounds last : Nat) → (plausiblePatches : List Patch) → (engine : σ) →
      Option (List Patch)
  | 0, _, _, _ => none
  | rounds + 1, last, plausiblePatches, engine =>
      if last < searchSpace.length then do
        let (last, engine) ← findNext searchSpace last engine
        if last = searchSpace.length then
          some plausiblePatches
        else if foundEnough cfg plausiblePatches.length then
          some plausiblePatches
        else
          let patch ← searchSpace[last]?
          -- the result of `validatePatch` is dropped here: `valid` stays true
          if !cfg.generateAll then
            some (plausiblePatches ++ [patch])
          else
            plausibleLoop searchSpace rounds (last + 1) (plausiblePatches ++ [patch]) engine
      else
        some plausiblePatches

def writeAll (patchOutput : String) (i : Nat) (patchLocations : Finset AppID)
    (plausiblePatches : List Patch) : List (String × Patch) :=
  match plausiblePatches with
  | [] => []
  | patch :: rest =>
      if cfg.outputOnePerLocation ∧ patch.app.id ∈ patchLocations then
        writeAll patchOutput (i + 1) patchLocations rest
      else
        (patchOutput ++ "/" ++ toString i ++ ".patch", patch) ::
          writeAll patchOutput (i + 1) (insert patch.app.id patchLocations) rest

def writePatches (patchOutput : String) (plausiblePatches : List Patch) :
    List (String × Patch) :=
  if !cfg.generateAll then
    plausiblePatches.head?.toList.map fun patch => (patchOutput, patch)
  else
    writeAll cfg patchOutput 0 ∅ plausiblePatches

def report (patchOutput : String) (plausiblePatches : List Patch) : RepairResult where
  status := if plausiblePatches.isEmpty then .failure else .success
  plausiblePatches := plausiblePatches
  patches := writePatches cfg patchOutput plausiblePatches

def repair (validatePatch : Patch → Bool) (createEngine : List Patch → σ)
    (patchOutput : String) (searchSpace : List Patch) : Option RepairResult := do
  let cost := patchCost searchSpace
  let searchSpace := prioritize searchSpace cost
  let found ← plausibleLoop cfg findNext searchSpace (searchSpace.length + 1) 0 []
    (createEngine searchSpace)
  let plausiblePatches :=
    if cfg.validatePatches && cfg.generateAll then found.filter validatePatch else found
  some (report cfg patchOutput plausiblePatches)

end Model

/-! ## The search loop -/

/-- What the engine promises: each call returns the next passing patch. -/
structure FindsNext {σ : Type} (findNext : List Patch → Nat → σ → Option (Nat × σ))
    (searchSpace : List Patch) (passes : Patch → Bool) (valid : σ → Prop) : Prop where
  next : ∀ start engine, start ≤ searchSpace.length → valid engine →
    ∃ hit after, findNext searchSpace start engine = some (hit, after) ∧ valid after ∧
      IsNext (passes · = true) searchSpace start hit

/-- The part of the hits that the loop still takes once it has `count` patches. -/
def upToTop (cfg : Config) (count : Nat) (hits : List Patch) : List Patch :=
  if cfg.outputTop = 0 then hits else hits.take (outputLimit cfg - count)

theorem upToTop_nil (cfg : Config) (count : Nat) : upToTop cfg count [] = [] := by
  simp [upToTop]

private theorem upToTop_of_foundEnough {cfg : Config} {count : Nat} (hits : List Patch)
    (h : foundEnough cfg count = true) : upToTop cfg count hits = [] := by
  simp only [foundEnough, Bool.and_eq_true, decide_eq_true_iff] at h
  rw [upToTop, if_neg h.1, Nat.sub_eq_zero_of_le h.2, List.take_zero]

private theorem upToTop_cons {cfg : Config} {count : Nat} (hit : Patch) (hits : List Patch)
    (h : foundEnough cfg count = false) :
    upToTop cfg count (hit :: hits) = hit :: upToTop cfg (count + 1) hits := by
  simp only [upToTop]
  split_ifs with htop
  · rfl
  · have hlt : count < outputLimit cfg := by simpa [foundEnough, htop] using h
    have hsub : outputLimit cfg - count = outputLimit cfg - (count + 1) + 1 := by omega
    rw [hsub, List.take_succ_cons]

theorem foundEnough_zero (cfg : Config) : foundEnough cfg 0 = false := by
  obtain ⟨hlow, hhigh⟩ := cfg.outputTopRange
  simp only [foundEnough, outputLimit]
  by_cases hzero : cfg.outputTop = 0
  · simp [hzero]
  · simp
    omega

private theorem upToTop_zero (cfg : Config) (hits : List Patch)
    (hsize : cfg.outputTop < 0 → hits.length < 2 ^ 63) :
    upToTop cfg 0 hits =
      if 0 < cfg.outputTop then hits.take cfg.outputTop.toNat else hits := by
  obtain ⟨hlow, hhigh⟩ := cfg.outputTopRange
  rw [upToTop, Nat.sub_zero, outputLimit]
  rcases lt_trichotomy cfg.outputTop 0 with hneg | hzero | hpos
  · rw [if_neg (by omega), if_neg (by omega), List.take_of_length_le]
    have hlength := hsize hneg
    omega
  · rw [if_pos hzero, if_neg (by omega)]
  · rw [if_neg (by omega), if_pos hpos, Int.emod_eq_of_lt hpos.le (by omega)]

section Loop

variable {σ : Type} {cfg : Config} {findNext : List Patch → Nat → σ → Option (Nat × σ)}
  {searchSpace : List Patch} {passes : Patch → Bool} {valid : σ → Prop}

private theorem plausibleLoop_all (hfind : FindsNext findNext searchSpace passes valid)
    (hall : cfg.generateAll = true) (rounds last : Nat) (plausiblePatches : List Patch)
    (engine : σ) (hvalid : valid engine) (hlast : last ≤ searchSpace.length)
    (hrounds : searchSpace.length < last + rounds) :
    plausibleLoop cfg findNext searchSpace rounds last plausiblePatches engine =
      some (plausiblePatches ++
        upToTop cfg plausiblePatches.length ((searchSpace.drop last).filter passes)) := by
  induction rounds generalizing last plausiblePatches engine with
  | zero => omega
  | succ rounds ih =>
      rw [plausibleLoop]
      by_cases hlt : last < searchSpace.length
      · obtain ⟨hit, after, hrun, hafter, hhit⟩ := hfind.next last engine hlast hvalid
        simp only [if_pos hlt, hrun, Option.bind_eq_bind, Option.bind_some]
        by_cases hend : hit = searchSpace.length
        · subst hend
          have hmiss := hhit.filter_miss
          simp only [Bool.decide_eq_true] at hmiss
          rw [if_pos rfl, hmiss, upToTop_nil, List.append_nil]
        · have hhitlt : hit < searchSpace.length := lt_of_le_of_ne hhit.le_length hend
          have hfilter := hhit.filter_hit hhitlt
          simp only [Bool.decide_eq_true] at hfilter
          rw [if_neg hend, hfilter]
          cases henough : foundEnough cfg plausiblePatches.length with
          | true => rw [if_pos rfl, upToTop_of_foundEnough _ henough, List.append_nil]
          | false =>
              have hrest := ih (hit + 1) (plausiblePatches ++ [searchSpace[hit]]) after hafter
                hhitlt (by have hle := hhit.start_le; omega)
              rw [List.length_append, List.length_singleton, List.append_assoc] at hrest
              simp [List.getElem?_eq_getElem hhitlt, hall, hrest, upToTop_cons _ _ henough]
      · have hend : last = searchSpace.length := by omega
        subst hend
        rw [if_neg hlt, List.drop_length, List.filter_nil, upToTop_nil, List.append_nil]

private theorem plausibleLoop_single (hfind : FindsNext findNext searchSpace passes valid)
    (hsingle : cfg.generateAll = false) (rounds : Nat) (engine : σ) (hvalid : valid engine) :
    plausibleLoop cfg findNext searchSpace (rounds + 1) 0 [] engine =
      some (searchSpace.filter passes).head?.toList := by
  rw [plausibleLoop]
  by_cases hlt : 0 < searchSpace.length
  · obtain ⟨hit, after, hrun, hafter, hhit⟩ := hfind.next 0 engine hlt.le hvalid
    simp only [if_pos hlt, hrun, Option.bind_eq_bind, Option.bind_some]
    by_cases hend : hit = searchSpace.length
    · subst hend
      have hmiss := hhit.filter_miss
      simp only [Bool.decide_eq_true, List.drop_zero] at hmiss
      simp [hmiss]
    · have hhitlt : hit < searchSpace.length := lt_of_le_of_ne hhit.le_length hend
      have hfilter := hhit.filter_hit hhitlt
      simp only [Bool.decide_eq_true, List.drop_zero] at hfilter
      simp [hend, hfilter, foundEnough_zero, hsingle, List.getElem?_eq_getElem hhitlt]
  · have hnil : searchSpace = [] := List.eq_nil_of_length_eq_zero (by omega)
    subst hnil
    rfl

end Loop

/-! ## The written patches -/

theorem writeAll_mem {cfg : Config} {patchOutput : String} {i : Nat}
    {patchLocations : Finset AppID} {plausiblePatches : List Patch}
    {entry : String × Patch}
    (h : entry ∈ writeAll cfg patchOutput i patchLocations plausiblePatches) :
    entry.2 ∈ plausiblePatches := by
  induction plausiblePatches generalizing i patchLocations with
  | nil => simp [writeAll] at h
  | cons patch rest ih =>
      rw [writeAll] at h
      split_ifs at h with hskip
      · exact List.mem_cons_of_mem _ (ih h)
      · rcases List.mem_cons.mp h with rfl | hrest
        · exact List.mem_cons_self
        · exact List.mem_cons_of_mem _ (ih hrest)

theorem writePatches_mem {cfg : Config} {patchOutput : String}
    {plausiblePatches : List Patch} {entry : String × Patch}
    (h : entry ∈ writePatches cfg patchOutput plausiblePatches) :
    entry.2 ∈ plausiblePatches := by
  unfold writePatches at h
  split at h
  · obtain ⟨patch, hpatch, rfl⟩ := List.mem_map.mp h
    exact List.mem_of_mem_head? (Option.mem_toList.mp hpatch)
  · exact writeAll_mem h

private theorem writeAll_filter {cfg : Config} (hone : cfg.outputOnePerLocation = true)
    (patchOutput : String) (app : AppID) (i : Nat) (patchLocations : Finset AppID)
    (plausiblePatches : List Patch) :
    ((writeAll cfg patchOutput i patchLocations plausiblePatches).map Prod.snd).filter
        (·.app.id = app) =
      if app ∈ patchLocations then []
      else (plausiblePatches.find? (·.app.id = app)).toList := by
  induction plausiblePatches generalizing i patchLocations with
  | nil => simp [writeAll]
  | cons patch rest ih =>
      rw [writeAll]
      by_cases happ : patch.app.id = app
      · subst happ
        by_cases hwritten : patch.app.id ∈ patchLocations
        · rw [if_pos ⟨hone, hwritten⟩, ih, if_pos hwritten, if_pos hwritten]
        · rw [if_neg (fun h => hwritten h.2), if_neg hwritten, List.map_cons,
            List.filter_cons_of_pos (by simp), ih, if_pos (by simp)]
          simp
      · have hfind : (patch :: rest).find? (·.app.id = app) = rest.find? (·.app.id = app) :=
          List.find?_cons_of_neg (by simpa using happ)
        rw [hfind]
        split_ifs with hskip hwritten hwritten
        · rw [ih, if_pos hwritten]
        · rw [ih, if_neg hwritten]
        · rw [List.map_cons, List.filter_cons_of_neg (by simpa using happ), ih,
            if_pos (Finset.mem_insert_of_mem hwritten)]
        · rw [List.map_cons, List.filter_cons_of_neg (by simpa using happ), ih,
            if_neg (by simp [hwritten, Ne.symm happ])]

/-! ## The reported patches are the cheapest ones -/

/-- A passing patch of least cost and distance, the first of these to be generated. -/
structure FirstCheapest (searchSpace : List Patch) (passes : Patch → Bool)
    (best : Patch) : Prop where
  mem : best ∈ searchSpace
  passing : passes best = true
  cost_le : ∀ q ∈ searchSpace, passes q = true → syntacticDiff best ≤ syntacticDiff q
  distance_le : ∀ q ∈ searchSpace, passes q = true →
    best.metadata.distance ≤ q.metadata.distance
  first : ∃ before after, searchSpace = before ++ best :: after ∧
    ∀ q ∈ before, passes q = true → syntacticDiff best < syntacticDiff q

structure ReportsCheapest (cfg : Config) (searchSpace : List Patch) (passes : Patch → Bool)
    (result : RepairResult) : Prop where
  single : cfg.generateAll = false → (∃ q ∈ searchSpace, passes q = true) →
    ∃ best, result.plausiblePatches = [best] ∧ FirstCheapest searchSpace passes best
  all : cfg.generateAll = true →
    ∃ ordered, StableOrder syntacticDiff (searchSpace.filter passes) ordered ∧
      result.plausiblePatches =
        if 0 < cfg.outputTop then ordered.take cfg.outputTop.toNat else ordered
  written : cfg.generateAll = true → ∀ entry ∈ result.patches,
    entry.2 ∈ result.plausiblePatches
  onePerLocation : cfg.generateAll = true → cfg.outputOnePerLocation = true →
    ∀ patch ∈ result.plausiblePatches,
      ∃ best, (result.patches.map Prod.snd).filter (·.app.id = patch.app.id) = [best] ∧
        ∀ q ∈ searchSpace, passes q = true → q.app.id = patch.app.id →
          syntacticDiff best ≤ syntacticDiff q

private theorem firstCheapest_of_stableOrder {searchSpace hits : List Patch} {passes : Patch → Bool}
    {best : Patch} (h : StableOrder syntacticDiff (searchSpace.filter passes) (best :: hits)) :
    FirstCheapest searchSpace passes best := by
  obtain ⟨hmin, hsplit⟩ := h.head
  have hbest : best ∈ searchSpace ∧ passes best = true :=
    List.mem_filter.mp (h.perm.mem_iff.mp List.mem_cons_self)
  have hcost : ∀ q ∈ searchSpace, passes q = true → syntacticDiff best ≤ syntacticDiff q :=
    fun q hq hpasses => hmin q (List.mem_filter.mpr ⟨hq, hpasses⟩)
  refine ⟨hbest.1, hbest.2, hcost,
    fun q hq hpasses => distance_le_of_syntacticDiff_le (hcost q hq hpasses), ?_⟩
  obtain ⟨before, after, heq, hbefore⟩ := hsplit
  obtain ⟨front, rest, rfl, rfl, hrest⟩ := List.filter_eq_append_iff.mp heq
  obtain ⟨skipped, after, rfl, hskipped, -, -⟩ := List.filter_eq_cons_iff.mp hrest
  refine ⟨front ++ skipped, after, by rw [List.append_assoc], fun q hq hpasses => ?_⟩
  rcases List.mem_append.mp hq with hfront | hskip
  · exact hbefore q (List.mem_filter.mpr ⟨hfront, hpasses⟩)
  · exact absurd hpasses (hskipped q hskip)

private theorem find?_cheapest {candidates reported rest : List Patch} {app : AppID} {best : Patch}
    (h : StableOrder syntacticDiff candidates (reported ++ rest))
    (hfind : reported.find? (·.app.id = app) = some best) :
    ∀ q ∈ candidates, q.app.id = app → syntacticDiff best ≤ syntacticDiff q := by
  intro q hq happ
  obtain ⟨-, front, back, rfl, hfront⟩ := List.find?_eq_some_iff_append.mp hfind
  have hsorted := h.sorted
  rw [List.append_assoc, List.cons_append, List.pairwise_append] at hsorted
  have hmem : q ∈ front ++ best :: (back ++ rest) := by
    simpa using h.perm.mem_iff.mpr hq
  rcases List.mem_append.mp hmem with hq | hq
  · simpa [happ] using hfront q hq
  · rcases List.mem_cons.mp hq with rfl | hq
    · exact le_refl _
    · exact List.rel_of_pairwise_cons hsorted.2.1 hq

def reported (cfg : Config) (hits : List Patch) : List Patch :=
  if cfg.generateAll then upToTop cfg 0 hits else hits.head?.toList

theorem report_cheapest {cfg : Config} {searchSpace hits : List Patch}
    {passes : Patch → Bool} (patchOutput : String)
    (h : StableOrder syntacticDiff (searchSpace.filter passes) hits)
    (hsize : cfg.outputTop < 0 → searchSpace.length < 2 ^ 63) :
    ReportsCheapest cfg searchSpace passes (report cfg patchOutput (reported cfg hits)) := by
  have hlength : hits.length ≤ searchSpace.length :=
    h.perm.length_eq.trans_le (List.length_filter_le _ _)
  have htop := upToTop_zero cfg hits fun hneg => hlength.trans_lt (hsize hneg)
  constructor
  · rintro hgenerate ⟨q, hq, hpasses⟩
    have hmem : q ∈ hits := h.perm.mem_iff.mpr (List.mem_filter.mpr ⟨hq, hpasses⟩)
    obtain ⟨best, rest, rfl⟩ := List.exists_cons_of_ne_nil (List.ne_nil_of_mem hmem)
    exact ⟨best, by simp [report, reported, hgenerate], firstCheapest_of_stableOrder h⟩
  · intro hgenerate
    exact ⟨hits, h, by simp only [report, reported, hgenerate, if_true, htop]⟩
  · intro hgenerate entry hentry
    simp only [report, writePatches, hgenerate] at hentry
    exact writeAll_mem hentry
  · intro hgenerate hone patch hpatch
    obtain ⟨rest, hrest⟩ : ∃ rest, hits = reported cfg hits ++ rest := by
      rw [reported, if_pos hgenerate, htop]
      split_ifs
      · exact ⟨_, (List.take_append_drop _ _).symm⟩
      · exact ⟨[], (List.append_nil _).symm⟩
    simp only [report, writePatches, hgenerate] at hpatch ⊢
    cases hfirst : (reported cfg hits).find? (·.app.id = patch.app.id) with
    | none => simpa using List.find?_eq_none.mp hfirst patch hpatch
    | some best =>
        refine ⟨best, ?_, fun q hq hpasses => ?_⟩
        · simpa [hfirst] using
            writeAll_filter hone patchOutput patch.app.id 0 ∅ (reported cfg hits)
        · rw [hrest] at h
          exact find?_cheapest h hfirst q (List.mem_filter.mpr ⟨hq, hpasses⟩)

section Repair

variable {σ : Type} {cfg : Config} {findNext : List Patch → Nat → σ → Option (Nat × σ)}
  {createEngine : List Patch → σ} {searchSpace : List Patch} {passes : Patch → Bool}
  {valid : σ → Prop}

theorem repair_eq (validatePatch : Patch → Bool) (patchOutput : String)
    (hvalidate : cfg.validatePatches = false)
    (hfind : FindsNext findNext (prioritize searchSpace (patchCost searchSpace)) passes valid)
    (hengine : valid (createEngine (prioritize searchSpace (patchCost searchSpace)))) :
    repair cfg findNext validatePatch createEngine patchOutput searchSpace =
      some (report cfg patchOutput
        (reported cfg ((prioritize searchSpace (patchCost searchSpace)).filter passes))) := by
  simp only [repair, hvalidate, Bool.false_and, Bool.false_eq_true, if_false, reported]
  cases hgenerate : cfg.generateAll with
  | false =>
      rw [plausibleLoop_single hfind hgenerate _ _ hengine]
      rfl
  | true =>
      rw [plausibleLoop_all hfind hgenerate _ _ _ _ hengine (Nat.zero_le _) (by omega),
        List.drop_zero, List.nil_append]
      rfl

end Repair

/-! ## The search engine as the parameter -/

def engineFindNext {ω : Type} (cfg : Config) (harness : TestHarness ω)
    (searchSpace : List Patch) (start : Nat) (engine : SearchEngine ω) :
    Option (Nat × SearchEngine ω) :=
  engine.findNext cfg harness searchSpace start

section Engine

variable {ω : Type} (cfg : Config) {harness : TestHarness ω} {searchSpace : List Patch}
  {tests : List String} {table : Location → Option (List Nat)}
  {status : PatchID → String → TestStatus} {passes : Patch → Bool}
  (hids : (searchSpace.map Patch.id).Nodup)
  (hlocations : ∀ p ∈ searchSpace, ∀ q ∈ searchSpace,
    p.app.id = q.app.id → p.app.location = q.app.location)
  (hindexes : ∀ location, ∀ i ∈ (table location).getD [], i < tests.length)

section Prepared

variable (hfaithful : harness.FaithfulUnder cfg searchSpace status)
  (hpasses : ∀ patch, passes patch = true ↔
    Plausible tests (fun location => (table location).getD []) status patch)

include hids hlocations hindexes hfaithful hpasses

theorem engine_findsNext_prepared {reordered : List Patch}
    (hperm : reordered.Perm searchSpace) :
    FindsNext (engineFindNext cfg harness) reordered passes
      (SearchEngine.Consistent reordered tests (fun location => (table location).getD [])
        status) where
  next := by
    intro start engine hstart hconsistent
    have hiff : (passes · = true) =
        Plausible tests (fun location => (table location).getD []) status :=
      funext fun patch => propext (hpasses patch)
    rw [hiff]
    exact SearchEngine.findNext_prepared cfg ((hperm.map _).nodup_iff.mpr hids)
      (fun p hp q hq => hlocations p (hperm.mem_iff.mp hp) q (hperm.mem_iff.mp hq))
      hindexes (hfaithful.perm hperm) start engine hconsistent hstart

end Prepared

variable (hfaithful : harness.Faithful searchSpace status)
  (hpasses : ∀ patch, passes patch = true ↔
    Plausible tests (fun location => (table location).getD []) status patch)

include hids hlocations hindexes hfaithful hpasses

theorem engine_findsNext {reordered : List Patch} (hperm : reordered.Perm searchSpace) :
    FindsNext (engineFindNext cfg harness) reordered passes
      (SearchEngine.Consistent reordered tests (fun location => (table location).getD [])
        status) :=
  engine_findsNext_prepared cfg hids hlocations hindexes (hfaithful.under cfg) hpasses hperm

/-- Prioritization, memoised search and output together. -/
theorem repair_with_engine (validatePatch : Patch → Bool) (patchOutput : String) (world : ω)
    (hvalidate : cfg.validatePatches = false)
    (hsize : cfg.outputTop < 0 → searchSpace.length < 2 ^ 63) :
    ∃ result,
      repair cfg (engineFindNext cfg harness) validatePatch
          (fun sorted => .create tests (getPartitionable sorted) table world)
          patchOutput searchSpace = some result ∧
        ReportsCheapest cfg searchSpace passes result := by
  have hsorted := prioritize_stableOrder hids
  have hfind := engine_findsNext cfg hids hlocations hindexes hfaithful hpasses hsorted.perm
  exact ⟨_, repair_eq validatePatch patchOutput hvalidate hfind
      (SearchEngine.create_consistent table world),
    report_cheapest patchOutput (hsorted.filter passes) hsize⟩

end Engine

private theorem twoPatches_findsNext :
    FindsNext (engineFindNext .default SearchEngine.twoPatchesHarness)
      (prioritize SearchEngine.twoPatches (patchCost SearchEngine.twoPatches))
      (fun patch => patch.id.base ≠ 1)
      (SearchEngine.Consistent
        (prioritize SearchEngine.twoPatches (patchCost SearchEngine.twoPatches))
        ["n1", "n2"] (fun _ => [0, 1]) SearchEngine.twoPatchesStatus) := by
  have hids : (SearchEngine.twoPatches.map Patch.id).Nodup := by decide
  have hindexes : ∀ location : Location, ∀ i ∈ (some [0, 1]).getD [],
      i < ["n1", "n2"].length := fun _ => by decide
  refine engine_findsNext .default hids (by decide) hindexes
    SearchEngine.twoPatchesHarness_faithful ?_ (prioritize_stableOrder hids).perm
  intro patch
  simp [Plausible, SearchEngine.twoPatchesStatus]

/-! ## Any engine that finds the next passing patch -/

/--
The reported patches are the cheapest passing ones, for every engine that finds
the next passing patch.
-/
theorem repair_cheapest {σ : Type} (cfg : Config)
    (findNext : List Patch → Nat → σ → Option (Nat × σ)) (validatePatch : Patch → Bool)
    (createEngine : List Patch → σ) (patchOutput : String) (searchSpace : List Patch)
    (passes : Patch → Bool) (valid : σ → Prop)
    (hids : (searchSpace.map Patch.id).Nodup)
    (hvalidate : cfg.validatePatches = false)
    (hsize : cfg.outputTop < 0 → searchSpace.length < 2 ^ 63)
    (hfind : FindsNext findNext (prioritize searchSpace (patchCost searchSpace)) passes valid)
    (hengine : valid (createEngine (prioritize searchSpace (patchCost searchSpace)))) :
    ∃ result,
      repair cfg findNext validatePatch createEngine patchOutput searchSpace = some result ∧
        ReportsCheapest cfg searchSpace passes result :=
  ⟨_, repair_eq validatePatch patchOutput hvalidate hfind hengine,
    report_cheapest patchOutput ((prioritize_stableOrder hids).filter passes) hsize⟩

theorem repair_cheapest_twoPatches :
    ∃ result,
      repair .default (engineFindNext .default SearchEngine.twoPatchesHarness) (fun _ => true)
          (fun sorted =>
            .create ["n1", "n2"] (getPartitionable sorted) (fun _ => some [0, 1]) ∅)
          "f1x.patch" SearchEngine.twoPatches = some result ∧
        ReportsCheapest .default SearchEngine.twoPatches (fun patch => patch.id.base ≠ 1)
          result :=
  repair_cheapest .default _ (fun _ => true) _ "f1x.patch" SearchEngine.twoPatches _ _
    (by decide) rfl (fun h => absurd h (by decide)) twoPatches_findsNext
    (SearchEngine.create_consistent (fun _ => some [0, 1]) ∅)

end F1X
