import F1X.Global
import F1X.Library.NextIndex
import Mathlib.Data.Finset.Lattice.Lemmas
import Mathlib.Data.List.Perm.Basic
import Mathlib.Logic.Function.Basic

/-!
# The search engine

`findNext` of `repair/SearchEngine.cpp` with the sets it remembers and the test
order it changes.  The test driver and the analysis runtime are a parameter;
reading a vector behind its end is `none`.
-/

namespace F1X

open Library

abbrev Coverage := String → Finset Nat

/-- The test driver and the analysis runtime over the state `ω` of the outside world. -/
structure TestHarness (ω : Type) where
  execute : (environment : List (String × String)) → (test : String) → ω → TestStatus × ω
  setPartition : Finset PatchID → ω → ω
  getPartition : ω → Finset PatchID
  extractAndSaveCoverage : (coverageFile : String) → ω → Coverage

structure SearchStatistics where
  explorationCounter : Nat
  executionCounter : Nat
  timeoutCounter : Nat
  nonTimeoutCounter : Nat
  deriving DecidableEq, Repr

namespace SearchStatistics

def countExecution (stat : SearchStatistics) (status : TestStatus) : SearchStatistics :=
  let stat := { stat with executionCounter := stat.executionCounter + 1 }
  if status = .timeout then { stat with timeoutCounter := stat.timeoutCounter + 1 }
  else { stat with nonTimeoutCounter := stat.nonTimeoutCounter + 1 }

end SearchStatistics

/-- A key that a map does not have stands for the empty value `operator[]` creates. -/
structure SearchEngine (ω : Type) where
  tests : List String
  partitionable : AppID → Finset PatchID
  stat : SearchStatistics
  failing : Finset PatchID
  passing : String → Finset PatchID
  coverageSet : String → PatchID → Option Coverage
  relatedTestIndexes : Location → List Nat
  world : ω

def getPartitionable (searchSpace : List Patch) : AppID → Finset PatchID :=
  searchSpace.foldl
    (fun result el =>
      Function.update result el.app.id (insert el.id (result el.app.id)))
    fun _ => ∅

def environment (elem : Patch) : List (String × String) :=
  [("F1X_APP", toString elem.app.id),
   ("F1X_ID_BASE", toString elem.id.base),
   ("F1X_ID_INT2", toString elem.id.int2),
   ("F1X_ID_BOOL2", toString elem.id.bool2),
   ("F1X_ID_COND3", toString elem.id.cond3),
   ("F1X_ID_PARAM", toString elem.id.param)]

/-- `none` when the index is behind the end. -/
def prioritizeTest (testOrder : List Nat) (index : Nat) : Option (List Nat) := do
  let temp ← testOrder[index]?
  some (temp :: testOrder.eraseIdx index)

namespace SearchEngine

variable {ω : Type} (cfg : Config) (harness : TestHarness ω)

def create (tests : List String) (partitionable : AppID → Finset PatchID)
    (relatedTestIndexes : Location → Option (List Nat)) (world : ω) : SearchEngine ω where
  tests := tests
  partitionable := partitionable
  stat := ⟨0, 0, 0, 0⟩
  failing := ∅
  passing := fun _ => ∅
  coverageSet := fun _ _ => none
  relatedTestIndexes := fun location => (relatedTestIndexes location).getD []
  world := world

/-- What is remembered about one execution when test equivalence is on. -/
def recordPartition (index : Nat) (elem : Patch) (test : String) (passAll : Bool)
    (engine : SearchEngine ω) : SearchEngine ω :=
  let partition := harness.getPartition engine.world
  let coverageSet :=
    if cfg.patchPrioritization = .semanticDiff then
      let curCoverage := harness.extractAndSaveCoverage
        (test ++ "_" ++ toString index ++ ".xml") engine.world
      Function.update engine.coverageSet test fun id =>
        if id = elem.id ∨ id ∈ partition then some curCoverage
        else engine.coverageSet test id
    else engine.coverageSet
  if passAll then
    { engine with
      coverageSet := coverageSet
      passing := Function.update engine.passing test
        (insert elem.id (engine.passing test) ∪ partition) }
  else
    { engine with
      coverageSet := coverageSet
      failing := insert elem.id engine.failing ∪ partition }

/-- One execution in the inner loop of `findNext`, with all that is recorded about it. -/
def executeTest (index : Nat) (elem : Patch) (test : String) (engine : SearchEngine ω) :
    Bool × SearchEngine ω :=
  let before :=
    if cfg.valueTEQ then
      harness.setPartition (engine.partitionable elem.app.id) engine.world
    else engine.world
  let (status, after) := harness.execute (environment elem) test before
  let executed :=
    { engine with world := after, stat := engine.stat.countExecution status }
  let passAll : Bool := status = .pass
  (passAll,
    if cfg.valueTEQ then executed.recordPartition cfg harness index elem test passAll
    else executed)

def runTests (index : Nat) (elem : Patch) (orderIndex : Nat) (testOrder : List Nat)
    (passAll : Bool) (engine : SearchEngine ω) : Option (Bool × SearchEngine ω) :=
  match testOrder with
  | [] => some (passAll, engine)
  | testIndex :: testOrder => do
      let test ← engine.tests[testIndex]?
      -- `continue`: `passAll` keeps its value
      if cfg.valueTEQ ∧ elem.id ∈ engine.passing test then
        runTests index elem (orderIndex + 1) testOrder passAll engine
      else
        let (passAll, engine) := engine.executeTest cfg harness index elem test
        if passAll then
          runTests index elem (orderIndex + 1) testOrder passAll engine
        else if cfg.testPrioritization = .maxFailing then
          let prioritized ←
            prioritizeTest (engine.relatedTestIndexes elem.app.location) orderIndex
          some (passAll,
            { engine with
              relatedTestIndexes :=
                Function.update engine.relatedTestIndexes elem.app.location prioritized })
        else
          some (passAll, engine)

def findNextFrom (index : Nat) (rest : List Patch) (engine : SearchEngine ω) :
    Option (Nat × SearchEngine ω) :=
  match rest with
  | [] => some (index, engine)
  | elem :: rest => do
      let engine : SearchEngine ω :=
        { engine with
          stat := { engine.stat with
            explorationCounter := engine.stat.explorationCounter + 1 } }
      if cfg.valueTEQ ∧ elem.id ∈ engine.failing then
        findNextFrom (index + 1) rest engine
      else
        let (passAll, engine) ← runTests cfg harness index elem 0
          (engine.relatedTestIndexes elem.app.location) true engine
        if passAll then some (index, engine)
        else findNextFrom (index + 1) rest engine

def findNext (searchSpace : List Patch) (start : Nat) (engine : SearchEngine ω) :
    Option (Nat × SearchEngine ω) :=
  findNextFrom cfg harness start (searchSpace.drop start) engine

/-- Calls of `findNext` one after the other on the same engine. -/
def findNexts (searchSpace : List Patch) (starts : List Nat) (engine : SearchEngine ω) :
    Option (List Nat × SearchEngine ω) :=
  match starts with
  | [] => some ([], engine)
  | start :: starts => do
      let (hit, engine) ← findNext cfg harness searchSpace start engine
      let (hits, engine) ← findNexts searchSpace starts engine
      some (hit :: hits, engine)

end SearchEngine

end F1X
