import F1X.Library.ScopedBindings
import F1X.Repair.Project

/-!
# The process environment

What the calls of `repair` do to the environment of the process.  The class
`InEnvironment` of `repair/Util.cpp` is a scope: its constructor is `enter`, its
destructor is `leave`.
-/

namespace F1X

open Library

inductive SystemCommand where
  | build (cmd : String)
  | execute (test : String)
  deriving DecidableEq, Repr

abbrev Environment := Bindings String String

abbrev EnvironmentScript := Script String String SystemCommand

namespace Environment

/-! ## Builds and tests -/

def buildInEnvironment (environment : Settings String String) (baseCmd : String) :
    EnvironmentScript :=
  .scope environment (.command (.build baseCmd) .done) .done

def compilerSettings : Settings String String where
  entries := Project.compilers
  nodup := by decide

def runtimeSettings (dataDir header : String) : Settings String String where
  entries := Project.compilers ++
    [("F1X_RUNTIME_H", header), ("F1X_RUNTIME_LIB", dataDir), ("LD_LIBRARY_PATH", dataDir)]
  nodup := by
    change ["CC", "CXX", "F1X_RUNTIME_H", "F1X_RUNTIME_LIB", "LD_LIBRARY_PATH"].Nodup
    decide

def testSettings (dataDir : String) : Settings String String where
  entries := [("LD_LIBRARY_PATH", dataDir)]
  nodup := List.nodup_singleton _

def candidateSettings (elem : Patch) : Settings String String where
  entries := environment elem
  nodup := by
    change ["F1X_APP", "F1X_ID_BASE", "F1X_ID_INT2", "F1X_ID_BOOL2", "F1X_ID_COND3",
      "F1X_ID_PARAM"].Nodup
    decide

def executeTests (dataDir : String) (next : EnvironmentScript) : List String → EnvironmentScript
  | [] => next
  | test :: tests =>
      .scope (testSettings dataDir) (.command (.execute test) .done)
        (executeTests dataDir next tests)

/-! ## The loops of `findNext` -/

section FindNext

variable {ω : Type} (cfg : Config) (harness : TestHarness ω)

/-- The tests that `runTests` executes, in order. -/
def executedTests (index : Nat) (elem : Patch) : List Nat → SearchEngine ω → List String
  | [], _ => []
  | testIndex :: testOrder, engine =>
      match engine.tests[testIndex]? with
      | none => []
      | some test =>
          if cfg.valueTEQ ∧ elem.id ∈ engine.passing test then
            executedTests index elem testOrder engine
          else
            let (passAll, engine) := engine.executeTest cfg harness index elem test
            test :: if passAll then executedTests index elem testOrder engine else []

/-- The candidates for which `findNextFrom` opens a scope, with the tests it executes. -/
def visits (index : Nat) : List Patch → SearchEngine ω → List (Patch × List String)
  | [], _ => []
  | elem :: rest, engine =>
      let engine : SearchEngine ω :=
        { engine with
          stat := { engine.stat with
            explorationCounter := engine.stat.explorationCounter + 1 } }
      if cfg.valueTEQ ∧ elem.id ∈ engine.failing then
        visits (index + 1) rest engine
      else
        let testOrder := engine.relatedTestIndexes elem.app.location
        (elem, executedTests cfg harness index elem testOrder engine) ::
          match engine.runTests cfg harness index elem 0 testOrder true with
          | some (false, engine) => visits (index + 1) rest engine
          | _ => []

def visitCandidates (dataDir : String) : List (Patch × List String) → EnvironmentScript
  | [] => .done
  | (elem, tests) :: rest =>
      .scope (candidateSettings elem) (executeTests dataDir .done tests)
        (visitCandidates dataDir rest)

end FindNext

/-! ## Calls -/

inductive Call (ω : Type) where
  | initialBuild (cmd : String)
  | build
  | buildWithRuntime (header : String)
  | execute (test : String)
  | findNext (searchSpace : List Patch) (start : Nat) (engine : SearchEngine ω)

section Calls

variable {ω : Type} (cfg : Config) (harness : TestHarness ω) (args : Arguments)

def Call.script : Call ω → EnvironmentScript
  | .initialBuild cmd => buildInEnvironment compilerSettings cmd
  | .build => buildInEnvironment compilerSettings args.buildCmd
  | .buildWithRuntime header =>
      buildInEnvironment (runtimeSettings args.dataDir header) args.buildCmd
  | .execute test => executeTests args.dataDir .done [test]
  | .findNext searchSpace start engine =>
      visitCandidates args.dataDir
        (visits cfg harness start (searchSpace.drop start) engine)

def runCalls (env : Environment) (calls : List (Call ω)) : Environment :=
  calls.foldl (fun env call => (call.script cfg harness args).after env) env

/-- Whether a test is left to execute when those that passed already are skipped. -/
def executesTest (elem : Patch) (tests : List String) (passing : String → Finset PatchID) :
    List Nat → Bool
  | [] => false
  | testIndex :: testOrder =>
      match tests[testIndex]? with
      | none => false
      | some test =>
          if cfg.valueTEQ ∧ elem.id ∈ passing test then
            executesTest elem tests passing testOrder
          else true

/-- The first candidate that is not known to fail. -/
def firstExplored (failing : Finset PatchID) : List Patch → Option Patch
  | [] => none
  | elem :: rest =>
      if cfg.valueTEQ ∧ elem.id ∈ failing then firstExplored failing rest else some elem

def candidateNames : List String :=
  ["F1X_APP", "F1X_ID_BASE", "F1X_ID_INT2", "F1X_ID_BOOL2", "F1X_ID_COND3", "F1X_ID_PARAM"]

/-- The variables that a call sets, read off its arguments and the state of the engine. -/
def Call.sets : Call ω → List String
  | .initialBuild _ => ["CC", "CXX"]
  | .build => ["CC", "CXX"]
  | .buildWithRuntime _ => ["CC", "CXX", "F1X_RUNTIME_H", "F1X_RUNTIME_LIB", "LD_LIBRARY_PATH"]
  | .execute _ => ["LD_LIBRARY_PATH"]
  | .findNext searchSpace start engine =>
      match firstExplored cfg engine.failing (searchSpace.drop start) with
      | none => []
      | some elem =>
          candidateNames ++
            if executesTest cfg elem engine.tests engine.passing
                (engine.relatedTestIndexes elem.app.location) then
              ["LD_LIBRARY_PATH"]
            else []

end Calls

/-! ## Which variables a call sets -/

theorem mem_keys_executeTests {dataDir name : String} {tests : List String} :
    name ∈ (executeTests dataDir .done tests).keys ↔ tests ≠ [] ∧ name = "LD_LIBRARY_PATH" := by
  induction tests with
  | nil => simp [executeTests, Script.keys]
  | cons test tests ih =>
      have hkeys : (testSettings dataDir).keys = ["LD_LIBRARY_PATH"] := rfl
      simp only [executeTests, Script.keys, List.mem_append, ih, hkeys]
      simp

private theorem mem_keys_visitCandidates {dataDir name : String}
    {candidates : List (Patch × List String)} :
    name ∈ (visitCandidates dataDir candidates).keys ↔
      (candidates ≠ [] ∧ name ∈ candidateNames) ∨
        ((∃ visit ∈ candidates, visit.2 ≠ []) ∧ name = "LD_LIBRARY_PATH") := by
  induction candidates with
  | nil => simp [visitCandidates, Script.keys]
  | cons visit candidates ih =>
      obtain ⟨elem, tests⟩ := visit
      have hkeys : (candidateSettings elem).keys = candidateNames := rfl
      simp only [visitCandidates, Script.keys, List.mem_append, ih, mem_keys_executeTests, hkeys,
        List.exists_mem_cons_iff, ne_eq, reduceCtorEq, not_false_eq_true, true_and]
      tauto

section Visits

variable {ω : Type} {cfg : Config} {harness : TestHarness ω}

theorem executedTests_eq_nil_iff {index : Nat} {elem : Patch} {testOrder : List Nat}
    {engine : SearchEngine ω} :
    executedTests cfg harness index elem testOrder engine = [] ↔
      executesTest cfg elem engine.tests engine.passing testOrder = false := by
  induction testOrder with
  | nil => simp [executedTests, executesTest]
  | cons testIndex testOrder ih =>
      unfold executedTests executesTest
      cases engine.tests[testIndex]? with
      | none => simp
      | some test =>
          dsimp only
          split
          · exact ih
          · simp

private theorem runTests_of_no_execution {index orderIndex : Nat} {elem : Patch}
    {testOrder : List Nat} {engine after : SearchEngine ω}
    (h : executesTest cfg elem engine.tests engine.passing testOrder = false) :
    SearchEngine.runTests cfg harness index elem orderIndex testOrder true engine ≠
      some (false, after) := by
  induction testOrder generalizing orderIndex with
  | nil => simp [SearchEngine.runTests]
  | cons testIndex testOrder ih =>
      unfold executesTest at h
      unfold SearchEngine.runTests
      cases hget : engine.tests[testIndex]? with
      | none => simp
      | some test =>
          rw [hget] at h
          dsimp only at h
          by_cases hskip : cfg.valueTEQ ∧ elem.id ∈ engine.passing test
          · rw [if_pos hskip] at h
            simp only [Option.bind_eq_bind, Option.bind_some]
            rw [if_pos hskip]
            exact ih h
          · rw [if_neg hskip] at h
            cases h

private theorem visits_none {index : Nat} {rest : List Patch} {engine : SearchEngine ω}
    (h : firstExplored cfg engine.failing rest = none) :
    visits cfg harness index rest engine = [] := by
  induction rest generalizing index engine with
  | nil => rfl
  | cons elem rest ih =>
      unfold firstExplored at h
      unfold visits
      by_cases hskip : cfg.valueTEQ ∧ elem.id ∈ engine.failing
      · rw [if_pos hskip] at h
        dsimp only
        rw [if_pos hskip]
        exact ih h
      · rw [if_neg hskip] at h
        cases h

private theorem visits_some {index : Nat} {rest : List Patch} {engine : SearchEngine ω}
    {elem : Patch} (h : firstExplored cfg engine.failing rest = some elem) :
    visits cfg harness index rest engine ≠ [] ∧
      ((∃ visit ∈ visits cfg harness index rest engine, visit.2 ≠ []) ↔
        executesTest cfg elem engine.tests engine.passing
          (engine.relatedTestIndexes elem.app.location) = true) := by
  induction rest generalizing index engine with
  | nil => cases h
  | cons first rest ih =>
      unfold firstExplored at h
      unfold visits
      by_cases hskip : cfg.valueTEQ ∧ first.id ∈ engine.failing
      · rw [if_pos hskip] at h
        dsimp only
        rw [if_pos hskip]
        exact ih h
      · rw [if_neg hskip] at h
        obtain rfl := Option.some.inj h
        dsimp only
        rw [if_neg hskip]
        refine ⟨List.cons_ne_nil _ _, ?_⟩
        rw [List.exists_mem_cons_iff]
        cases hexecutes : executesTest cfg first engine.tests engine.passing
            (engine.relatedTestIndexes first.app.location) with
        | true =>
            refine iff_of_true (Or.inl fun hnil => ?_) rfl
            have hnone := executedTests_eq_nil_iff.mp hnil
            rw [hexecutes] at hnone
            cases hnone
        | false =>
            refine iff_of_false ?_ Bool.false_ne_true
            rintro (hfirst | ⟨visit, hvisit, -⟩)
            · exact hfirst (executedTests_eq_nil_iff.mpr hexecutes)
            · split at hvisit
              · rename_i hrun
                exact runTests_of_no_execution (by exact hexecutes) hrun
              · cases hvisit

end Visits

section Results

variable {ω : Type} {cfg : Config} {harness : TestHarness ω} {args : Arguments}

private theorem mem_keys_script {call : Call ω} {name : String} :
    name ∈ (call.script cfg harness args).keys ↔ name ∈ call.sets cfg := by
  cases call with
  | initialBuild cmd => exact Iff.of_eq (congrArg (name ∈ ·) (List.append_nil _))
  | build => exact Iff.of_eq (congrArg (name ∈ ·) (List.append_nil _))
  | buildWithRuntime header => exact Iff.of_eq (congrArg (name ∈ ·) (List.append_nil _))
  | execute test =>
      rw [Call.script, mem_keys_executeTests]
      simp [Call.sets]
  | findNext searchSpace start engine =>
      rw [Call.script, mem_keys_visitCandidates, Call.sets]
      cases hfirst : firstExplored cfg engine.failing (searchSpace.drop start) with
      | none => simp [visits_none hfirst]
      | some elem =>
          obtain ⟨hvisits, hexecutes⟩ := @visits_some _ _ harness start _ _ _ hfirst
          rw [hexecutes]
          by_cases h : executesTest cfg elem engine.tests engine.passing
              (engine.relatedTestIndexes elem.app.location) = true <;>
            simp [hvisits, h]

theorem call_after_eq_iff {call : Call ω} {env : Environment} :
    (call.script cfg harness args).after env = env ↔
      ∀ name ∈ call.sets cfg, (env name).isSome := by
  rw [Script.after_eq_iff]
  exact forall_congr' fun name => imp_congr_left mem_keys_script

theorem runCalls_append (env : Environment) (before rest : List (Call ω)) :
    runCalls cfg harness args env (before ++ rest) =
      runCalls cfg harness args (runCalls cfg harness args env before) rest :=
  List.foldl_append

private theorem runCalls_singleton (env : Environment) (call : Call ω) :
    runCalls cfg harness args env [call] = (call.script cfg harness args).after env := rfl

theorem runCalls_eq {env : Environment} {calls : List (Call ω)}
    (h : ∀ call ∈ calls, (call.script cfg harness args).after env = env) :
    runCalls cfg harness args env calls = env := by
  induction calls with
  | nil => rfl
  | cons call calls ih =>
      rw [← List.singleton_append, runCalls_append, runCalls_singleton,
        h call List.mem_cons_self]
      exact ih fun other hother => h other (List.mem_cons_of_mem _ hother)

/-- After every call of the sequence the environment is what it was before the call. -/
def KeepsEnvironment (cfg : Config) (harness : TestHarness ω) (args : Arguments)
    (env : Environment) (calls : List (Call ω)) : Prop :=
  ∀ before call rest, calls = before ++ call :: rest →
    runCalls cfg harness args env (before ++ [call]) = runCalls cfg harness args env before

/-- The build of a patched project sees the runtime variables that the process started with. -/
def BuildsWithoutRuntime (cfg : Config) (harness : TestHarness ω) (args : Arguments)
    (env : Environment) (calls : List (Call ω)) : Prop :=
  ∀ before rest, calls = before ++ Call.build :: rest →
    ∀ command ∈ ((Call.build : Call ω).script cfg harness args).seen
        (runCalls cfg harness args env before),
      ∀ name ∈ ["F1X_RUNTIME_H", "F1X_RUNTIME_LIB"], command.2 name = env name

theorem KeepsEnvironment.runCalls_eq {env : Environment} {calls : List (Call ω)}
    (h : KeepsEnvironment cfg harness args env calls) {before rest : List (Call ω)}
    (hsplit : calls = before ++ rest) : runCalls cfg harness args env before = env := by
  induction before using List.reverseRecOn generalizing rest with
  | nil => rfl
  | append_singleton before call ih =>
      rw [List.append_assoc, List.singleton_append] at hsplit
      rw [h before call rest hsplit]
      exact ih hsplit

/--
Environment changes do not outlive the calls that make them exactly if every
variable that a call sets was defined when the process started.
-/
theorem environment_kept_iff (cfg : Config) (harness : TestHarness ω) (args : Arguments)
    (env : Environment) (calls : List (Call ω)) :
    (KeepsEnvironment cfg harness args env calls ∧
        BuildsWithoutRuntime cfg harness args env calls) ↔
      ∀ call ∈ calls, ∀ name ∈ call.sets cfg, (env name).isSome := by
  constructor
  · rintro ⟨hkeeps, -⟩ call hcall
    obtain ⟨before, rest, hsplit⟩ := List.append_of_mem hcall
    have hcalls := hkeeps before call rest hsplit
    rw [runCalls_append, hkeeps.runCalls_eq hsplit] at hcalls
    exact call_after_eq_iff.mp hcalls
  · intro hdefined
    have hstart : ∀ before rest, calls = before ++ rest →
        runCalls cfg harness args env before = env := by
      intro before rest hsplit
      refine runCalls_eq fun call hcall => call_after_eq_iff.mpr (hdefined call ?_)
      rw [hsplit]
      exact List.mem_append_left _ hcall
    constructor
    · intro before call rest hsplit
      rw [hstart before _ hsplit, hstart (before ++ [call]) rest (by simp [hsplit])]
    · intro before rest hsplit command hcommand name hname
      rw [hstart before _ hsplit] at hcommand
      have hseen : command = (.build args.buildCmd, compilerSettings.entered env) := by
        simpa [Call.script, buildInEnvironment, Script.seen] using hcommand
      rw [hseen]
      change compilerSettings.entered env name = env name
      refine Settings.entered_of_notMem fun hkey => ?_
      have hnot : ∀ name ∈ ["F1X_RUNTIME_H", "F1X_RUNTIME_LIB"], name ∉ ["CC", "CXX"] := by
        decide
      exact hnot name hname hkey

end Results

def passingHarness : TestHarness Unit where
  execute := fun _ _ world => (.pass, world)
  setPartition := fun _ world => world
  getPartition := fun _ => ∅
  extractAndSaveCoverage := fun _ _ _ => ∅

def makeArguments : Arguments := ⟨["n1"], "make", "f1x.patch", "/tmp/f1x"⟩

private theorem runtime_header_after_build :
    runCalls .default passingHarness makeArguments (fun _ => none)
      [.buildWithRuntime "rt.h"] "F1X_RUNTIME_H" = some "rt.h" := by
  decide

/-- The build that follows a build with the runtime in an empty environment sees its header. -/
theorem runtime_variables_left_over :
    ¬KeepsEnvironment .default passingHarness makeArguments (fun _ => none)
        [.buildWithRuntime "rt.h", .build] ∧
      ¬BuildsWithoutRuntime .default passingHarness makeArguments (fun _ => none)
        [.buildWithRuntime "rt.h", .build] := by
  have hleft := runtime_header_after_build
  constructor
  · intro hkeeps
    have hcalls := congrFun (hkeeps [] (.buildWithRuntime "rt.h") [.build] rfl) "F1X_RUNTIME_H"
    rw [List.nil_append, hleft] at hcalls
    cases hcalls
  · intro hbuilds
    have hseen := hbuilds [.buildWithRuntime "rt.h"] [] rfl _ List.mem_cons_self
      "F1X_RUNTIME_H" (by decide)
    dsimp only at hseen
    rw [Settings.entered_of_notMem (by decide), hleft] at hseen
    cases hseen

end Environment

end F1X
