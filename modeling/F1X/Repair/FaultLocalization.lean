import F1X.Library.StableOrder
import F1X.Repair.SearchEngine
import Mathlib.Algebra.BigOperators.Ring.Finset
import Mathlib.Algebra.Order.BigOperators.Group.Finset
import Mathlib.Algebra.Order.Field.Basic
import Mathlib.Algebra.Order.Ring.Rat
import Mathlib.Data.Rat.Cast.Order

/-!
# Fault localization

`localize` of `repair/FaultLocalization.cpp` with exact rationals for its scores.
The outcome of a test and the coverage extracted after it are a parameter; a file
that the coverage does not mention has no covered lines.
-/

namespace F1X

open Library

/-- The tests in order; `none` is a coverage that cannot be extracted. -/
structure TestSuite where
  tests : List String
  execute : String → TestStatus
  extractAndSaveCoverage : (coverageFile : String) → Option Coverage

namespace FaultLocalization

def useCustomScore : Bool := true

def tarantula (passedStmt failedStmt totalPassed totalFailed : Nat) : ℚ :=
  let a : ℚ := if totalFailed = 0 then 0 else failedStmt / totalFailed
  let b : ℚ := if totalPassed = 0 then 0 else passedStmt / totalPassed
  if a + b = 0 then 0 else a / (a + b)

def tarantulaCustom (passedStmt failedStmt totalPassed totalFailed : Nat) : ℚ :=
  let a : ℚ := if totalFailed = failedStmt then 1 else 0
  let b : ℚ := if totalPassed = 0 then 0 else passedStmt / totalPassed
  if a + b = 0 then 0 else a / (a + b)

/-! ## The executions -/

structure Executions where
  coverage : String → Coverage
  passedTests : Finset String

def saveCoverage (suite : TestSuite) (test : String) (executions : Executions) : Executions :=
  match suite.extractAndSaveCoverage (test ++ ".xml") with
  | some coverage =>
      { executions with coverage := Function.update executions.coverage test coverage }
  | none => executions

def executeTest (suite : TestSuite) (executions : Executions) (test : String) : Executions :=
  match suite.execute test with
  | .pass =>
      saveCoverage suite test
        { executions with passedTests := insert test executions.passedTests }
  | .fail => saveCoverage suite test executions
  | .timeout => executions

def execute (suite : TestSuite) : Executions :=
  suite.tests.foldl (executeTest suite) ⟨fun _ _ => ∅, ∅⟩

/-! ## The scores -/

/-- The tables of one file; a line without an entry has not been counted yet. -/
structure LineCounts where
  allLines : Finset Nat
  numPassed : Nat → Option Nat
  numFailed : Nat → Option Nat

def countLines (lines : Finset Nat) (count : Nat → Option Nat) : Nat → Option Nat :=
  fun line =>
    if line ∈ lines then
      match count line with
      | some n => some (n + 1)
      | none => some 1
    else count line

def countTest (executions : Executions) (filename : String) (counts : LineCounts)
    (test : String) : LineCounts :=
  let lines := executions.coverage test filename
  if test ∈ executions.passedTests then
    { counts with
      allLines := counts.allLines ∪ lines
      numPassed := countLines lines counts.numPassed }
  else
    { counts with
      allLines := counts.allLines ∪ lines
      numFailed := countLines lines counts.numFailed }

def countTests (suite : TestSuite) (executions : Executions) (filename : String) : LineCounts :=
  suite.tests.foldl (countTest executions filename) ⟨∅, fun _ => none, fun _ => none⟩

def lineScore (suite : TestSuite) (executions : Executions) (counts : LineCounts)
    (line : Nat) : ℚ :=
  let totalPassed := executions.passedTests.card
  let totalFailed := suite.tests.length - executions.passedTests.card
  let passedStmt := (counts.numPassed line).getD 0
  let failedStmt := (counts.numFailed line).getD 0
  if useCustomScore then tarantulaCustom passedStmt failedStmt totalPassed totalFailed
  else tarantula passedStmt failedStmt totalPassed totalFailed

def fileScore (suite : TestSuite) (filename : String) : ℚ :=
  let executions := execute suite
  let counts := countTests suite executions filename
  ∑ line ∈ counts.allLines, lineScore suite executions counts line

/-- The last loop; it counts the files to return. -/
def localizedLength (filesToLocalize : Nat) (score : String → ℚ) :
    (length : Nat) → List String → Nat
  | length, [] => length
  | length, file :: files =>
      if length < filesToLocalize ∧ 0 < score file then
        localizedLength filesToLocalize score (length + 1) files
      else length

def localize (suite : TestSuite) (filesToLocalize : Nat) (allFiles : List String) :
    List String :=
  let score := fileScore suite
  let sorted := allFiles.mergeSort fun a b => !decide (score b > score a)
  sorted.take (localizedLength filesToLocalize score 0 sorted)

/-! ## Suspiciousness -/

section Suspiciousness

variable (suite : TestSuite)

/-- A test that timed out covers nothing. -/
def testCoverage (test : String) : Coverage :=
  if suite.execute test = .timeout then fun _ => ∅
  else (suite.extractAndSaveCoverage (test ++ ".xml")).getD fun _ => ∅

def passing : List String := suite.tests.filter (suite.execute · = .pass)

def nonPassing : List String := suite.tests.filter (suite.execute · ≠ .pass)

def covering (file : String) (line : Nat) (tests : List String) : Nat :=
  tests.countP fun test => line ∈ testCoverage suite test file

def coveredLines (file : String) : Finset Nat :=
  suite.tests.toFinset.biUnion fun test => testCoverage suite test file

def lineSuspiciousness (file : String) (line : Nat) : ℚ :=
  let a : ℚ :=
    if covering suite file line (nonPassing suite) = (nonPassing suite).length then 1 else 0
  let b : ℚ :=
    if passing suite = [] then 0
    else covering suite file line (passing suite) / (passing suite).length
  if a + b = 0 then 0 else a / (a + b)

def suspiciousness (file : String) : ℚ :=
  ∑ line ∈ coveredLines suite file, lineSuspiciousness suite file line

end Suspiciousness

/-! ## The tables -/

section Tables

variable {suite : TestSuite}

theorem saveCoverage_passedTests (test : String) (executions : Executions) :
    (saveCoverage suite test executions).passedTests = executions.passedTests := by
  unfold saveCoverage
  cases suite.extractAndSaveCoverage (test ++ ".xml") <;> rfl

theorem saveCoverage_self {test : String} {executions : Executions}
    (h : suite.execute test ≠ .timeout)
    (hbefore : executions.coverage test = (fun _ => ∅) ∨
      executions.coverage test = testCoverage suite test) :
    (saveCoverage suite test executions).coverage test = testCoverage suite test := by
  unfold saveCoverage testCoverage
  rw [if_neg h]
  unfold testCoverage at hbefore
  rw [if_neg h] at hbefore
  cases hextract : suite.extractAndSaveCoverage (test ++ ".xml") with
  | none =>
      rw [hextract] at hbefore
      rcases hbefore with hbefore | hbefore
      · exact hbefore
      · exact hbefore
  | some coverage => exact Function.update_self ..

theorem saveCoverage_of_ne {test other : String} {executions : Executions}
    (h : other ≠ test) :
    (saveCoverage suite test executions).coverage other = executions.coverage other := by
  unfold saveCoverage
  cases suite.extractAndSaveCoverage (test ++ ".xml") with
  | none => rfl
  | some coverage => exact Function.update_of_ne h ..

/-- What the tables hold after some tests have been executed. -/
structure Recorded (suite : TestSuite) (tests : List String) (executions : Executions) :
    Prop where
  coverage : ∀ test, executions.coverage test =
    if test ∈ tests then testCoverage suite test else fun _ => ∅
  passedTests : ∀ test, test ∈ executions.passedTests ↔
    test ∈ tests ∧ suite.execute test = .pass

theorem Recorded.before {tests : List String} {executions : Executions}
    (h : Recorded suite tests executions) (test : String) :
    executions.coverage test = (fun _ => ∅) ∨
      executions.coverage test = testCoverage suite test := by
  rw [h.coverage]
  split
  · exact Or.inr rfl
  · exact Or.inl rfl

private theorem executeTest_coverage {tests : List String} {executions : Executions}
    (h : Recorded suite tests executions) (test other : String) :
    (executeTest suite executions test).coverage other =
      if other = test then testCoverage suite test else executions.coverage other := by
  unfold executeTest
  by_cases hother : other = test
  · subst hother
    rw [if_pos rfl]
    cases hstatus : suite.execute other with
    | pass => exact saveCoverage_self (by rw [hstatus]; decide) (h.before other)
    | fail => exact saveCoverage_self (by rw [hstatus]; decide) (h.before other)
    | timeout =>
        have htimeout : testCoverage suite other = fun _ => ∅ := by
          rw [testCoverage, if_pos hstatus]
        rcases h.before other with hbefore | hbefore
        · exact hbefore.trans htimeout.symm
        · exact hbefore
  · rw [if_neg hother]
    cases suite.execute test with
    | pass => exact saveCoverage_of_ne hother
    | fail => exact saveCoverage_of_ne hother
    | timeout => rfl

private theorem executeTest_passedTests (executions : Executions) (test : String) :
    (executeTest suite executions test).passedTests =
      if suite.execute test = .pass then insert test executions.passedTests
      else executions.passedTests := by
  unfold executeTest
  cases suite.execute test with
  | pass => exact saveCoverage_passedTests test _
  | fail => exact saveCoverage_passedTests test _
  | timeout => rfl

private theorem executeTest_recorded {tests : List String} {executions : Executions}
    (h : Recorded suite tests executions) (test : String) :
    Recorded suite (tests ++ [test]) (executeTest suite executions test) where
  coverage := by
    intro other
    rw [executeTest_coverage h, h.coverage]
    by_cases hother : other = test
    · simp [hother]
    · simp [hother]
  passedTests := by
    intro other
    rw [executeTest_passedTests]
    split
    · rename_i hpass
      rw [Finset.mem_insert, h.passedTests]
      simp only [List.mem_append, List.mem_singleton]
      constructor
      · rintro (rfl | hother)
        · exact ⟨Or.inr rfl, hpass⟩
        · exact ⟨Or.inl hother.1, hother.2⟩
      · rintro ⟨hother | rfl, hstatus⟩
        · exact Or.inr ⟨hother, hstatus⟩
        · exact Or.inl rfl
    · rename_i hpass
      rw [h.passedTests]
      simp only [List.mem_append, List.mem_singleton]
      constructor
      · rintro ⟨hother, hstatus⟩
        exact ⟨Or.inl hother, hstatus⟩
      · rintro ⟨hother | rfl, hstatus⟩
        · exact ⟨hother, hstatus⟩
        · exact absurd hstatus hpass

private theorem recorded_foldl (tests : List String) :
    Recorded suite tests (tests.foldl (executeTest suite) ⟨fun _ _ => ∅, ∅⟩) := by
  induction tests using List.reverseRecOn with
  | nil => exact ⟨fun _ => by simp, fun _ => by simp⟩
  | append_singleton tests test ih =>
      rw [List.foldl_append]
      exact executeTest_recorded ih test

theorem execute_recorded : Recorded suite suite.tests (execute suite) :=
  recorded_foldl suite.tests

theorem countLines_getD (lines : Finset Nat) (count : Nat → Option Nat) (line : Nat) :
    (countLines lines count line).getD 0 =
      (count line).getD 0 + if line ∈ lines then 1 else 0 := by
  unfold countLines
  split
  · cases count line <;> simp
  · rfl

/-- What the tables of a file hold after some tests have been counted. -/
structure Counted (executions : Executions) (filename : String) (tests : List String)
    (counts : LineCounts) : Prop where
  allLines : counts.allLines =
    tests.toFinset.biUnion fun test => executions.coverage test filename
  numPassed : ∀ line, (counts.numPassed line).getD 0 =
    tests.countP fun test =>
      test ∈ executions.passedTests ∧ line ∈ executions.coverage test filename
  numFailed : ∀ line, (counts.numFailed line).getD 0 =
    tests.countP fun test =>
      test ∉ executions.passedTests ∧ line ∈ executions.coverage test filename

private theorem countTest_counted {executions : Executions} {filename : String}
    {tests : List String}
    {counts : LineCounts} (h : Counted executions filename tests counts) (test : String) :
    Counted executions filename (tests ++ [test]) (countTest executions filename counts test) := by
  have hlines : counts.allLines ∪ executions.coverage test filename =
      (tests ++ [test]).toFinset.biUnion fun test => executions.coverage test filename := by
    rw [h.allLines]
    ext line
    simp [or_comm]
  unfold countTest
  by_cases hpassed : test ∈ executions.passedTests
  · rw [if_pos hpassed]
    refine ⟨hlines, fun line => ?_, fun line => ?_⟩
    · rw [countLines_getD, h.numPassed, List.countP_append, List.countP_singleton]
      simp [hpassed]
    · rw [h.numFailed, List.countP_append, List.countP_singleton]
      simp [hpassed]
  · rw [if_neg hpassed]
    refine ⟨hlines, fun line => ?_, fun line => ?_⟩
    · rw [h.numPassed, List.countP_append, List.countP_singleton]
      simp [hpassed]
    · rw [countLines_getD, h.numFailed, List.countP_append, List.countP_singleton]
      simp [hpassed]

theorem countTests_counted (executions : Executions) (filename : String) :
    Counted executions filename suite.tests (countTests suite executions filename) := by
  unfold countTests
  induction suite.tests using List.reverseRecOn with
  | nil => exact ⟨by simp, fun _ => rfl, fun _ => rfl⟩
  | append_singleton tests test ih =>
      rw [List.foldl_append]
      exact countTest_counted ih test

end Tables

/-! ## The closed form -/

section ClosedForm

variable {suite : TestSuite}

theorem passedTests_card (hnodup : suite.tests.Nodup) :
    (execute suite).passedTests.card = (passing suite).length := by
  have hset : (execute suite).passedTests = (passing suite).toFinset := by
    ext test
    rw [execute_recorded.passedTests]
    simp [passing]
  rw [hset]
  exact List.toFinset_card_of_nodup (hnodup.filter _)

private theorem length_sub_passedTests (hnodup : suite.tests.Nodup) :
    suite.tests.length - (execute suite).passedTests.card = (nonPassing suite).length := by
  have hsplit := @List.length_eq_countP_add_countP _ (suite.execute · = .pass) suite.tests
  rw [passedTests_card hnodup, passing, nonPassing, ← List.countP_eq_length_filter,
    ← List.countP_eq_length_filter]
  simp only [ne_eq, decide_eq_true_eq] at hsplit ⊢
  omega

private theorem numPassed_eq (file : String) (line : Nat) :
    ((countTests suite (execute suite) file).numPassed line).getD 0 =
      covering suite file line (passing suite) := by
  rw [(countTests_counted _ file).numPassed, covering, passing, List.countP_filter]
  refine List.countP_congr fun test htest => ?_
  rw [execute_recorded.coverage, if_pos htest]
  simp [execute_recorded.passedTests, htest, and_comm]

private theorem numFailed_eq (file : String) (line : Nat) :
    ((countTests suite (execute suite) file).numFailed line).getD 0 =
      covering suite file line (nonPassing suite) := by
  rw [(countTests_counted _ file).numFailed, covering, nonPassing, List.countP_filter]
  refine List.countP_congr fun test htest => ?_
  rw [execute_recorded.coverage, if_pos htest]
  simp [execute_recorded.passedTests, htest, and_comm]

private theorem allLines_eq (file : String) :
    (countTests suite (execute suite) file).allLines = coveredLines suite file := by
  rw [(countTests_counted _ file).allLines, coveredLines]
  refine Finset.biUnion_congr rfl fun test htest => ?_
  rw [execute_recorded.coverage, if_pos (List.mem_toFinset.mp htest)]

theorem fileScore_eq (hnodup : suite.tests.Nodup) (file : String) :
    fileScore suite file = suspiciousness suite file := by
  unfold fileScore suspiciousness
  dsimp only
  rw [allLines_eq]
  refine Finset.sum_congr rfl fun line _ => ?_
  unfold lineScore lineSuspiciousness
  dsimp only
  rw [if_pos (show useCustomScore = true from rfl), numPassed_eq, numFailed_eq,
    length_sub_passedTests hnodup, passedTests_card hnodup, tarantulaCustom]
  have hfailed : ((nonPassing suite).length = covering suite file line (nonPassing suite)) =
      (covering suite file line (nonPassing suite) = (nonPassing suite).length) :=
    propext eq_comm
  simp only [hfailed, List.length_eq_zero_iff]

theorem lineSuspiciousness_eq_zero {file : String} {line : Nat}
    (h : covering suite file line (nonPassing suite) ≠ (nonPassing suite).length) :
    lineSuspiciousness suite file line = 0 := by
  unfold lineSuspiciousness
  simp only [if_neg h, zero_div, ite_self]

theorem lineSuspiciousness_pos {file : String} {line : Nat}
    (h : covering suite file line (nonPassing suite) = (nonPassing suite).length) :
    0 < lineSuspiciousness suite file line := by
  unfold lineSuspiciousness
  simp only [if_pos h]
  have hb : (0 : ℚ) ≤ if passing suite = [] then (0 : ℚ)
      else (covering suite file line (passing suite) : ℚ) / ((passing suite).length : ℚ) := by
    split
    · exact le_refl 0
    · exact div_nonneg (Nat.cast_nonneg _) (Nat.cast_nonneg _)
  have hsum := add_pos_of_pos_of_nonneg one_pos hb
  rw [if_neg (ne_of_gt hsum)]
  exact div_pos one_pos hsum

theorem lineSuspiciousness_nonneg (file : String) (line : Nat) :
    0 ≤ lineSuspiciousness suite file line := by
  by_cases h : covering suite file line (nonPassing suite) = (nonPassing suite).length
  · exact le_of_lt (lineSuspiciousness_pos h)
  · exact le_of_eq (lineSuspiciousness_eq_zero h).symm

theorem suspiciousness_nonneg (file : String) : 0 ≤ suspiciousness suite file :=
  Finset.sum_nonneg fun line _ => lineSuspiciousness_nonneg file line

/-- A file has a positive score if all tests that do not pass share a line of it. -/
theorem suspiciousness_pos_iff {file : String} :
    0 < suspiciousness suite file ↔ ∃ line ∈ coveredLines suite file,
      covering suite file line (nonPassing suite) = (nonPassing suite).length := by
  unfold suspiciousness
  rw [Finset.sum_pos_iff_of_nonneg fun line _ => lineSuspiciousness_nonneg file line]
  refine exists_congr fun line => and_congr_right fun _ => ⟨fun hpos => ?_, lineSuspiciousness_pos⟩
  by_contra h
  exact absurd hpos (not_lt_of_ge (le_of_eq (lineSuspiciousness_eq_zero h)))

end ClosedForm

/-! ## The top files -/

section Top

/-- The files before the cut are above zero; a cut before the limit is at a file that is not. -/
theorem localizedLength_spec {filesToLocalize : Nat} {score : String → ℚ}
    {length : Nat} {files : List String} (hlength : length ≤ filesToLocalize) :
    ∃ front back, files = front ++ back ∧
      localizedLength filesToLocalize score length files = length + front.length ∧
      length + front.length ≤ filesToLocalize ∧ (∀ file ∈ front, 0 < score file) ∧
      (length + front.length = filesToLocalize ∨ ∀ file ∈ back.head?, score file ≤ 0) := by
  induction files generalizing length with
  | nil => exact ⟨[], [], rfl, rfl, hlength, by simp, Or.inr (by simp)⟩
  | cons file files ih =>
      unfold localizedLength
      by_cases hnext : length < filesToLocalize ∧ 0 < score file
      · rw [if_pos hnext]
        obtain ⟨front, back, rfl, hcount, hle, habove, hcut⟩ := ih (Nat.succ_le_of_lt hnext.1)
        have hshift : length + (file :: front).length = length + 1 + front.length := by
          rw [List.length_cons]
          omega
        refine ⟨file :: front, back, rfl, ?_, ?_, ?_, ?_⟩
        · rw [hcount, hshift]
        · rwa [hshift]
        · exact List.forall_mem_cons.mpr ⟨hnext.2, habove⟩
        · rwa [hshift]
      · rw [if_neg hnext]
        refine ⟨[], file :: files, rfl, rfl, hlength, by simp, ?_⟩
        rcases not_and_or.mp hnext with hfull | hfloor
        · refine Or.inl ?_
          simp only [List.length_nil]
          omega
        · refine Or.inr ?_
          simpa using hfloor

/-- In a descending list nothing lies above the floor behind an element that does not. -/
theorem localize_isTop (suite : TestSuite) (filesToLocalize : Nat) (allFiles : List String) :
    IsTop (fileScore suite) 0 filesToLocalize allFiles
      (localize suite filesToLocalize allFiles) := by
  have horder : StableOrder (OrderDual.toDual ∘ fileScore suite) allFiles
      (allFiles.mergeSort fun a b => !decide (fileScore suite b > fileScore suite a)) :=
    mergeSort_stableOrder (OrderDual.toDual ∘ fileScore suite) allFiles
  unfold localize
  dsimp only
  obtain ⟨front, back, hsorted, hcount, hle, habove, hcut⟩ :=
    @localizedLength_spec filesToLocalize (fileScore suite) 0
      (allFiles.mergeSort fun a b => !decide (fileScore suite b > fileScore suite a))
      (Nat.zero_le _)
  rw [hcount, hsorted, Nat.zero_add, List.take_left]
  rw [hsorted] at horder
  rw [Nat.zero_add] at hle hcut
  refine isTop_of_append horder hle habove (hcut.imp_right fun hfloor => ?_)
  cases back with
  | nil => simp
  | cons first back =>
      have hfirst : fileScore suite first ≤ 0 := hfloor first rfl
      have hbelow := (List.pairwise_cons.mp (List.pairwise_append.mp horder.sorted).2.1).1
      refine List.forall_mem_cons.mpr ⟨hfirst, fun file hfile => ?_⟩
      exact le_trans (hbelow file hfile) hfirst

end Top

/-- The top files by the closed form of their scores. -/
theorem localize_top_files {suite : TestSuite} (hnodup : suite.tests.Nodup)
    (filesToLocalize : Nat) {allFiles : List String} (hfiles : allFiles.Nodup) :
    (localize suite filesToLocalize allFiles).Nodup ∧
      (localize suite filesToLocalize allFiles).length ≤ filesToLocalize ∧
      (∀ file ∈ localize suite filesToLocalize allFiles,
        file ∈ allFiles ∧ 0 < suspiciousness suite file) ∧
      (localize suite filesToLocalize allFiles).Pairwise
        (fun first second => suspiciousness suite second ≤ suspiciousness suite first) ∧
      (∀ score, (localize suite filesToLocalize allFiles).filter (suspiciousness suite · = score)
        <+: allFiles.filter (suspiciousness suite · = score)) ∧
      ∀ file ∈ allFiles, file ∉ localize suite filesToLocalize allFiles →
        suspiciousness suite file = 0 ∨
          ((localize suite filesToLocalize allFiles).length = filesToLocalize ∧
            ∀ listed ∈ localize suite filesToLocalize allFiles,
              suspiciousness suite file ≤ suspiciousness suite listed) := by
  have htop := localize_isTop suite filesToLocalize allFiles
  rw [funext (fileScore_eq hnodup)] at htop
  refine ⟨?_, htop.length_le, fun file hfile => ⟨htop.subperm.subset hfile, htop.above file hfile⟩,
    htop.sorted, htop.stable, fun file hfile hnot => ?_⟩
  · obtain ⟨chosen, hperm, hsublist⟩ := htop.subperm
    exact hperm.nodup_iff.mp (hfiles.sublist hsublist)
  · refine (htop.omitted file hfile hnot).imp_left fun hfloor => ?_
    exact le_antisymm hfloor (suspiciousness_nonneg file)

/-- One line of the first file is covered by the failing test only, the second file by both. -/
def twoTests : TestSuite where
  tests := ["n1", "p1"]
  execute test := if test = "n1" then .fail else .pass
  extractAndSaveCoverage coverageFile := some fun file =>
    if file = "b.c" then {7} else if coverageFile = "n1.xml" then {3} else ∅

theorem localize_top_files_twoTests :
    (localize twoTests 1 ["b.c", "a.c"]).Nodup ∧
      (localize twoTests 1 ["b.c", "a.c"]).length ≤ 1 ∧
      (∀ file ∈ localize twoTests 1 ["b.c", "a.c"],
        file ∈ ["b.c", "a.c"] ∧ 0 < suspiciousness twoTests file) ∧
      (localize twoTests 1 ["b.c", "a.c"]).Pairwise
        (fun first second => suspiciousness twoTests second ≤ suspiciousness twoTests first) ∧
      (∀ score, (localize twoTests 1 ["b.c", "a.c"]).filter (suspiciousness twoTests · = score)
        <+: ["b.c", "a.c"].filter (suspiciousness twoTests · = score)) ∧
      ∀ file ∈ ["b.c", "a.c"], file ∉ localize twoTests 1 ["b.c", "a.c"] →
        suspiciousness twoTests file = 0 ∨
          ((localize twoTests 1 ["b.c", "a.c"]).length = 1 ∧
            ∀ listed ∈ localize twoTests 1 ["b.c", "a.c"],
              suspiciousness twoTests file ≤ suspiciousness twoTests listed) :=
  localize_top_files (by decide) 1 (by decide)

/-! ## Tests that time out -/

section Timeouts

variable {suite : TestSuite}

def withoutTimeouts (suite : TestSuite) : TestSuite :=
  { suite with tests := suite.tests.filter (suite.execute · ≠ .timeout) }

/-- A line that is executed, and by every failing test that does not time out. -/
def ExecutedByAllFailing (suite : TestSuite) (file : String) (line : Nat) : Prop :=
  line ∈ coveredLines suite file ∧
    ∀ test ∈ suite.tests, suite.execute test = .fail → line ∈ testCoverage suite test file

theorem covering_eq_length_iff {file : String} {line : Nat} {tests : List String} :
    covering suite file line tests = tests.length ↔
      ∀ test ∈ tests, line ∈ testCoverage suite test file := by
  rw [covering, List.countP_eq_length]
  simp

theorem testCoverage_timeout {test : String} (h : suite.execute test = .timeout)
    (file : String) : testCoverage suite test file = ∅ := by
  rw [testCoverage, if_pos h]

theorem mem_nonPassing_withoutTimeouts {test : String} :
    test ∈ nonPassing (withoutTimeouts suite) ↔
      test ∈ suite.tests ∧ suite.execute test = .fail := by
  have hstatus : ∀ status : TestStatus,
      (status ≠ .timeout ∧ status ≠ .pass) ↔ status = .fail := by
    intro status
    cases status <;> decide
  rw [nonPassing, List.mem_filter, decide_eq_true_iff]
  change test ∈ suite.tests.filter _ ∧ suite.execute test ≠ .pass ↔ _
  rw [List.mem_filter, decide_eq_true_iff, and_assoc, hstatus]

private theorem coveredLines_withoutTimeouts (file : String) :
    coveredLines (withoutTimeouts suite) file = coveredLines suite file := by
  ext line
  simp only [coveredLines, withoutTimeouts, Finset.mem_biUnion, List.mem_toFinset,
    List.mem_filter, decide_eq_true_eq]
  constructor
  · rintro ⟨test, ⟨htest, -⟩, hline⟩
    exact ⟨test, htest, hline⟩
  · rintro ⟨test, htest, hline⟩
    refine ⟨test, ⟨htest, fun htimeout => ?_⟩, hline⟩
    rw [testCoverage_timeout htimeout] at hline
    cases hline

theorem suspiciousness_withoutTimeouts_pos_iff {file : String} :
    0 < suspiciousness (withoutTimeouts suite) file ↔
      ∃ line, ExecutedByAllFailing suite file line := by
  rw [suspiciousness_pos_iff, coveredLines_withoutTimeouts]
  refine exists_congr fun line => and_congr_right fun _ => ?_
  rw [covering_eq_length_iff]
  constructor
  · intro hall test htest hfail
    exact hall test (mem_nonPassing_withoutTimeouts.mpr ⟨htest, hfail⟩)
  · intro hall test htest
    obtain ⟨hmem, hfail⟩ := mem_nonPassing_withoutTimeouts.mp htest
    exact hall test hmem hfail

/-- One test that times out leaves no line that all tests that do not pass execute. -/
theorem suspiciousness_of_timeout {test : String} (htest : test ∈ suite.tests)
    (htimeout : suite.execute test = .timeout) (file : String) :
    suspiciousness suite file = 0 := by
  by_contra hne
  have hpos := lt_of_le_of_ne (suspiciousness_nonneg file) (Ne.symm hne)
  obtain ⟨line, -, hall⟩ := suspiciousness_pos_iff.mp hpos
  have hmem : test ∈ nonPassing suite := by
    simp [nonPassing, htest, htimeout]
  have hline := covering_eq_length_iff.mp hall test hmem
  rw [testCoverage_timeout htimeout] at hline
  cases hline

private theorem withoutTimeouts_of_none (h : ∀ test ∈ suite.tests, suite.execute test ≠ .timeout) :
    withoutTimeouts suite = suite := by
  have htests : suite.tests.filter (suite.execute · ≠ .timeout) = suite.tests :=
    List.filter_eq_self.mpr fun test htest => decide_eq_true (h test htest)
  rw [withoutTimeouts, htests]

theorem withoutTimeouts_nodup (hnodup : suite.tests.Nodup) :
    (withoutTimeouts suite).tests.Nodup :=
  hnodup.filter _

theorem localize_eq_nil {filesToLocalize : Nat} {allFiles : List String}
    (hnodup : suite.tests.Nodup) (h : ∀ file ∈ allFiles, ¬ 0 < suspiciousness suite file) :
    localize suite filesToLocalize allFiles = [] := by
  have htop := localize_isTop suite filesToLocalize allFiles
  rw [funext (fileScore_eq hnodup)] at htop
  exact htop.eq_nil_iff.mpr (Or.inr fun file hfile => not_lt.mp (h file hfile))

end Timeouts

/--
Leaving out the tests that time out changes nothing exactly if there are none, or
no file of the list has a line that every failing test executes.
-/
theorem timeouts_skipped_iff {suite : TestSuite} (hnodup : suite.tests.Nodup)
    (filesToLocalize : Nat) (allFiles : List String) :
    (localize suite filesToLocalize allFiles =
          localize (withoutTimeouts suite) filesToLocalize allFiles ∧
        ∀ file ∈ allFiles, (∃ line, ExecutedByAllFailing suite file line) →
          0 < fileScore suite file) ↔
      (∀ test ∈ suite.tests, suite.execute test ≠ .timeout) ∨
        ∀ file ∈ allFiles, ∀ line, ¬ ExecutedByAllFailing suite file line := by
  constructor
  · rintro ⟨-, hpositive⟩
    by_cases htimeouts : ∀ test ∈ suite.tests, suite.execute test ≠ .timeout
    · exact Or.inl htimeouts
    · push Not at htimeouts
      obtain ⟨test, htest, htimeout⟩ := htimeouts
      refine Or.inr fun file hfile line hline => ?_
      have hscore := hpositive file hfile ⟨line, hline⟩
      rw [fileScore_eq hnodup, suspiciousness_of_timeout htest htimeout] at hscore
      exact lt_irrefl _ hscore
  · intro hcondition
    by_cases htimeouts : ∀ test ∈ suite.tests, suite.execute test ≠ .timeout
    · have hsame := withoutTimeouts_of_none htimeouts
      refine ⟨by rw [hsame], fun file _ hline => ?_⟩
      rw [fileScore_eq hnodup]
      exact hsame ▸ suspiciousness_withoutTimeouts_pos_iff.mpr hline
    · have hnone := hcondition.resolve_left htimeouts
      push Not at htimeouts
      obtain ⟨test, htest, htimeout⟩ := htimeouts
      refine ⟨?_, fun file hfile ⟨line, hline⟩ => absurd hline (hnone file hfile line)⟩
      rw [localize_eq_nil hnodup, localize_eq_nil (withoutTimeouts_nodup hnodup)]
      · intro file hfile hpos
        obtain ⟨line, hline⟩ := suspiciousness_withoutTimeouts_pos_iff.mp hpos
        exact hnone file hfile line hline
      · intro file _ hpos
        rw [suspiciousness_of_timeout htest htimeout] at hpos
        exact lt_irrefl _ hpos

theorem timeouts_skipped_iff_twoTests :
    (localize twoTests 1 ["a.c"] = localize (withoutTimeouts twoTests) 1 ["a.c"] ∧
        ∀ file ∈ ["a.c"], (∃ line, ExecutedByAllFailing twoTests file line) →
          0 < fileScore twoTests file) ↔
      (∀ test ∈ twoTests.tests, twoTests.execute test ≠ .timeout) ∨
        ∀ file ∈ ["a.c"], ∀ line, ¬ ExecutedByAllFailing twoTests file line :=
  timeouts_skipped_iff (by decide) 1 ["a.c"]

def oneTimeout : TestSuite where
  tests := ["n1", "t1"]
  execute test := if test = "n1" then .fail else .timeout
  extractAndSaveCoverage _ := some fun _ => {3}

theorem oneTimeout_nothing_localized :
    localize oneTimeout 10 ["a.c"] = [] ∧
      localize (withoutTimeouts oneTimeout) 10 ["a.c"] ≠ [] := by
  have hnodup : oneTimeout.tests.Nodup := by decide
  constructor
  · refine localize_eq_nil hnodup fun file _ hpos => ?_
    rw [@suspiciousness_of_timeout oneTimeout "t1" (by decide) rfl] at hpos
    exact lt_irrefl _ hpos
  · have htop := localize_isTop (withoutTimeouts oneTimeout) 10 ["a.c"]
    rw [funext (fileScore_eq (withoutTimeouts_nodup hnodup))] at htop
    have hline : ExecutedByAllFailing oneTimeout "a.c" 3 := by
      refine ⟨by decide, fun test _ hfail => ?_⟩
      rw [testCoverage, if_neg (by rw [hfail]; decide)]
      exact Finset.mem_singleton_self 3
    have hpos := suspiciousness_withoutTimeouts_pos_iff.mpr ⟨3, hline⟩
    intro hnil
    rcases htop.eq_nil_iff.mp hnil with hzero | hfloor
    · cases hzero
    · exact absurd hpos (not_lt_of_ge (hfloor "a.c" List.mem_cons_self))

end FaultLocalization

end F1X
