import F1X.Library.LabelledTrees
import F1X.Repair.FaultLocalization
import F1X.Repair.ProfileText

/-!
# Coverage files

`extractAndSaveCoverage` of `repair/FaultLocalization.cpp` over the nodes of the
file that gcovr writes.  It follows the first package only, and the last class of
a file replaces the others, so that this is all that localization sees.
-/

namespace F1X

open Library LabelledTree

/-! ## Nodes -/

/-- Blanks between elements make no nodes. -/
structure XmlElement where
  name : String
  attributes : List (String × String)

abbrev XmlNode := LabelledTree XmlElement

namespace CoverageFiles

/-- What throws has a message; reading through a null pointer has no outcome. -/
abbrev Extraction (α : Type) := ExceptT String Option α

def pointee {α : Type} (pointer : Option α) : Extraction α := ExceptT.lift pointer

def firstNode (node : XmlNode) : Option XmlNode := node.children.head?

def firstNodeNamed (name : String) (node : XmlNode) : Option XmlNode :=
  node.children.find? (·.label.name = name)

def firstAttribute (name : String) (node : XmlNode) : Option String :=
  node.label.attributes.lookup name

/-- `std::stoul`, which stops behind the number. -/
def stoul (str : String) : Extraction Nat :=
  match ProfileText.readUnsignedLong str.toList with
  | some (value, some _) => pure value
  | _ => throw "stoul"

/-! ## The loops -/

/-- The lines are `unsigned`. -/
def insertLine (lines : Finset Nat) (lineRoot : XmlNode) : Extraction (Finset Nat) := do
  let hits ← pointee (firstAttribute "hits" lineRoot)
  if 0 < (← stoul hits) then
    let line ← pointee (firstAttribute "number" lineRoot)
    pure (insert ((← stoul line) % 2 ^ 32) lines)
  else pure lines

def insertClass (relative : String → String) (coverage : Coverage) (classRoot : XmlNode) :
    Extraction Coverage := do
  let filename ← pointee (firstAttribute "filename" classRoot)
  let lineRoots ← pointee (firstNodeNamed "lines" classRoot)
  let lines ← lineRoots.children.foldlM insertLine ∅
  pure (Function.update coverage (relative filename) lines)

def extractCoverage (relative : String → String) (doc : XmlNode) : Extraction Coverage := do
  let packages ← pointee (firstNodeNamed "packages" doc)
  match firstNode packages with
  | none => throw "empty coverage file"
  | some root =>
      let classes ← pointee (firstNode root)
      classes.children.foldlM (insertClass relative) fun _ => ∅

/-- `gcovr` writes a file unless it fails. -/
def extractAndSaveCoverage (relative : String → String) (gcovr : Option XmlNode) :
    Extraction Coverage :=
  match gcovr with
  | none => throw "gcovr failed"
  | some doc => extractCoverage relative doc

/-! ## Reports -/

structure LineReport where
  number : Nat
  hits : Nat
  numberFits : number < 2 ^ 32
  hitsFit : hits < 2 ^ 64

structure ClassReport where
  filename : String
  lines : List LineReport

/-- The packages in their order, each with its classes. -/
abbrev Report := List (List ClassReport)

def IsLine (node : XmlNode) (line : LineReport) : Prop :=
  firstAttribute "number" node = some (toString line.number) ∧
    firstAttribute "hits" node = some (toString line.hits)

def IsClass (node : XmlNode) (classReport : ClassReport) : Prop :=
  firstAttribute "filename" node = some classReport.filename ∧
    ∃ lines, firstNodeNamed "lines" node = some lines ∧
      List.Forall₂ IsLine lines.children classReport.lines

def IsPackage (node : XmlNode) (package : List ClassReport) : Prop :=
  ∃ classes, firstNode node = some classes ∧ List.Forall₂ IsClass classes.children package

/-- The file has other nodes and attributes, which are not read. -/
def IsReport (doc : XmlNode) (report : Report) : Prop :=
  ∃ packages, firstNodeNamed "packages" doc = some packages ∧
    List.Forall₂ IsPackage packages.children report

def ClassReport.executed (classReport : ClassReport) : Finset Nat :=
  ((classReport.lines.filter (0 < ·.hits)).map (·.number)).toFinset

/-- The class whose lines are kept for a file. -/
def LastClass (relative : String → String) (package : List ClassReport) (file : String)
    (classReport : ClassReport) : Prop :=
  ∃ front back, package = front ++ classReport :: back ∧
    relative classReport.filename = file ∧ ∀ other ∈ back, relative other.filename ≠ file

/-- What is read of a report: a line of the last class of the file in the first package. -/
def Executes (relative : String → String) (report : Report) (file : String) (line : Nat) : Prop :=
  ∃ package classReport, report.head? = some package ∧
    LastClass relative package file classReport ∧ line ∈ classReport.executed

/-! ## What is read -/

section Extraction

@[simp] theorem pointee_some {α : Type} (value : α) : pointee (some value) = pure value := rfl

theorem stoul_toString {n : Nat} (hn : n < 2 ^ 64) : stoul (toString n) = pure n := by
  have hread := @ProfileText.readUnsignedLong_toString n hn [] [] (by simp) (by simp)
  rw [List.nil_append, List.append_nil] at hread
  rw [stoul, hread]

private theorem insertLine_eq (lines : Finset Nat) (node : XmlNode) (line : LineReport)
    (h : IsLine node line) : insertLine lines node =
      pure (if 0 < line.hits then insert line.number lines else lines) := by
  obtain ⟨hnumber, hhits⟩ := h
  have hfits : line.number < 2 ^ 64 := line.numberFits.trans (by decide)
  rw [insertLine, hhits, hnumber]
  simp only [pointee_some, pure_bind, stoul_toString line.hitsFit, stoul_toString hfits,
    Nat.mod_eq_of_lt line.numberFits]
  split <;> rfl

private theorem foldl_insert (lines : List LineReport) (found : Finset Nat) :
    lines.foldl (fun found line => if 0 < line.hits then insert line.number found else found)
        found = found ∪ ((lines.filter (0 < ·.hits)).map (·.number)).toFinset := by
  induction lines generalizing found with
  | nil => simp
  | cons line lines ih =>
      rw [List.foldl_cons, ih, List.filter_cons]
      by_cases hhits : 0 < line.hits
      · simp [hhits]
      · simp [hhits]

variable (relative : String → String)

private theorem insertClass_eq (coverage : Coverage) (node : XmlNode) (classReport : ClassReport)
    (h : IsClass node classReport) : insertClass relative coverage node =
      pure (Function.update coverage (relative classReport.filename) classReport.executed) := by
  obtain ⟨hfilename, lines, hlines, hforall⟩ := h
  rw [insertClass, hfilename, hlines]
  simp only [pointee_some, pure_bind, foldlM_eq_pure insertLine_eq hforall, foldl_insert,
    Finset.empty_union]
  rfl

def packageCoverage (package : List ClassReport) : Coverage :=
  package.foldl
    (fun coverage classReport =>
      Function.update coverage (relative classReport.filename) classReport.executed)
    fun _ => ∅

private theorem extractCoverage_eq {doc : XmlNode} {report : Report} (h : IsReport doc report) :
    extractCoverage relative doc =
      match report.head? with
      | none => throw "empty coverage file"
      | some package => pure (packageCoverage relative package) := by
  obtain ⟨⟨element, roots⟩, hpackages, hforall⟩ := h
  rw [extractCoverage, hpackages, pointee_some, pure_bind, firstNode]
  rw [children_node] at hforall ⊢
  cases hforall with
  | nil => rfl
  | cons hfirst _ =>
      obtain ⟨classes, hclasses, hforall⟩ := hfirst
      simp only [List.head?_cons, hclasses, pointee_some, pure_bind]
      exact foldlM_eq_pure (insertClass_eq relative) hforall _

private theorem lastClass_concat {package : List ClassReport} {last classReport : ClassReport}
    {file : String} :
    LastClass relative (package ++ [last]) file classReport ↔
      if relative last.filename = file then classReport = last
      else LastClass relative package file classReport := by
  constructor
  · rintro ⟨front, back, hsplit, hfile, hback⟩
    rcases List.eq_nil_or_concat back with rfl | ⟨back, other, rfl⟩
    · obtain ⟨rfl, hlast⟩ := List.append_inj' hsplit rfl
      obtain rfl := List.singleton_inj.mp hlast
      rw [if_pos hfile]
    · have hlonger : package ++ [last] = (front ++ classReport :: back) ++ [other] := by
        simpa using hsplit
      obtain ⟨rfl, hlast⟩ := List.append_inj' hlonger rfl
      obtain rfl := List.singleton_inj.mp hlast
      rw [if_neg (hback last (by simp))]
      exact ⟨front, back, rfl, hfile, fun other hother => hback other (by simp [hother])⟩
  · intro h
    split at h
    · subst h
      exact ⟨package, [], rfl, ‹_›, by simp⟩
    · obtain ⟨front, back, rfl, hfile, hback⟩ := h
      refine ⟨front, back ++ [last], by simp, hfile, fun other hother => ?_⟩
      rcases List.mem_append.mp hother with hother | hother
      · exact hback other hother
      · rwa [List.mem_singleton.mp hother]

/-- Of several classes for one file the last one counts. -/
theorem mem_packageCoverage {package : List ClassReport} {file : String} {line : Nat} :
    line ∈ packageCoverage relative package file ↔
      ∃ classReport, LastClass relative package file classReport ∧
        line ∈ classReport.executed := by
  induction package using List.reverseRecOn with
  | nil => simp [packageCoverage, LastClass]
  | append_singleton package last ih =>
      simp only [lastClass_concat]
      rw [packageCoverage, List.foldl_append, ← packageCoverage, List.foldl_cons, List.foldl_nil]
      by_cases hfile : relative last.filename = file
      · simp [hfile]
      · rw [Function.update_of_ne (Ne.symm hfile), ih]
        simp [hfile]

end Extraction

/-! ## Localization -/

/-- `localize` catches what is thrown. -/
def caught (extraction : Extraction Coverage) : Option Coverage :=
  match extraction.run with
  | some (.ok coverage) => some coverage
  | _ => none

/-- The tests with the files that `gcovr` writes for them. -/
def reportedSuite (relative : String → String) (tests : List String)
    (execute : String → TestStatus) (gcovr : String → Option XmlNode) : TestSuite where
  tests := tests
  execute := execute
  extractAndSaveCoverage coverageFile :=
    caught (extractAndSaveCoverage relative (gcovr coverageFile))

/-- What is reported after a test; nothing when `gcovr` fails. -/
def Reports (gcovr : String → Option XmlNode) (test : String) (report : Report) : Prop :=
  match gcovr (test ++ ".xml") with
  | none => report = []
  | some doc => IsReport doc report

section Localization

open FaultLocalization

variable {relative : String → String} {tests : List String} {execute : String → TestStatus}
  {gcovr : String → Option XmlNode} {reports : String → Report}

private theorem mem_caught {test : String} (h : Reports gcovr test (reports test)) {file : String}
    {line : Nat} :
    line ∈ ((caught (extractAndSaveCoverage relative (gcovr (test ++ ".xml")))).getD
        fun _ => ∅) file ↔ Executes relative (reports test) file line := by
  unfold Reports at h
  unfold Executes
  cases hgcovr : gcovr (test ++ ".xml") with
  | none =>
      rw [hgcovr] at h
      rw [h]
      simp [extractAndSaveCoverage, caught]
  | some doc =>
      rw [hgcovr] at h
      rw [extractAndSaveCoverage, extractCoverage_eq relative h]
      cases hreport : (reports test).head? with
      | none => simp [caught]
      | some package => simp [caught, mem_packageCoverage]

variable (relative tests execute gcovr reports) in
/-- The first package of the report after a test that ended has the line as executed. -/
def Observed (test file : String) (line : Nat) : Prop :=
  execute test ≠ .timeout ∧ Executes relative (reports test) file line

theorem mem_testCoverage (hreports : ∀ test ∈ tests, Reports gcovr test (reports test))
    {test file : String} (htest : test ∈ tests) {line : Nat} :
    line ∈ testCoverage (reportedSuite relative tests execute gcovr) test file ↔
      Observed relative execute reports test file line := by
  unfold testCoverage Observed
  by_cases htimeout : execute test = .timeout
  · simp [reportedSuite, htimeout]
  · rw [if_neg (show ¬(reportedSuite relative tests execute gcovr).execute test = .timeout
      from htimeout), and_iff_right htimeout]
    exact mem_caught (hreports test htest)

/-- A line of the file is executed by a test, and by every test that does not pass. -/
def Suspect (relative : String → String) (tests : List String) (execute : String → TestStatus)
    (reports : String → Report) (file : String) : Prop :=
  ∃ line, (∃ test ∈ tests, Observed relative execute reports test file line) ∧
    ∀ test ∈ tests, execute test ≠ .pass → Observed relative execute reports test file line

theorem suspiciousness_pos_iff_suspect
    (hreports : ∀ test ∈ tests, Reports gcovr test (reports test)) {file : String} :
    0 < suspiciousness (reportedSuite relative tests execute gcovr) file ↔
      Suspect relative tests execute reports file := by
  rw [suspiciousness_pos_iff]
  refine exists_congr fun line => and_congr ?_ ?_
  · simp only [coveredLines, Finset.mem_biUnion, List.mem_toFinset]
    exact exists_congr fun test => and_congr_right fun htest => mem_testCoverage hreports htest
  · rw [covering_eq_length_iff, nonPassing]
    simp only [List.mem_filter, decide_eq_true_eq, and_imp]
    exact forall_congr' fun test => forall_congr' fun htest => imp_congr_right fun _ =>
      mem_testCoverage hreports htest

/--
A file is localized only if the first packages of the reports have a line of it
that every test that does not pass executes, and then it is unless there are
enough others.
-/
theorem localize_firstPackages (hnodup : tests.Nodup)
    (hreports : ∀ test ∈ tests, Reports gcovr test (reports test)) (filesToLocalize : Nat)
    (allFiles : List String) (file : String) :
    (file ∈ localize (reportedSuite relative tests execute gcovr) filesToLocalize allFiles →
      file ∈ allFiles ∧ Suspect relative tests execute reports file) ∧
    (file ∈ allFiles → Suspect relative tests execute reports file →
      (localize (reportedSuite relative tests execute gcovr) filesToLocalize allFiles).length <
          filesToLocalize →
      file ∈ localize (reportedSuite relative tests execute gcovr) filesToLocalize allFiles) := by
  have htop := localize_isTop (reportedSuite relative tests execute gcovr) filesToLocalize allFiles
  rw [funext (@fileScore_eq (reportedSuite relative tests execute gcovr) hnodup)] at htop
  constructor
  · intro hfile
    exact ⟨htop.subperm.subset hfile,
      (suspiciousness_pos_iff_suspect hreports).mp (htop.above file hfile)⟩
  · intro hfile hsuspect hroom
    by_contra hnot
    rcases htop.omitted file hfile hnot with hfloor | ⟨hfull, -⟩
    · exact absurd ((suspiciousness_pos_iff_suspect hreports).mpr hsuspect) (not_lt.mpr hfloor)
    · omega

end Localization

/-! ## Two packages -/

def lineNode (number hits : String) : XmlNode :=
  .node ⟨"line", [("branch", "false"), ("hits", hits), ("number", number)]⟩ []

def classNode (filename : String) (lines : List XmlNode) : XmlNode :=
  .node ⟨"class", [("filename", filename)]⟩ [.node ⟨"methods", []⟩ [], .node ⟨"lines", []⟩ lines]

def packageNode (classes : List XmlNode) : XmlNode :=
  .node ⟨"package", []⟩ [.node ⟨"classes", []⟩ classes]

/-- The failing test executes a line of `a.c` and one of `lib/b.c`. -/
def twoPackages : XmlNode :=
  .node ⟨"coverage", []⟩ [.node ⟨"sources", []⟩ [],
    .node ⟨"packages", []⟩ [packageNode [classNode "a.c" [lineNode "3" "2", lineNode "4" "0"]],
      packageNode [classNode "lib/b.c" [lineNode "7" "1"]]]]

def twoPackagesReport : Report :=
  [[⟨"a.c", [⟨3, 2, by decide, by decide⟩, ⟨4, 0, by decide, by decide⟩]⟩],
    [⟨"lib/b.c", [⟨7, 1, by decide, by decide⟩]⟩]]

private theorem isReport_twoPackages : IsReport twoPackages twoPackagesReport := by
  refine ⟨_, rfl, .cons ⟨_, rfl, .cons ⟨rfl, _, rfl, ?_⟩ .nil⟩
    (.cons ⟨_, rfl, .cons ⟨rfl, _, rfl, ?_⟩ .nil⟩ .nil)⟩
  · exact .cons ⟨rfl, rfl⟩ (.cons ⟨rfl, rfl⟩ .nil)
  · exact .cons ⟨rfl, rfl⟩ .nil

def twoPackagesSuite : TestSuite :=
  reportedSuite id ["n1"] (fun _ => .fail) fun _ => some twoPackages

theorem suspect_twoPackages {file : String} :
    Suspect id ["n1"] (fun _ => .fail) (fun _ => twoPackagesReport) file ↔ file = "a.c" := by
  constructor
  · rintro ⟨line, ⟨test, -, -, package, classReport, hhead, hlast, -⟩, -⟩
    obtain rfl := Option.some.inj hhead
    obtain ⟨front, back, hsplit, rfl, -⟩ := hlast
    have hmem : classReport ∈ front ++ classReport :: back := by simp
    rw [← hsplit, List.mem_singleton] at hmem
    rw [hmem]
    rfl
  · rintro rfl
    have hobserved : ∀ test, Observed id (fun _ => .fail) (fun _ => twoPackagesReport) test "a.c"
        3 := fun _ => ⟨by simp, _, _, rfl, ⟨[], [], rfl, rfl, by simp⟩, by decide⟩
    exact ⟨3, ⟨"n1", by simp, hobserved "n1"⟩, fun test _ _ => hobserved test⟩

theorem localize_firstPackages_twoPackages :
    "a.c" ∈ FaultLocalization.localize twoPackagesSuite 5 ["lib/b.c", "a.c"] ∧
      "lib/b.c" ∉ FaultLocalization.localize twoPackagesSuite 5 ["lib/b.c", "a.c"] := by
  have hreports : ∀ test ∈ ["n1"], Reports (fun _ => some twoPackages) test twoPackagesReport :=
    fun _ _ => isReport_twoPackages
  have hlength := (FaultLocalization.localize_isTop twoPackagesSuite 5
    ["lib/b.c", "a.c"]).subperm.length_le
  constructor
  · exact (localize_firstPackages (by decide) hreports 5 ["lib/b.c", "a.c"] "a.c").2 (by simp)
      (suspect_twoPackages.mpr rfl) (Nat.lt_of_le_of_lt hlength (by decide))
  · intro hmem
    have hsuspect := ((localize_firstPackages (by decide) hreports 5 ["lib/b.c", "a.c"]
      "lib/b.c").1 hmem).2
    exact absurd (suspect_twoPackages.mp hsuspect) (by decide)

end CoverageFiles

end F1X
