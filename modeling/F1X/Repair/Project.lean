import F1X.Library.Commands
import F1X.Repair.ProjectFiles
import F1X.Repair.SearchEngine

/-!
# The project and its files

The class `Project` of `repair/Project.cpp` as commands over the source files on
disk and the copies in the data directory.  The programs that are started are a
parameter: only the transformer and `patch` change source files, and no program
changes the copies.  A command fails where the source throws or asserts.
-/

namespace F1X

open Library

/-- The source files by path; `none` is a file that does not exist. -/
abbrev Disk := String → Option String

/-- The files that `computeDiff` compares, and the path it puts into the header. -/
structure Diff where
  relpath : String
  original : Option String
  patched : Option String
  deriving DecidableEq, Repr

/-- A command line of `f1x-transform`; without a profile it is the profiling one. -/
inductive TransformCommand where
  | instrument (file : ProjectFile) (fileId : Nat) (output : String)
      (profile : Option (Finset String))
  | apply (relpath : String) (location : Location)

/-- The programs that f1x starts, and what it asks the file system. -/
structure Toolchain (ω : Type) extends TestHarness ω where
  transform : TransformCommand → Disk → ω → Bool × Disk × ω
  patch : (template : Diff) → Disk → ω → Bool × Disk × ω
  build : (environment : List (String × String)) → (cmd : String) → Disk → ω → Bool × ω
  reusableCompilationDatabaseExists : ω → Bool
  compileCommandsExist : ω → Bool
  projectFilesInCompileDB : List ProjectFile → ω → Bool
  adjustCompileDB : ω → ω
  filesFromCompilationDB : ω → List String
  localize : (tests allFiles : List String) → ω → List String × ω
  driverIsOK : ω → Bool
  compileProfiler : ω → Bool × ω
  clearTrace : ω → ω
  readTrace : ω → List Location
  deleteCoverageFiles : ω → ω
  fileExists : String → ω → Bool
  readApplications : String → ω → List ApplicationJson
  compileRuntime : List generator.DispatchCode → ω → Bool × ω

/-- Ghost state: the calls made so far. -/
inductive CallRecord where
  | applyPatch (patch : Patch) (files : List ProjectFile) (before after : Disk)
  | computeDiff (output : String) (diff : Diff)
  | validatePatch (patch : Patch) (valid : Bool)
  | findNext (start hit : Nat)

/--
`saved` are the copies in the data directory by their names, `files` the list of
the project, `calls` the calls made so far, latest first.
-/
structure Workspace (ω : Type) where
  disk : Disk
  saved : String → Option String
  templates : AppID → Option Diff
  files : List ProjectFile
  world : ω
  calls : List CallRecord

/-- The arguments of f1x that `repair` works with. -/
structure Arguments where
  tests : List String
  buildCmd : String
  patchOutput : String
  dataDir : String

abbrev RepairM (ω : Type) := StateT (Workspace ω) Option

namespace Project

/-! ## Saved copies -/

def savedName (name : String) (id : Nat) : String := name ++ toString id ++ ".c"

section Commands

variable {ω : Type}

def saveFrom (name : String) : (id : Nat) → List ProjectFile → RepairM ω PUnit
  | _, [] => pure ⟨⟩
  | id, file :: files => do
      let ws ← get
      let content ← StateT.lift (ws.disk file.relpath)
      modify fun ws =>
        { ws with saved := Function.update ws.saved (savedName name id) (some content) }
      saveFrom name (id + 1) files

def restoreFrom (name : String) : (id : Nat) → List ProjectFile → RepairM ω PUnit
  | _, [] => pure ⟨⟩
  | id, file :: files => do
      let ws ← get
      let content ← StateT.lift (ws.saved (savedName name id))
      modify fun ws => { ws with disk := Function.update ws.disk file.relpath (some content) }
      restoreFrom name (id + 1) files

def saveFilesWithPrefix (name : String) : RepairM ω PUnit := do
  let ws ← get
  saveFrom name 0 ws.files

def restoreFilesWithPrefix (name : String) : RepairM ω PUnit := do
  let ws ← get
  restoreFrom name 0 ws.files

def saveOriginalFiles : RepairM ω PUnit := saveFilesWithPrefix "original"

def saveInstrumentedFiles : RepairM ω PUnit := saveFilesWithPrefix "instrumented"

def saveProfileInstumentedFiles : RepairM ω PUnit :=
  saveFilesWithPrefix "profile_instrumented"

def restoreOriginalFiles : RepairM ω PUnit := restoreFilesWithPrefix "original"

def restoreInstrumentedFiles : RepairM ω PUnit := restoreFilesWithPrefix "instrumented"

/-- The destructor of a copy of the project that holds the list `files`. -/
def destroyCopy (files : List ProjectFile) : RepairM ω PUnit := restoreFrom "original" 0 files

def setFiles (files : List ProjectFile) : RepairM ω PUnit := do
  modify fun ws => { ws with files := files }
  saveOriginalFiles

/-! ## Builds -/

def runProgram {α : Type} (program : ω → α × ω) : RepairM ω α :=
  modifyGet fun ws =>
    let (result, world) := program ws.world
    (result, { ws with world := world })

variable (tools : Toolchain ω) (args : Arguments)

def buildInEnvironment (environment : List (String × String)) (baseCmd : String) :
    RepairM ω Bool :=
  modifyGet fun ws =>
    let (success, world) := tools.build environment baseCmd ws.disk ws.world
    (success, { ws with world := world })

def compilers : List (String × String) := [("CC", "f1x-cc"), ("CXX", "f1x-cxx")]

def initialBuild : RepairM ω (Bool × Bool) := do
  let ws ← get
  let cmd :=
    if tools.reusableCompilationDatabaseExists ws.world then args.buildCmd
    else "f1x-bear sh -c \"" ++ args.buildCmd ++ "\""
  let compilationSuccess ← buildInEnvironment tools compilers cmd
  let ws ← get
  if tools.compileCommandsExist ws.world ∧ tools.projectFilesInCompileDB ws.files ws.world then do
    modify fun ws => { ws with world := tools.adjustCompileDB ws.world }
    pure (compilationSuccess, true)
  else
    pure (compilationSuccess, false)

def build : RepairM ω Bool := buildInEnvironment tools compilers args.buildCmd

def buildWithRuntime (header : String) : RepairM ω Bool :=
  buildInEnvironment tools
    (compilers ++
      [("F1X_RUNTIME_H", header),
       ("F1X_RUNTIME_LIB", args.dataDir),
       ("LD_LIBRARY_PATH", args.dataDir)])
    args.buildCmd

/-! ## Transformation and patches -/

def runTool (program : Disk → ω → Bool × Disk × ω) : RepairM ω Bool :=
  modifyGet fun ws =>
    let (success, disk, world) := program ws.disk ws.world
    (success, { ws with disk := disk, world := world })

def instrumentFile (file : ProjectFile) (outputFile : String)
    (profile : Option (Finset String)) : RepairM ω Bool := do
  let ws ← get
  let id ← StateT.lift (getFileId ws.files file).toOption
  runTool (tools.transform (.instrument file id outputFile profile))

inductive DiffOutput where
  | template (app : AppID)
  | patchFile (output : String)

def writeDiff (output : DiffOutput) (diff : Diff) (ws : Workspace ω) : Workspace ω :=
  match output with
  | .template app => { ws with templates := Function.update ws.templates app (some diff) }
  | .patchFile output => { ws with calls := .computeDiff output diff :: ws.calls }

def computeDiff (file : ProjectFile) (output : DiffOutput) : RepairM ω PUnit := do
  let ws ← get
  let id ← StateT.lift (getFileId ws.files file).toOption
  modify fun ws =>
    writeDiff output
      ⟨file.relpath, ws.saved (savedName "original" id), ws.saved (savedName "patched" id)⟩ ws

def placeholder : String := "F1X_EXPRESSION_PLACEHOLDER"

/-- The line with the first occurrence of the placeholder replaced. -/
def replacePlaceholderInLine (replacement : List Char) : List Char → List Char
  | [] => []
  | c :: rest =>
      if placeholder.toList.isPrefixOf (c :: rest) then
        replacement ++ (c :: rest).drop placeholder.toList.length
      else c :: replacePlaceholderInLine replacement rest

/-- The lines that `getline` reads: nothing follows the last line feed. -/
def readLines (content : String) : List (List Char) :=
  let segments := content.toList.splitOn '\n'
  if segments.getLast? = some [] then segments.dropLast else segments

def replacePlaceholder (replacement content : String) : String :=
  String.ofList ((readLines content).flatMap fun line =>
    replacePlaceholderInLine replacement.toList line ++ ['\n'])

/-- A file that cannot be opened reads as an empty one. -/
def replacePlaceholderInFile (file replacement : String) : RepairM ω PUnit :=
  modify fun ws =>
    { ws with
      disk := Function.update ws.disk file
        (some (replacePlaceholder replacement ((ws.disk file).getD ""))) }

/-- The first patch of a location goes through the transformer and leaves a template. -/
def placeTemplate (file : ProjectFile) (patch : Patch) : RepairM ω Bool := do
  let success ← runTool (tools.transform (.apply file.relpath patch.app.location))
  saveFilesWithPrefix "patched"
  computeDiff file (.template patch.app.id)
  pure success

def placePatch (file : ProjectFile) (patch : Patch) : RepairM ω Bool := do
  let ws ← get
  match ws.templates patch.app.id with
  | some template => runTool (tools.patch template)
  | none => placeTemplate tools file patch

def applyPatch (patch : Patch) : RepairM ω Bool := do
  let ws ← get
  let file ← StateT.lift ws.files[patch.app.location.fileId]?
  let success ← placePatch tools file patch
  let replacement ← StateT.lift (expressionToString patch.modified).toOption
  replacePlaceholderInFile file.relpath replacement
  saveFilesWithPrefix "patched"
  modify fun after =>
    { after with calls := .applyPatch patch ws.files ws.disk after.disk :: after.calls }
  pure success

end Commands

/-! ## What the commands change -/

theorem savedName_injective {name : String} {i j : Nat}
    (h : savedName name i = savedName name j) : i = j := by
  have hlist := congrArg String.toList h
  simp only [savedName, String.toList_append, List.append_assoc,
    List.append_cancel_left_eq, List.append_cancel_right_eq] at hlist
  exact toString_injective (String.toList_injective hlist)

theorem savedName_ne {name other : String} (hname : name.toList.head?.isSome)
    (hother : other.toList.head?.isSome)
    (h : name.toList.head? ≠ other.toList.head?) (i j : Nat) :
    savedName name i ≠ savedName other j := by
  intro heq
  have hhead := congrArg (fun text => text.toList.head?) heq
  simp only [savedName, String.toList_append, List.append_assoc,
    List.head?_append, Option.or_of_isSome hname, Option.or_of_isSome hother] at hhead
  exact h hhead

section Spec

variable {ω : Type} {ws after : Workspace ω}

theorem saveFrom_spec {name : String} {id : Nat} {files : List ProjectFile} {u : PUnit}
    (h : (saveFrom name id files).run ws = some (u, after)) :
    ∃ saved, after = { ws with saved := saved } ∧
      (∀ j file, files[j]? = some file →
        saved (savedName name (id + j)) = ws.disk file.relpath) ∧
      ∀ key, (∀ j, id ≤ j → key ≠ savedName name j) → saved key = ws.saved key := by
  induction files generalizing id ws with
  | nil =>
      obtain ⟨-, rfl⟩ := run_pure_eq_some.mp h
      exact ⟨_, rfl, by simp, fun _ _ => rfl⟩
  | cons file files ih =>
      rw [saveFrom, run_get_bind] at h
      obtain ⟨content, hcontent, h⟩ := run_lift_bind_eq_some.mp h
      rw [run_modify_bind] at h
      obtain ⟨saved, rfl, hsaved, hother⟩ := ih h
      refine ⟨saved, rfl, ?_, ?_⟩
      · intro j other hj
        cases j with
        | zero =>
            obtain rfl : file = other := by simpa using hj
            rw [hother _ fun k hk heq => ?_]
            · simp [hcontent]
            · have := savedName_injective heq
              omega
        | succ j =>
            have hrest := hsaved j other (by simpa using hj)
            rwa [Nat.add_right_comm, Nat.add_assoc] at hrest
      · intro key hkey
        rw [hother key fun k hk => hkey k (by omega)]
        exact Function.update_of_ne (hkey id (Nat.le_refl id)) _ _

theorem restoreFrom_spec {name : String} {id : Nat} {files : List ProjectFile} {u : PUnit}
    (h : (restoreFrom name id files).run ws = some (u, after)) :
    ∃ disk, after = { ws with disk := disk } ∧
      ∀ contents : Disk,
        (∀ j file, files[j]? = some file →
          ws.saved (savedName name (id + j)) = contents file.relpath) →
        ∀ path, (path ∈ files.map (·.relpath) → disk path = contents path) ∧
          (path ∉ files.map (·.relpath) → disk path = ws.disk path) := by
  induction files generalizing id ws with
  | nil =>
      obtain ⟨-, rfl⟩ := run_pure_eq_some.mp h
      exact ⟨_, rfl, by simp⟩
  | cons file files ih =>
      rw [restoreFrom, run_get_bind] at h
      obtain ⟨content, hcontent, h⟩ := run_lift_bind_eq_some.mp h
      rw [run_modify_bind] at h
      obtain ⟨disk, rfl, hdisk⟩ := ih h
      refine ⟨disk, rfl, ?_⟩
      intro contents hcontents path
      have hfirst : some content = contents file.relpath := by
        rw [← hcontent]
        exact hcontents 0 file rfl
      have hrest := hdisk contents (fun j other hj => by
        have := hcontents (j + 1) other (by simpa using hj)
        rwa [← Nat.add_assoc, Nat.add_right_comm] at this) path
      by_cases hpath : path ∈ files.map (·.relpath)
      · exact ⟨fun _ => hrest.1 hpath, fun hne => absurd (List.mem_cons_of_mem _ hpath) hne⟩
      · rw [hrest.2 hpath]
        by_cases heq : path = file.relpath
        · subst heq
          exact ⟨fun _ => by simp [hfirst], fun hne => absurd List.mem_cons_self hne⟩
        · refine ⟨fun hmem => ?_, fun _ => Function.update_of_ne heq _ _⟩
          rcases List.mem_cons.mp hmem with hhead | htail
          · exact absurd hhead heq
          · exact absurd htail hpath

theorem saveFilesWithPrefix_spec {name : String} {u : PUnit}
    (h : (saveFilesWithPrefix name).run ws = some (u, after)) :
    ∃ saved, after = { ws with saved := saved } ∧
      (∀ id file, ws.files[id]? = some file →
        saved (savedName name id) = ws.disk file.relpath) ∧
      ∀ key, (∀ id, key ≠ savedName name id) → saved key = ws.saved key := by
  rw [saveFilesWithPrefix, run_get_bind] at h
  obtain ⟨saved, rfl, hsaved, hother⟩ := saveFrom_spec h
  exact ⟨saved, rfl, fun id file hfile => by simpa using hsaved id file hfile,
    fun key hkey => hother key fun id _ => hkey id⟩

theorem computeDiff_spec {file : ProjectFile} {output : DiffOutput} {u : PUnit}
    (h : (computeDiff file output).run ws = some (u, after)) :
    ∃ id, getFileId ws.files file = .ok id ∧
      after = writeDiff output
        ⟨file.relpath, ws.saved (savedName "original" id), ws.saved (savedName "patched" id)⟩
        ws := by
  rw [computeDiff, run_get_bind] at h
  obtain ⟨id, hid, h⟩ := run_lift_bind_eq_some.mp h
  rw [run_modify] at h
  obtain ⟨-, rfl⟩ := Prod.mk.inj (Option.some.inj h)
  refine ⟨id, ?_, rfl⟩
  cases hok : getFileId ws.files file with
  | error failure => simp [hok, Except.toOption] at hid
  | ok found => simpa [hok, Except.toOption] using hid

theorem getFileId_relpath {files : List ProjectFile} {file : ProjectFile} {index id : Nat}
    (hfile : files[index]? = some file) (hindex : index < uintRange)
    (h : getFileId files file = .ok id) :
    ∃ found, files[id]? = some found ∧ found.relpath = file.relpath := by
  have hmem : file.relpath ∈ files.map (·.relpath) :=
    List.mem_map.mpr ⟨file, List.mem_of_getElem? hfile, rfl⟩
  have hpath : (files.map (·.relpath))[index]? = some file.relpath := by simp [hfile]
  have htake : file.relpath ∈ (files.map (·.relpath)).take (index + 1) := by
    rw [List.take_add_one, hpath]
    simp
  have hle := (List.mem_take_iff_idxOf_lt hmem).mp htake
  have hlt := List.idxOf_lt_length_of_mem hmem
  rw [getFileId, Nat.mod_eq_of_lt (by omega)] at h
  split at h
  · obtain rfl := Except.ok.inj h
    have hget := List.getElem_idxOf hlt
    rw [List.getElem_map] at hget
    exact ⟨_, List.getElem?_eq_getElem _, hget⟩
  · cases h

end Spec

end Project

end F1X
