import F1X.Transform.SchemaApplications
import Mathlib.Data.List.Nodup

/-!
# Project files and application ids

The list of files of `tools/F1X.cpp`, the file ids of `repair/Project.cpp` and
the ids that `transform/TransformUtil.cpp` composes from them.  Every run of the
transformer numbers its locations from zero, so that ids are unique only as far
as file ids are.
-/

namespace F1X

open F1X.Library

structure ProjectFile where
  relpath : String
  fromLine : Nat
  toLine : Nat
  deriving DecidableEq, Repr

/-! ## The command line -/

def isSpace (c : Char) : Bool :=
  c = ' ' || c = '\t' || c = '\n' || c = '\r' || c = '\x0b' || c = '\x0c'

def digitsValue (digits : List Char) : Nat :=
  digits.foldl (fun value c => value * 10 + (c.toNat - '0'.toNat)) 0

/-- `std::stoi`; what follows the digits is ignored. -/
def stoi (str : String) : Option Int :=
  let chars := str.toList.dropWhile isSpace
  let (negative, chars) :=
    match chars with
    | '-' :: rest => (true, rest)
    | '+' :: rest => (false, rest)
    | _ => (false, chars)
  let digits := chars.takeWhile (·.isDigit)
  let value : Int := if negative then -digitsValue digits else digitsValue digits
  if digits.isEmpty then none
  else if -2147483648 ≤ value ∧ value ≤ 2147483647 then some value
  else none

def toUnsigned (n : Int) : Nat := (n % uintRange).toNat

/-- `find` and the two `substr` around the character that it finds. -/
def splitAt (separator : Char) (chars : List Char) : Option (List Char × List Char) :=
  if separator ∈ chars then
    some (chars.takeWhile (· ≠ separator), (chars.dropWhile (· ≠ separator)).tail)
  else none

def parseLine (rangeStr lineStr : List Char) : Except Failure Nat :=
  match stoi (String.ofList lineStr) with
  | some line => .ok (toUnsigned line)
  | none => .error (.parseError ("wrong range format: " ++ String.ofList rangeStr))

/-- The part of the file system that paths are resolved in, from the current directory. -/
structure FileSystem where
  canonical : String → Except Failure String
  relativeTo : String → String
  fileExists : String → Bool

def parseFileArg (fs : FileSystem) (arg : String) : Except Failure ProjectFile := do
  let (pathStr, fromLine, toLine) ←
    match splitAt ':' arg.toList with
    | none => .ok (arg, 0, 0)
    | some (path, rangeStr) =>
        match splitAt '-' rangeStr with
        | none => do
            let line ← parseLine rangeStr rangeStr
            .ok (String.ofList path, line, line)
        | some (fromStr, toStr) => do
            let fromLine ← parseLine rangeStr fromStr
            let toLine ← parseLine rangeStr toStr
            .ok (String.ofList path, fromLine, toLine)
  let canonical ← fs.canonical pathStr
  let file := fs.relativeTo canonical
  if fs.fileExists file then .ok ⟨file, fromLine, toLine⟩
  else .error (.parseError ("source file does not exist: " ++ file))

def parseFilesArg (fs : FileSystem) (args : List String) :
    Except Failure (List ProjectFile) :=
  args.mapM (parseFileArg fs)

/-! ## Ids -/

def f1xappWidth : Nat := 32
def f1xappValueBits : Nat := 10

/-- A 64-bit number; it is asserted that the base id leaves room for the file id. -/
def f1xapp (baseId fileId : Nat) : Except Failure Nat :=
  if baseId < 2 ^ (f1xappWidth - f1xappValueBits) then
    .ok ((fileId * 2 ^ (f1xappWidth - f1xappValueBits) + baseId) % 2 ^ 64)
  else .error .assertionFailed

/-- The index of the first file with the same path, in an `unsigned` variable. -/
def getFileId (files : List ProjectFile) (file : ProjectFile) : Except Failure Nat :=
  let id := (files.map (·.relpath)).idxOf file.relpath % uintRange
  if id < files.length then .ok id else .error .assertionFailed

/-- `SetInt` takes the low 32 bits as a signed number. -/
def setInt (n : Nat) : Int := (n : Int).bmod uintRange

/--
The ids of a run of the transformer: the one that it compares `__f1xapp` with in
the instrumented source, and the one in the JSON object.
-/
def numberApplications (fileId : Nat) :
    Nat → List ApplicationJson → Except Failure (List (Nat × ApplicationJson))
  | _, [] => .ok []
  | baseAppId, app :: apps => do
      let appId ← f1xapp baseAppId fileId
      let rest ← numberApplications fileId (baseAppId + 1) apps
      .ok ((appId, { app with appId := setInt appId }) :: rest)

/-- `extracted` are the locations that the run finds. -/
def instrumentFile (files : List ProjectFile) (file : ProjectFile)
    (extracted : List ApplicationJson) : Except Failure (List (Nat × ApplicationJson)) := do
  let id ← getFileId files file
  numberApplications id 0 extracted

def instrumentFiles (entries : List (ProjectFile × List ApplicationJson)) :
    Except Failure (List (List (Nat × ApplicationJson))) :=
  entries.mapM fun entry => instrumentFile (entries.map Prod.fst) entry.1 entry.2

def loadSchemaApplications (saFiles : List (List ApplicationJson)) :
    Except Failure (List SchemaApplication) := do
  let loaded ← saFiles.mapM loadSAFile
  .ok loaded.flatten

/-! ## Uniqueness -/

def idBlock (fileId n : Nat) : List Nat :=
  (List.range n).map fun baseId => fileId % 2 ^ 10 * 2 ^ 22 + baseId

private theorem idBlock_nodup (fileId n : Nat) : (idBlock fileId n).Nodup :=
  List.nodup_range.map fun _ _ h => Nat.add_left_cancel h

private theorem idBlock_disjoint_iff {fileId fileId' n n' : Nat} (hn : n ≤ 2 ^ 22)
    (hn' : n' ≤ 2 ^ 22) :
    (idBlock fileId n).Disjoint (idBlock fileId' n') ↔
      (n ≠ 0 → n' ≠ 0 → fileId % 2 ^ 10 ≠ fileId' % 2 ^ 10) := by
  constructor
  · intro hdisjoint hpos hpos' hsame
    have hfirst : ∀ {id m : Nat}, m ≠ 0 → id % 2 ^ 10 * 2 ^ 22 ∈ idBlock id m := by
      intro id m hm
      exact List.mem_map.mpr ⟨0, List.mem_range.mpr (Nat.pos_of_ne_zero hm), Nat.add_zero _⟩
    exact hdisjoint (hfirst hpos) (hsame ▸ hfirst hpos')
  · intro hne id hid hid'
    obtain ⟨baseId, hbase, rfl⟩ := List.mem_map.mp hid
    obtain ⟨baseId', hbase', heq⟩ := List.mem_map.mp hid'
    rw [List.mem_range] at hbase hbase'
    exact hne (by omega) (by omega) (by omega)

theorem f1xapp_eq_ok {baseId fileId appId : Nat}
    (h : f1xapp baseId fileId = .ok appId) :
    baseId < 2 ^ 22 ∧ appId = (fileId * 2 ^ 22 + baseId) % 2 ^ 64 := by
  unfold f1xapp at h
  split at h
  · rename_i hroom
    exact ⟨hroom, (Except.ok.inj h).symm⟩
  · cases h

private theorem numberApplications_length {fileId baseAppId : Nat} {apps : List ApplicationJson}
    {numbered : List (Nat × ApplicationJson)}
    (h : numberApplications fileId baseAppId apps = .ok numbered) (hne : apps ≠ []) :
    baseAppId + apps.length ≤ 2 ^ 22 := by
  induction apps generalizing baseAppId numbered with
  | nil => exact absurd rfl hne
  | cons app apps ih =>
      obtain ⟨appId, happId, h⟩ := bind_eq_ok_iff.mp h
      obtain ⟨rest, hrest, -⟩ := bind_eq_ok_iff.mp h
      have hroom := (f1xapp_eq_ok happId).1
      rw [List.length_cons]
      by_cases hlast : apps = []
      · rw [hlast, List.length_nil]
        omega
      · have := ih hrest hlast
        omega

theorem getUint_eq_ok {number : Int} {n : Nat} (h : getUint number = .ok n) :
    number = n ∧ n < uintRange := by
  unfold getUint at h
  split at h
  · rename_i hrange
    obtain rfl := Except.ok.inj h
    omega
  · cases h

/-- The id that is loaded for the one in the instrumented source. -/
def loadedId (appId : Nat) : Nat := appId % uintRange

theorem getUint_setInt {n id : Nat} (h : getUint (setInt n) = .ok id) : id = loadedId n := by
  obtain ⟨hset, hid⟩ := getUint_eq_ok h
  have hemod : setInt n % uintRange = (n : Int) % uintRange := Int.bmod_emod
  rw [hset, Int.emod_eq_of_lt (by omega) (by omega)] at hemod
  rw [loadedId]
  omega

theorem loadSchemaApplication_id {app : ApplicationJson} {sa : SchemaApplication}
    (h : loadSchemaApplication app = .ok sa) : getUint app.appId = .ok sa.id := by
  obtain ⟨appId, happId, h⟩ := bind_eq_ok_iff.mp h
  obtain ⟨schema, -, h⟩ := bind_eq_ok_iff.mp h
  obtain ⟨location, -, h⟩ := bind_eq_ok_iff.mp h
  obtain ⟨expression, -, h⟩ := bind_eq_ok_iff.mp h
  obtain ⟨components, -, h⟩ := bind_eq_ok_iff.mp h
  cases h
  exact happId

private theorem loadSAFile_numbered {fileId baseAppId : Nat} {apps : List ApplicationJson}
    {numbered : List (Nat × ApplicationJson)} {sas : List SchemaApplication}
    (h : numberApplications fileId baseAppId apps = .ok numbered)
    (hload : loadSAFile (numbered.map Prod.snd) = .ok sas) :
    sas.map (·.id) = (List.range' baseAppId apps.length).map
        (fun baseId => fileId % 2 ^ 10 * 2 ^ 22 + baseId) ∧
      sas.map (·.id) = numbered.map (loadedId ·.1) := by
  induction apps generalizing baseAppId numbered sas with
  | nil =>
      cases h
      cases hload
      exact ⟨rfl, rfl⟩
  | cons app apps ih =>
      obtain ⟨appId, happId, h⟩ := bind_eq_ok_iff.mp h
      obtain ⟨rest, hrest, h⟩ := bind_eq_ok_iff.mp h
      obtain rfl := Except.ok.inj h
      rw [loadSAFile, List.map_cons, mapM_eq_ok_iff] at hload
      obtain ⟨sa, sas, hsa, hsas, rfl⟩ := List.forall₂_cons_left_iff.mp hload
      obtain ⟨hids, hnumbers⟩ := ih hrest (mapM_eq_ok_iff.mpr hsas)
      have happ := loadSchemaApplication_id hsa
      dsimp only at happ
      have hid := getUint_setInt happ
      refine ⟨?_, by simp only [List.map_cons, hnumbers, hid]⟩
      rw [List.length_cons, List.range'_succ, List.map_cons, List.map_cons, hids, hid]
      have hloaded : loadedId appId = fileId % 2 ^ 10 * 2 ^ 22 + baseAppId := by
        obtain ⟨hroom, hvalue⟩ := f1xapp_eq_ok happId
        rw [loadedId, hvalue, uintRange]
        omega
      rw [hloaded]

/-- The position of the first entry for a file in the list. -/
def firstEntry (entries : List (ProjectFile × List ApplicationJson)) (file : ProjectFile) :
    Nat :=
  (entries.map (·.1.relpath)).idxOf file.relpath

private theorem instrumentFile_eq_ok {entries : List (ProjectFile × List ApplicationJson)}
    {file : ProjectFile} {apps : List ApplicationJson}
    {numbered : List (Nat × ApplicationJson)}
    (h : instrumentFile (entries.map Prod.fst) file apps = .ok numbered) :
    ∃ fileId, fileId % 2 ^ 10 = firstEntry entries file % 2 ^ 10 ∧
      numberApplications fileId 0 apps = .ok numbered := by
  obtain ⟨fileId, hid, h⟩ := bind_eq_ok_iff.mp h
  refine ⟨fileId, ?_, h⟩
  simp only [getFileId] at hid
  split at hid
  · rw [← Except.ok.inj hid, List.map_map]
    exact Nat.mod_mod_of_dvd _ (by decide)
  · cases hid

private theorem loaded_ids {files : List ProjectFile}
    {entries all : List (ProjectFile × List ApplicationJson)}
    {numbered : List (List (Nat × ApplicationJson))} {loaded : List (List SchemaApplication)}
    (hfiles : files = all.map Prod.fst)
    (hrun : List.Forall₂ (fun entry result =>
      instrumentFile files entry.1 entry.2 = .ok result) entries numbered)
    (hload : List.Forall₂ (fun file result =>
      loadSAFile (file.map Prod.snd) = .ok result) numbered loaded) :
    loaded.map (·.map (·.id)) =
        entries.map (fun entry => idBlock (firstEntry all entry.1) entry.2.length) ∧
      loaded.map (·.map (·.id)) = numbered.map (·.map (loadedId ·.1)) ∧
      ∀ entry ∈ entries, entry.2.length ≤ 2 ^ 22 := by
  subst hfiles
  induction hrun generalizing loaded with
  | nil =>
      cases hload
      simp
  | @cons entry result entries numbered hentry hrest ih =>
      obtain ⟨sas, others, hsas, hothers, rfl⟩ := List.forall₂_cons_left_iff.mp hload
      obtain ⟨hblocks, hnumbers, hlengths⟩ := ih hothers
      obtain ⟨fileId, hid, hnumbered⟩ := instrumentFile_eq_ok hentry
      obtain ⟨hblock, hnumber⟩ := loadSAFile_numbered hnumbered hsas
      refine ⟨?_, by simp only [List.map_cons, hnumbers, hnumber], ?_⟩
      · rw [List.map_cons, List.map_cons, hblocks, hblock, idBlock, ← hid, List.range_eq_range']
      · rintro other (_ | ⟨_, hother⟩)
        · by_cases hempty : entry.2 = []
          · simp [hempty]
          · simpa using numberApplications_length hnumbered hempty
        · exact hlengths other hother

/--
The ids of all locations are distinct, in the instrumented sources and as they
are loaded, exactly if no two entries of the file list with locations have first
entries that agree modulo the number of file ids.
-/
theorem appIds_nodup_iff {entries : List (ProjectFile × List ApplicationJson)}
    {numbered : List (List (Nat × ApplicationJson))} {sas : List SchemaApplication}
    (hrun : instrumentFiles entries = .ok numbered)
    (hload : loadSchemaApplications (numbered.map (·.map Prod.snd)) = .ok sas) :
    ((numbered.flatten.map Prod.fst).Nodup ∧ (sas.map (·.id)).Nodup) ↔
      entries.Pairwise fun first second => first.2 ≠ [] → second.2 ≠ [] →
        firstEntry entries first.1 % 2 ^ f1xappValueBits ≠
          firstEntry entries second.1 % 2 ^ f1xappValueBits := by
  obtain ⟨loaded, hloaded, hsas⟩ := bind_eq_ok_iff.mp hload
  obtain rfl := Except.ok.inj hsas
  have hloads := List.forall₂_map_left_iff.mp (mapM_eq_ok_iff.mp hloaded)
  obtain ⟨hblocks, hnumbers, hlengths⟩ := loaded_ids rfl (mapM_eq_ok_iff.mp hrun) hloads
  have hinstrumented : (loaded.flatten.map (·.id)).Nodup →
      (numbered.flatten.map Prod.fst).Nodup := by
    intro hnodup
    rw [List.map_flatten, hnumbers] at hnodup
    refine List.Nodup.of_map loadedId ?_
    rwa [List.map_map, List.map_flatten]
  rw [and_iff_right_of_imp hinstrumented, List.map_flatten, hblocks, List.nodup_flatten,
    and_iff_right, List.pairwise_map]
  · refine List.Pairwise.iff_of_mem fun hfirst hsecond => ?_
    rw [idBlock_disjoint_iff (hlengths _ hfirst) (hlengths _ hsecond)]
    simp [f1xappValueBits]
  · intro block hblock
    obtain ⟨entry, -, rfl⟩ := List.mem_map.mp hblock
    exact idBlock_nodup _ _

def twoFiles : FileSystem where
  canonical path := .ok path
  relativeTo path := path
  fileExists path := path = "main.c" || path = "lib.c"

/-- A guard before a statement that uses no variable. -/
def guardApplication (appId : Int) : ApplicationJson where
  appId := appId
  schema := "if_guard"
  location := ⟨0, 5, 3, 5, 9⟩
  context := "condition"
  expression := .leaf "constant" "integer" "int" "1"
  components := []

theorem instrument_guardApplication {files : List ProjectFile} {file : ProjectFile}
    {fileId id : Nat} (hfile : getFileId files file = .ok fileId)
    (hid : f1xapp 0 fileId = .ok id) :
    instrumentFile files file [guardApplication 0] =
      .ok [(id, guardApplication (setInt id))] :=
  bind_eq_ok_iff.mpr ⟨fileId, hfile, bind_eq_ok_iff.mpr ⟨id, hid, rfl⟩⟩

theorem load_guardApplication {appId : Int} {id : Nat} (h : getUint appId = .ok id) :
    ∃ sa, loadSchemaApplication (guardApplication appId) = .ok sa ∧ sa.id = id :=
  ⟨_, bind_eq_ok_iff.mpr ⟨id, h, rfl⟩, rfl⟩

/-- Two ranges of one file, each with one location. -/
theorem twoRanges_same_id :
    ∃ files numbered sas, parseFilesArg twoFiles ["main.c:20", "main.c:30-45"] = .ok files ∧
      instrumentFiles (files.zip [[guardApplication 0], [guardApplication 0]]) =
        .ok numbered ∧
      loadSchemaApplications (numbered.map (·.map Prod.snd)) = .ok sas ∧
      ¬((numbered.flatten.map Prod.fst).Nodup ∧ (sas.map (·.id)).Nodup) := by
  obtain ⟨sa, hload, -⟩ := @load_guardApplication (setInt 0) 0 rfl
  refine ⟨[⟨"main.c", 20, 20⟩, ⟨"main.c", 30, 45⟩],
    [[(0, guardApplication (setInt 0))], [(0, guardApplication (setInt 0))]], [sa, sa], rfl,
    ?_, ?_, ?_⟩
  · exact mapM_eq_ok_iff.mpr (.cons (instrument_guardApplication rfl rfl)
      (.cons (instrument_guardApplication rfl rfl) .nil))
  · simp [loadSchemaApplications, loadSAFile, hload, bind_eq_ok_iff]
  · simp

theorem appIds_nodup_iff_twoFiles :
    ∃ entries numbered sas, instrumentFiles entries = .ok numbered ∧
      loadSchemaApplications (numbered.map (·.map Prod.snd)) = .ok sas ∧
      (((numbered.flatten.map Prod.fst).Nodup ∧ (sas.map (·.id)).Nodup) ↔
        entries.Pairwise fun first second => first.2 ≠ [] → second.2 ≠ [] →
          firstEntry entries first.1 % 2 ^ f1xappValueBits ≠
            firstEntry entries second.1 % 2 ^ f1xappValueBits) := by
  obtain ⟨first, hfirst, -⟩ := @load_guardApplication (setInt 0) 0 rfl
  obtain ⟨second, hsecond, -⟩ := @load_guardApplication (setInt 4194304) 4194304 rfl
  have hrun : instrumentFiles [(⟨"main.c", 20, 20⟩, [guardApplication 0]),
      (⟨"lib.c", 5, 45⟩, [guardApplication 0])] =
        .ok [[(0, guardApplication (setInt 0))],
          [(4194304, guardApplication (setInt 4194304))]] :=
    mapM_eq_ok_iff.mpr (.cons (@instrument_guardApplication _ _ 0 0 rfl rfl)
      (.cons (@instrument_guardApplication _ _ 1 4194304 rfl rfl) .nil))
  have hload : loadSchemaApplications [[guardApplication (setInt 0)],
      [guardApplication (setInt 4194304)]] = .ok [first, second] := by
    simp [loadSchemaApplications, loadSAFile, hfirst, hsecond, bind_eq_ok_iff]
  exact ⟨_, _, _, hrun, hload, appIds_nodup_iff hrun hload⟩

/-! ## The trip through JSON -/

theorem getUint_setInt_iff {n : Nat} (h : n < uintRange) :
    getUint (setInt n) = .ok n ↔ n < 2 ^ 31 := by
  unfold uintRange at h
  constructor
  · intro hload
    have hset := (getUint_eq_ok hload).1
    rw [setInt, Int.bmod_def, uintRange] at hset
    split at hset <;> omega
  · intro hlt
    have hset : setInt n = n := by
      rw [setInt, Int.bmod_def, uintRange]
      split <;> omega
    rw [hset, getUint, if_pos (by rw [uintRange]; omega), Int.toNat_natCast]

theorem f1xapp_of_lt {baseId fileId : Nat} (hbase : baseId < 2 ^ 22) (hfile : fileId < 2 ^ 10) :
    f1xapp baseId fileId = .ok (fileId * 2 ^ 22 + baseId) := by
  have hroom : baseId < 2 ^ (f1xappWidth - f1xappValueBits) := hbase
  rw [f1xapp, if_pos hroom, Nat.mod_eq_of_lt (by simp only [f1xappWidth, f1xappValueBits]; omega)]
  rfl

private theorem f1xapp_injective {baseId fileId baseId' fileId' : Nat} (hbase : baseId < 2 ^ 22)
    (hfile : fileId < 2 ^ 10) (hbase' : baseId' < 2 ^ 22) (hfile' : fileId' < 2 ^ 10)
    (h : f1xapp baseId' fileId' = f1xapp baseId fileId) :
    baseId' = baseId ∧ fileId' = fileId := by
  rw [f1xapp_of_lt hbase hfile, f1xapp_of_lt hbase' hfile'] at h
  have hvalue := Except.ok.inj h
  omega

/--
The id in the instrumented source is the one that is loaded, and no other pair
has it, exactly for the lower half of the file ids.
-/
theorem appId_survives_json_iff {baseId fileId : Nat} (hbase : baseId < 2 ^ 22)
    (hfile : fileId < 2 ^ f1xappValueBits) :
    ((∃ appId, f1xapp baseId fileId = .ok appId ∧ getUint (setInt appId) = .ok appId) ∧
        ∀ baseId' < 2 ^ 22, ∀ fileId' < 2 ^ f1xappValueBits,
          f1xapp baseId' fileId' = f1xapp baseId fileId → baseId' = baseId ∧ fileId' = fileId) ↔
      fileId < 2 ^ (f1xappValueBits - 1) := by
  have hfile10 : fileId < 2 ^ 10 := hfile
  have hvalue := f1xapp_of_lt hbase hfile10
  have hload := @getUint_setInt_iff (fileId * 2 ^ 22 + baseId) (by rw [uintRange]; omega)
  rw [show f1xappValueBits - 1 = 9 from rfl]
  constructor
  · rintro ⟨⟨appId, happId, hjson⟩, -⟩
    obtain rfl := Except.ok.inj (hvalue.symm.trans happId)
    have hlt := hload.mp hjson
    omega
  · intro hlow
    exact ⟨⟨_, hvalue, hload.mpr (by omega)⟩,
      fun _ hbase' _ hfile' h => f1xapp_injective hbase hfile10 hbase' hfile' h⟩

theorem appId_survives_json_iff_second :
    ((∃ appId, f1xapp 3 1 = .ok appId ∧ getUint (setInt appId) = .ok appId) ∧
        ∀ baseId' < 2 ^ 22, ∀ fileId' < 2 ^ f1xappValueBits,
          f1xapp baseId' fileId' = f1xapp 3 1 → baseId' = 3 ∧ fileId' = 1) ↔
      1 < 2 ^ (f1xappValueBits - 1) :=
  appId_survives_json_iff (by decide) (by decide)

/-- The id of file 512 is stored as a negative number, which cannot be loaded. -/
theorem appId_of_file_512 :
    f1xapp 0 512 = .ok 2147483648 ∧ getUint (setInt 2147483648) = .error .assertionFailed := by
  constructor <;> rfl

end F1X
