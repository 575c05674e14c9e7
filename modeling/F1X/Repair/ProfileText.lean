import F1X.Library.TextLines
import F1X.Repair.FilesArgument
import F1X.Transform.GuardExtraction
import Mathlib.Data.Finset.Sort
import Mathlib.Data.String.Basic

/-!
# Locations as lines of files

The way of a location from the program under repair to the transformer: the trace
file that `__f1x_trace` writes and `mergeTrace` reads, both in
`repair/Profiler.cpp`, and the profile that `getProfile` writes and
`transform/SchemaApplication.cpp` reads.
-/

namespace F1X

open Library

namespace ProfileText

/-! ## The trace file -/

/-- Each number is an `unsigned long`. -/
structure IsUnsignedLong (loc : Location) : Prop where
  fileId : loc.fileId < 2 ^ 64
  beginLine : loc.beginLine < 2 ^ 64
  beginColumn : loc.beginColumn < 2 ^ 64
  endLine : loc.endLine < 2 ^ 64
  endColumn : loc.endColumn < 2 ^ 64

/-- The generated runtime: what has been traced, and the file that it appends to. -/
structure TraceRuntime where
  locs : Finset Location
  traceFile : String

def clearTrace : TraceRuntime := ⟨∅, ""⟩

def traceLine (loc : Location) : String :=
  toString loc.fileId ++ " " ++ toString loc.beginLine ++ " " ++ toString loc.beginColumn ++
    " " ++ toString loc.endLine ++ " " ++ toString loc.endColumn ++ "\n"

def trace (runtime : TraceRuntime) (loc : Location) : TraceRuntime :=
  if loc ∈ runtime.locs then runtime
  else
    { locs := insert loc runtime.locs
      traceFile := runtime.traceFile ++ traceLine loc }

/-- `>>` into an `unsigned long`: nothing is written at the end of the text, and a stream
that has failed is left without characters. -/
def readUnsignedLong (chars : List Char) : Option (Nat × Option (List Char)) :=
  let chars := chars.dropWhile isSpace
  if chars.isEmpty then none
  else
    let (negative, chars) :=
      match chars with
      | '-' :: rest => (true, rest)
      | '+' :: rest => (false, rest)
      | _ => (false, chars)
    let digits := chars.takeWhile (·.isDigit)
    let value := digitsValue digits
    if digits.isEmpty then some (0, none)
    else if value < 2 ^ 64 then
      some (if negative then (2 ^ 64 - value) % 2 ^ 64 else value,
        some (chars.dropWhile (·.isDigit)))
    else some (2 ^ 64 - 1, none)

/-- A number that nothing is written to has no defined value. -/
def parseLocation (line : List Char) : Option Location := do
  let (fileId, some line) ← readUnsignedLong line | none
  let (beginLine, some line) ← readUnsignedLong line | none
  let (beginColumn, some line) ← readUnsignedLong line | none
  let (endLine, some line) ← readUnsignedLong line | none
  let (endColumn, _) ← readUnsignedLong line
  some ⟨fileId, beginLine, beginColumn, endLine, endColumn⟩

def readTrace (traceFile : String) : Option (List Location) :=
  (getLines traceFile.toList).mapM parseLocation

/-- `mergeTrace` with the file that it reads. -/
def mergeTraceFile (profiler : Profiler) (testIndex : Nat) (isPassing : Bool)
    (traceFile : String) : Option Profiler :=
  (readTrace traceFile).map (profiler.mergeTrace testIndex isPassing)

/-! ## The profile -/

/-- What `getProfile` appends to the profile, in the order of a `std::set`. -/
def writeProfile (profileFile : String) (profiler : Profiler) : String :=
  (profiler.interestingLocations.sort (· ≤ ·)).foldl (fun file loc => file ++ loc ++ "\n")
    profileFile

def initInterestingLocations (profileFile : String) : Finset String :=
  ((getLines profileFile.toList).map String.ofList).toFinset

def isInterestingLocation (interestingLocations : Finset String)
    (fileId beginLine beginColumn endLine endColumn : UInt32) : Bool :=
  toString fileId ++ " " ++ toString beginLine ++ " " ++ toString beginColumn ++ " " ++
    toString endLine ++ " " ++ toString endColumn ∈ interestingLocations

def unsignedLocation (fileId beginLine beginColumn endLine endColumn : UInt32) : Location :=
  ⟨fileId.toNat, beginLine.toNat, beginColumn.toNat, endLine.toNat, endColumn.toNat⟩

/-- The key of the transformer is the text of `locToString`. -/
theorem isInterestingLocation_iff {interestingLocations : Finset String}
    {fileId beginLine beginColumn endLine endColumn : UInt32} :
    isInterestingLocation interestingLocations fileId beginLine beginColumn endLine
        endColumn = true ↔
      locToString (unsignedLocation fileId beginLine beginColumn endLine endColumn) ∈
        interestingLocations :=
  decide_eq_true_iff

/-- The guard pass asks the same question. -/
theorem guardExtraction_isInterestingLocation (cfg : TransformRun)
    (fileId beginLine beginColumn endLine endColumn : UInt32) :
    GuardExtraction.isInterestingLocation cfg
        (unsignedLocation fileId beginLine beginColumn endLine endColumn) =
      isInterestingLocation cfg.interestingLocations fileId beginLine beginColumn endLine
        endColumn :=
  rfl

/-! ## Numbers -/

theorem digitsValue_toString (n : Nat) : digitsValue (toString n).toList = n := by
  rw [toList_toString, digitsValue]
  have hvalue := @Nat.ofDigitChars_ten_toDigits n
  rw [Nat.ofDigitChars_eq_foldl] at hvalue
  simpa only [Nat.mul_comm] using hvalue

private theorem toString_ne_nil (n : Nat) : (toString n).toList ≠ [] := by
  rw [toList_toString]
  exact Nat.toDigits_ne_nil

/-- A printed number is read back, and what follows it is left. -/
theorem readUnsignedLong_toString {n : Nat} (hn : n < 2 ^ 64) {blanks rest : List Char}
    (hblanks : ∀ c ∈ blanks, isSpace c = true) (hrest : ∀ c ∈ rest.head?, c.isDigit = false) :
    readUnsignedLong (blanks ++ ((toString n).toList ++ rest)) = some (n, some rest) := by
  obtain ⟨c, digits, hdigits⟩ := List.exists_cons_of_ne_nil (toString_ne_nil n)
  have hall : ∀ d ∈ c :: digits, d.isDigit = true := by
    intro d hd
    rw [← hdigits] at hd
    exact isDigit_of_mem_toString hd
  have hvalue := digitsValue_toString n
  have hc := hall c List.mem_cons_self
  have htake : rest.takeWhile (·.isDigit) = [] ∧ rest.dropWhile (·.isDigit) = rest := by
    cases rest with
    | nil => exact ⟨rfl, rfl⟩
    | cons d rest =>
        have hd := hrest d rfl
        exact ⟨List.takeWhile_cons_of_neg (by simp [hd]), List.dropWhile_cons_of_neg (by simp [hd])⟩
  rw [hdigits] at hvalue ⊢
  unfold readUnsignedLong
  rw [List.dropWhile_append_of_pos hblanks, List.cons_append,
    List.dropWhile_cons_of_neg (by simp [isSpace_of_isDigit hc])]
  dsimp only
  rw [if_neg (by simp)]
  split
  · rename_i hcons
    exact absurd (List.cons.inj hcons).1 (ne_of_isDigit hc rfl)
  · rename_i hcons
    exact absurd (List.cons.inj hcons).1 (ne_of_isDigit hc rfl)
  · dsimp only
    rw [← List.cons_append, List.takeWhile_append_of_pos hall, List.dropWhile_append_of_pos hall,
      htake.1, htake.2, List.append_nil, hvalue, if_neg (by simp), if_pos hn]
    rfl

/-! ## Lines -/

theorem locToString_toList (loc : Location) :
    (locToString loc).toList = (toString loc.fileId).toList ++ ' ' ::
      ((toString loc.beginLine).toList ++ ' ' :: ((toString loc.beginColumn).toList ++ ' ' ::
        ((toString loc.endLine).toList ++ ' ' :: (toString loc.endColumn).toList))) := by
  simp [locToString]

theorem newline_notMem_locToString (loc : Location) : '\n' ∉ (locToString loc).toList := by
  have hnumber : ∀ n : Nat, '\n' ∉ (toString n).toList := notMem_toString rfl
  have hblank : '\n' ≠ ' ' := by decide
  rw [locToString_toList]
  simp only [List.mem_append, List.mem_cons, hnumber, hblank, or_self, not_false_eq_true]

private theorem traceLine_toList (loc : Location) :
    (traceLine loc).toList = putLine (locToString loc).toList := by
  have hline : traceLine loc = locToString loc ++ "\n" := rfl
  rw [hline, String.toList_append]
  rfl

theorem readUnsignedLong_field {n : Nat} (hn : n < 2 ^ 64) {rest : List Char}
    (hrest : ∀ c ∈ rest.head?, c.isDigit = false) :
    readUnsignedLong (' ' :: ((toString n).toList ++ rest)) = some (n, some rest) :=
  @readUnsignedLong_toString n hn [' '] rest (by simp [isSpace]) hrest

private theorem parseLocation_locToString {loc : Location} (h : IsUnsignedLong loc) :
    parseLocation (locToString loc).toList = some loc := by
  have hblank : ∀ rest : List Char, ∀ c ∈ (' ' :: rest).head?, c.isDigit = false := by
    rintro rest _ ⟨⟩
    rfl
  have hfirst := @readUnsignedLong_toString loc.fileId h.fileId [] _ nofun (hblank
    ((toString loc.beginLine).toList ++ ' ' :: ((toString loc.beginColumn).toList ++ ' ' ::
      ((toString loc.endLine).toList ++ ' ' :: (toString loc.endColumn).toList))))
  have hlast := @readUnsignedLong_field loc.endColumn h.endColumn [] nofun
  rw [List.append_nil] at hlast
  rw [locToString_toList, parseLocation]
  rw [List.nil_append] at hfirst
  simp only [hfirst, readUnsignedLong_field h.beginLine (hblank _),
    readUnsignedLong_field h.beginColumn (hblank _), readUnsignedLong_field h.endLine (hblank _),
    hlast, Option.bind_eq_bind, Option.bind_some]

/-! ## The files -/

theorem trace_of_mem {runtime : TraceRuntime} {loc : Location} (h : loc ∈ runtime.locs) :
    trace runtime loc = runtime :=
  if_pos h

private theorem trace_of_notMem {runtime : TraceRuntime} {loc : Location} (h : loc ∉ runtime.locs) :
    trace runtime loc =
      { locs := insert loc runtime.locs
        traceFile := runtime.traceFile ++ traceLine loc } :=
  if_neg h

private theorem trace_spec (calls : List Location) :
    (calls.foldl trace clearTrace).locs = calls.toFinset ∧
      ∃ order : List Location, order.toFinset = calls.toFinset ∧ order.Nodup ∧
        (calls.foldl trace clearTrace).traceFile.toList =
          (order.map fun loc => (locToString loc).toList).flatMap putLine := by
  induction calls using List.reverseRecOn with
  | nil => exact ⟨rfl, [], rfl, List.nodup_nil, rfl⟩
  | append_singleton calls loc ih =>
      obtain ⟨hlocs, order, horder, hnodup, hfile⟩ := ih
      rw [List.foldl_append, List.foldl_cons, List.foldl_nil, List.toFinset_append]
      by_cases hseen : loc ∈ (calls.foldl trace clearTrace).locs
      · have hunion : calls.toFinset ∪ [loc].toFinset = calls.toFinset := by
          rw [hlocs] at hseen
          simpa using hseen
        rw [trace_of_mem hseen, hunion]
        exact ⟨hlocs, order, horder, hnodup, hfile⟩
      · rw [trace_of_notMem hseen]
        have hnew : loc ∉ order := by
          rwa [← List.mem_toFinset, horder, ← hlocs]
        refine ⟨?_, order ++ [loc], ?_, ?_, ?_⟩
        · rw [hlocs, Finset.union_comm]
          rfl
        · rw [List.toFinset_append, horder]
        · exact List.nodup_append_comm.mp (List.nodup_cons.mpr ⟨hnew, hnodup⟩)
        · rw [String.toList_append, hfile, traceLine_toList]
          simp

private theorem mapM_parseLocation {locs : List Location} (h : ∀ loc ∈ locs, IsUnsignedLong loc) :
    (locs.map fun loc => (locToString loc).toList).mapM parseLocation = some locs := by
  induction locs with
  | nil => rfl
  | cons loc locs ih =>
      obtain ⟨hloc, hlocs⟩ := List.forall_mem_cons.mp h
      rw [List.map_cons, List.mapM_cons, parseLocation_locToString hloc, ih hlocs]
      rfl

theorem readTrace_trace {calls : List Location} (h : ∀ loc ∈ calls, IsUnsignedLong loc) :
    ∃ order : List Location, order.toFinset = calls.toFinset ∧ order.Nodup ∧
      readTrace (calls.foldl trace clearTrace).traceFile = some order := by
  obtain ⟨-, order, horder, hnodup, hfile⟩ := trace_spec calls
  refine ⟨order, horder, hnodup, ?_⟩
  have hlines : ∀ line ∈ order.map fun loc => (locToString loc).toList, '\n' ∉ line := by
    intro line hline
    obtain ⟨loc, -, rfl⟩ := List.mem_map.mp hline
    exact newline_notMem_locToString loc
  rw [readTrace, hfile, getLines_putLines hlines]
  apply mapM_parseLocation
  intro loc hloc
  apply h
  rwa [← List.mem_toFinset, ← horder, List.mem_toFinset]

private theorem foldl_appendLine (locs : List String) (file : String) :
    (locs.foldl (fun file loc => file ++ loc ++ "\n") file).toList =
      file.toList ++ (locs.map String.toList).flatMap putLine := by
  induction locs generalizing file with
  | nil => simp
  | cons loc locs ih =>
      rw [List.foldl_cons, ih]
      simp [putLine]

theorem initInterestingLocations_writeProfile {profiler : Profiler}
    (h : ∀ loc ∈ profiler.interestingLocations, '\n' ∉ loc.toList) :
    initInterestingLocations (writeProfile "" profiler) = profiler.interestingLocations := by
  have hlines : ∀ line ∈ (profiler.interestingLocations.sort (· ≤ ·)).map String.toList,
      '\n' ∉ line := by
    intro line hline
    obtain ⟨loc, hloc, rfl⟩ := List.mem_map.mp hline
    exact h loc ((Finset.mem_sort _).mp hloc)
  have hfile := foldl_appendLine (profiler.interestingLocations.sort (· ≤ ·)) ""
  rw [String.toList_empty, List.nil_append] at hfile
  rw [initInterestingLocations, writeProfile, hfile, getLines_putLines hlines, List.map_map]
  ext loc
  simp

/-- The first failing test makes the locations of its trace the interesting ones. -/
theorem mergeTrace_empty_interestingLocations (testIndex : Nat) (trace : List Location) :
    (Profiler.empty.mergeTrace testIndex false trace).getProfile.interestingLocations =
      trace.toFinset.image locToString := by
  rw [← Profiler.covered_eq]
  rfl

/-- What the transformer asks for is what `__f1x_trace` was called with. -/
theorem profile_round_trip {calls : List Location} (hcalls : ∀ loc ∈ calls, IsUnsignedLong loc)
    (testIndex : Nat) :
    Function.Injective locToString ∧
      ∃ profiler,
        mergeTraceFile Profiler.empty testIndex false
            (calls.foldl trace clearTrace).traceFile = some profiler ∧
          ∀ fileId beginLine beginColumn endLine endColumn : UInt32,
            isInterestingLocation
                (initInterestingLocations (writeProfile "" profiler.getProfile))
                fileId beginLine beginColumn endLine endColumn = true ↔
              unsignedLocation fileId beginLine beginColumn endLine endColumn ∈ calls := by
  obtain ⟨order, horder, -, hread⟩ := readTrace_trace hcalls
  refine ⟨locToString_injective, Profiler.empty.mergeTrace testIndex false order, ?_, ?_⟩
  · rw [mergeTraceFile, hread]
    rfl
  · intro fileId beginLine beginColumn endLine endColumn
    have hprofile := mergeTrace_empty_interestingLocations testIndex order
    rw [horder] at hprofile
    rw [isInterestingLocation_iff, initInterestingLocations_writeProfile, hprofile,
      locToString_injective.mem_finset_image, List.mem_toFinset]
    intro text htext
    rw [hprofile] at htext
    obtain ⟨loc, -, rfl⟩ := Finset.mem_image.mp htext
    exact newline_notMem_locToString loc

theorem profile_round_trip_two :
    Function.Injective locToString ∧
      ∃ profiler,
        mergeTraceFile Profiler.empty 0 false
            ([⟨0, 8, 5, 8, 9⟩, ⟨1, 12, 3, 14, 10⟩].foldl trace clearTrace).traceFile =
            some profiler ∧
          ∀ fileId beginLine beginColumn endLine endColumn : UInt32,
            isInterestingLocation
                (initInterestingLocations (writeProfile "" profiler.getProfile))
                fileId beginLine beginColumn endLine endColumn = true ↔
              unsignedLocation fileId beginLine beginColumn endLine endColumn ∈
                [⟨0, 8, 5, 8, 9⟩, ⟨1, 12, 3, 14, 10⟩] := by
  apply profile_round_trip
  intro loc hloc
  rcases List.mem_pair.mp hloc with rfl | rfl <;> constructor <;> decide

end ProfileText

end F1X
