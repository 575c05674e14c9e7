import Mathlib.Data.List.TakeWhile
import F1X.Repair.ProjectFiles

/-!
# The grammar of the file list

The documented forms of an element of `--files` and the lines that each of them
stands for, compared with `parseFilesArg` of `tools/F1X.cpp` and `inRange` of
`transform/TransformUtil.cpp`.  The line numbers reach the transformer as decimal
numbers on its command line.
-/

namespace F1X

open Library

/-- `fromLine` and `toLine` are the members of `cfg`. -/
def inRange (fromLine toLine line : Nat) : Bool :=
  if fromLine ≠ 0 ∨ toLine ≠ 0 then fromLine ≤ line ∧ line ≤ toLine else true

/-! ## The documented forms -/

def intMax : Nat := 2147483647

/-- The text of a decimal number of at least 1 that fits an `int`. -/
structure IsLineNumber (part : List Char) (n : Nat) : Prop where
  nonempty : part ≠ []
  digits : ∀ c ∈ part, c.isDigit = true
  value : digitsValue part = n
  positive : 1 ≤ n
  fits : n ≤ intMax

inductive Documented : List Char → (Nat → Prop) → Prop
  | path {path : List Char} (hpath : ':' ∉ path) : Documented path fun _ => True
  | line {path part : List Char} {n : Nat} (hpath : ':' ∉ path) (hpart : IsLineNumber part n) :
      Documented (path ++ ':' :: part) fun line => line = n
  | lines {path fromPart toPart : List Char} {n m : Nat} (hpath : ':' ∉ path)
      (hfrom : IsLineNumber fromPart n) (hto : IsLineNumber toPart m) :
      Documented (path ++ ':' :: (fromPart ++ '-' :: toPart)) fun line => n ≤ line ∧ line ≤ m

structure FollowsGrammar (fs : FileSystem) (arg : String) : Prop where
  accepts : (∃ files, parseFilesArg fs [arg] = .ok files) ↔ ∃ lines, Documented arg.toList lines
  restricts : ∀ files lines, parseFilesArg fs [arg] = .ok files → Documented arg.toList lines →
    ∃ file, files = [file] ∧ ∀ line, inRange file.fromLine file.toLine line = true ↔ lines line
  rejects : ∀ failure, parseFilesArg fs [arg] = .error failure →
    ∃ message, failure = .parseError message

/-- Every path names a file that exists. -/
structure Resolves (fs : FileSystem) : Prop where
  canonical : ∀ path, ∃ canonical, fs.canonical path = .ok canonical
  fileExists : ∀ file, fs.fileExists file = true

/-- The texts that are read as numbers. -/
def rangeParts (arg : List Char) : List (List Char) :=
  match splitAt ':' arg with
  | none => []
  | some (_, rangeStr) =>
      match splitAt '-' rangeStr with
      | none => [rangeStr]
      | some (fromStr, toStr) => [fromStr, toStr]

/-! ## Splitting and reading -/

theorem splitAt_append {separator : Char} {front back : List Char} (h : separator ∉ front) :
    splitAt separator (front ++ separator :: back) = some (front, back) := by
  have hne : ∀ c ∈ front, decide (c ≠ separator) = true := by
    rintro c hc
    rw [decide_eq_true_iff]
    rintro rfl
    exact h hc
  rw [splitAt, if_pos (by simp), List.takeWhile_append_of_pos hne,
    List.dropWhile_append_of_pos hne]
  simp

theorem splitAt_eq_some {separator : Char} {chars front back : List Char}
    (h : splitAt separator chars = some (front, back)) :
    chars = front ++ separator :: back ∧ separator ∉ front := by
  unfold splitAt at h
  split at h
  · rename_i hmem
    obtain ⟨before, after, rfl, hbefore⟩ := List.eq_append_cons_of_mem hmem
    have hsplit := @splitAt_append separator before after hbefore
    rw [splitAt, if_pos hmem] at hsplit
    obtain ⟨rfl, rfl⟩ := Prod.mk.inj (Option.some.inj (hsplit.symm.trans h))
    exact ⟨rfl, hbefore⟩
  · cases h

theorem splitAt_eq_none {separator : Char} {chars : List Char} :
    splitAt separator chars = none ↔ separator ∉ chars := by
  unfold splitAt
  split <;> simp_all

theorem ne_of_isDigit {c other : Char} (h : c.isDigit = true) (hother : other.isDigit = false) :
    c ≠ other := by
  rintro rfl
  rw [h] at hother
  cases hother

theorem isSpace_of_isDigit {c : Char} (h : c.isDigit = true) : isSpace c = false := by
  have hne : ∀ other ∈ [' ', '\t', '\n', '\r', '\x0b', '\x0c'], c ≠ other := by
    intro other hother
    simp only [List.mem_cons, List.not_mem_nil, or_false] at hother
    rcases hother with rfl | rfl | rfl | rfl | rfl | rfl <;> exact ne_of_isDigit h rfl
  simp only [List.forall_mem_cons] at hne
  simp [isSpace, hne]

theorem stoi_lineNumber {part : List Char} {n : Nat} (h : IsLineNumber part n) :
    stoi (String.ofList part) = some (n : Int) := by
  obtain ⟨c, rest, rfl⟩ := List.exists_cons_of_ne_nil h.nonempty
  have hdigit := h.digits c List.mem_cons_self
  have hminus : c ≠ '-' := ne_of_isDigit hdigit rfl
  have hplus : c ≠ '+' := ne_of_isDigit hdigit rfl
  have hall : (c :: rest).takeWhile (·.isDigit) = c :: rest :=
    List.takeWhile_eq_self_iff.mpr h.digits
  have hfits := h.fits
  unfold intMax at hfits
  unfold stoi
  rw [String.toList_ofList, List.dropWhile_cons_of_neg (by simp [isSpace_of_isDigit hdigit])]
  dsimp only
  split
  · rename_i hcons
    exact absurd (List.cons.inj hcons).1 hminus
  · rename_i hcons
    exact absurd (List.cons.inj hcons).1 hplus
  · simp only [hall, List.isEmpty_cons, Bool.false_eq_true, if_false, h.value]
    rw [if_pos (by omega)]

theorem toUnsigned_lineNumber {n : Nat} (h : n ≤ intMax) : toUnsigned n = n := by
  unfold intMax at h
  rw [toUnsigned, uintRange]
  omega

/-! ## What is parsed -/

theorem IsLineNumber.splitAt_dash {part : List Char} {n : Nat} (h : IsLineNumber part n) :
    splitAt '-' part = none :=
  splitAt_eq_none.mpr fun hmem => absurd (h.digits _ hmem) (by decide)

theorem Documented.rangeParts_cases {arg : List Char} {lines : Nat → Prop}
    (h : Documented arg lines) :
    (rangeParts arg = [] ∧ lines = fun _ => True) ∨
      (∃ part n, rangeParts arg = [part] ∧ IsLineNumber part n ∧ lines = fun line => line = n) ∨
      (∃ fromPart toPart n m, rangeParts arg = [fromPart, toPart] ∧ IsLineNumber fromPart n ∧
        IsLineNumber toPart m ∧ lines = fun line => n ≤ line ∧ line ≤ m) := by
  cases h with
  | path hpath =>
      refine Or.inl ⟨?_, rfl⟩
      rw [rangeParts, splitAt_eq_none.mpr hpath]
  | line hpath hpart =>
      refine Or.inr (Or.inl ⟨_, _, ?_, hpart, rfl⟩)
      rw [rangeParts, splitAt_append hpath]
      dsimp only
      rw [hpart.splitAt_dash]
  | lines hpath hfrom hto =>
      refine Or.inr (Or.inr ⟨_, _, _, _, ?_, hfrom, hto, rfl⟩)
      rw [rangeParts, splitAt_append hpath]
      dsimp only
      rw [splitAt_append (splitAt_eq_none.mp hfrom.splitAt_dash)]

theorem documented_iff {arg : List Char} :
    (∃ lines, Documented arg lines) ↔ ∀ part ∈ rangeParts arg, ∃ n, IsLineNumber part n := by
  constructor
  · rintro ⟨lines, hdocumented⟩
    rcases hdocumented.rangeParts_cases with
      ⟨hparts, -⟩ | ⟨part, n, hparts, hpart, -⟩ | ⟨fromPart, toPart, n, m, hparts, hfrom, hto, -⟩
    · simp [hparts]
    · rw [hparts, List.forall_mem_singleton]
      exact ⟨n, hpart⟩
    · rw [hparts, List.forall_mem_cons, List.forall_mem_singleton]
      exact ⟨⟨n, hfrom⟩, ⟨m, hto⟩⟩
  · intro hparts
    unfold rangeParts at hparts
    cases hcolon : splitAt ':' arg with
    | none => exact ⟨_, .path (splitAt_eq_none.mp hcolon)⟩
    | some split =>
        obtain ⟨path, rangeStr⟩ := split
        obtain ⟨rfl, hpath⟩ := splitAt_eq_some hcolon
        rw [hcolon] at hparts
        dsimp only at hparts
        cases hdash : splitAt '-' rangeStr with
        | none =>
            rw [hdash, List.forall_mem_singleton] at hparts
            obtain ⟨n, hpart⟩ := hparts
            exact ⟨_, .line hpath hpart⟩
        | some ends =>
            obtain ⟨fromStr, toStr⟩ := ends
            obtain ⟨rfl, -⟩ := splitAt_eq_some hdash
            rw [hdash, List.forall_mem_cons, List.forall_mem_singleton] at hparts
            obtain ⟨⟨n, hfrom⟩, ⟨m, hto⟩⟩ := hparts
            exact ⟨_, .lines hpath hfrom hto⟩

def readPart (part : List Char) : Option Int := stoi (String.ofList part)

theorem resolve_file {fs : FileSystem} (hfs : Resolves fs) (path : String) (fromLine toLine : Nat) :
    ∃ relpath, (do
      let canonical ← fs.canonical path
      let file := fs.relativeTo canonical
      if fs.fileExists file then .ok ⟨file, fromLine, toLine⟩
      else .error (.parseError ("source file does not exist: " ++ file)) :
        Except Failure ProjectFile) = .ok ⟨relpath, fromLine, toLine⟩ := by
  obtain ⟨canonical, hcanonical⟩ := hfs.canonical path
  refine ⟨fs.relativeTo canonical, bind_eq_ok_iff.mpr ⟨canonical, hcanonical, ?_⟩⟩
  dsimp only
  rw [if_pos (hfs.fileExists _)]

theorem parseLine_of_some {rangeStr part : List Char} {n : Int} (h : readPart part = some n) :
    parseLine rangeStr part = .ok (toUnsigned n) := by
  unfold readPart at h
  rw [parseLine, h]

theorem parseLine_of_none {rangeStr part : List Char} (h : readPart part = none) :
    parseLine rangeStr part =
      .error (.parseError ("wrong range format: " ++ String.ofList rangeStr)) := by
  unfold readPart at h
  rw [parseLine, h]

theorem parseFileArg_eq_ok {fs : FileSystem} (hfs : Resolves fs) {arg : String}
    {numbers : List Int} (h : (rangeParts arg.toList).mapM readPart = some numbers) :
    ∃ relpath, parseFileArg fs arg =
      .ok ⟨relpath, toUnsigned (numbers.headD 0), toUnsigned (numbers.getLastD 0)⟩ := by
  unfold rangeParts at h
  unfold parseFileArg
  cases hcolon : splitAt ':' arg.toList with
  | none =>
      rw [hcolon] at h
      cases h
      exact resolve_file hfs _ _ _
  | some split =>
      obtain ⟨path, rangeStr⟩ := split
      rw [hcolon] at h
      dsimp only at h ⊢
      cases hdash : splitAt '-' rangeStr with
      | none =>
          rw [hdash] at h
          simp only [List.mapM_cons, List.mapM_nil, Option.bind_eq_bind,
            Option.bind_eq_some_iff, Option.pure_def, Option.some.injEq] at h
          obtain ⟨n, hn, rest, rfl, rfl⟩ := h
          dsimp only
          rw [parseLine_of_some hn]
          exact resolve_file hfs _ _ _
      | some ends =>
          obtain ⟨fromStr, toStr⟩ := ends
          rw [hdash] at h
          simp only [List.mapM_cons, List.mapM_nil, Option.bind_eq_bind,
            Option.bind_eq_some_iff, Option.pure_def, Option.some.injEq] at h
          obtain ⟨n, hn, others, ⟨m, hm, rest, rfl, rfl⟩, rfl⟩ := h
          dsimp only
          rw [parseLine_of_some hn, parseLine_of_some hm]
          exact resolve_file hfs _ _ _

private theorem parseFileArg_eq_error (fs : FileSystem) {arg : String}
    (h : ∃ part ∈ rangeParts arg.toList, readPart part = none) :
    ∃ message, parseFileArg fs arg = .error (.parseError message) := by
  unfold rangeParts at h
  unfold parseFileArg
  cases hcolon : splitAt ':' arg.toList with
  | none => simp [hcolon] at h
  | some split =>
      obtain ⟨path, rangeStr⟩ := split
      rw [hcolon] at h
      dsimp only at h ⊢
      cases hdash : splitAt '-' rangeStr with
      | none =>
          rw [hdash] at h
          obtain ⟨part, hpart, hnone⟩ := h
          obtain rfl := List.mem_singleton.mp hpart
          dsimp only
          rw [parseLine_of_none hnone]
          exact ⟨_, rfl⟩
      | some ends =>
          obtain ⟨fromStr, toStr⟩ := ends
          rw [hdash, List.exists_mem_cons_iff, List.exists_mem_cons_iff] at h
          dsimp only
          cases hfrom : readPart fromStr with
          | none =>
              rw [parseLine_of_none hfrom]
              exact ⟨_, rfl⟩
          | some n =>
              simp only [hfrom, reduceCtorEq, List.not_mem_nil, false_and, exists_false, or_false,
                false_or] at h
              rw [parseLine_of_some hfrom, parseLine_of_none h]
              exact ⟨_, rfl⟩

theorem parseFilesArg_singleton (fs : FileSystem) (arg : String) :
    parseFilesArg fs [arg] = (do let file ← parseFileArg fs arg; .ok [file]) := by
  rw [parseFilesArg, List.mapM_cons, List.mapM_nil]
  rfl

/-! ## The grammar -/

theorem inRange_iff {fromLine toLine line : Nat} (h : 1 ≤ fromLine) :
    inRange fromLine toLine line = true ↔ fromLine ≤ line ∧ line ≤ toLine := by
  rw [inRange, if_pos (by omega), decide_eq_true_iff]

theorem restricts_documented {fs : FileSystem} (hfs : Resolves fs) {arg : String}
    {lines : Nat → Prop} (h : Documented arg.toList lines) :
    ∃ file, parseFilesArg fs [arg] = .ok [file] ∧
      ∀ line, inRange file.fromLine file.toLine line = true ↔ lines line := by
  rcases h.rangeParts_cases with
    ⟨hparts, rfl⟩ | ⟨part, n, hparts, hpart, rfl⟩ |
      ⟨fromPart, toPart, n, m, hparts, hfrom, hto, rfl⟩
  · obtain ⟨relpath, hparse⟩ := @parseFileArg_eq_ok _ hfs arg [] (by rw [hparts]; rfl)
    refine ⟨_, by rw [parseFilesArg_singleton, hparse]; rfl, fun line => ?_⟩
    exact iff_of_true rfl trivial
  · obtain ⟨relpath, hparse⟩ := @parseFileArg_eq_ok _ hfs arg [(n : Int)] (by
      simp [hparts, readPart, stoi_lineNumber hpart])
    refine ⟨_, by rw [parseFilesArg_singleton, hparse]; rfl, fun line => ?_⟩
    have hn := toUnsigned_lineNumber hpart.fits
    have hpositive := hpart.positive
    simp only [List.headD_cons, List.getLastD_cons, List.getLastD_nil, hn]
    rw [inRange_iff hpositive]
    omega
  · obtain ⟨relpath, hparse⟩ := @parseFileArg_eq_ok _ hfs arg [(n : Int), (m : Int)] (by
      simp [hparts, readPart, stoi_lineNumber hfrom, stoi_lineNumber hto])
    refine ⟨_, by rw [parseFilesArg_singleton, hparse]; rfl, fun line => ?_⟩
    have hn := toUnsigned_lineNumber hfrom.fits
    have hm := toUnsigned_lineNumber hto.fits
    simp only [List.headD_cons, List.getLastD_cons, List.getLastD_nil, hn, hm]
    exact inRange_iff hfrom.positive

/--
The argument is treated as documented exactly if some text of its range is
rejected by `stoi`, or each of them is the plain decimal number of a line.
-/
theorem followsGrammar_iff {fs : FileSystem} (hfs : Resolves fs) (arg : String) :
    FollowsGrammar fs arg ↔
      (∃ part ∈ rangeParts arg.toList, stoi (String.ofList part) = none) ∨
        ∀ part ∈ rangeParts arg.toList, ∃ n, IsLineNumber part n := by
  constructor
  · intro h
    by_cases hread : ∃ part ∈ rangeParts arg.toList, stoi (String.ofList part) = none
    · exact Or.inl hread
    · refine Or.inr (documented_iff.mp (h.accepts.mp ?_))
      have hsome : ((rangeParts arg.toList).mapM readPart).isSome := by
        refine isSome_mapM_iff.mpr fun part hpart => ?_
        rw [Option.isSome_iff_ne_none]
        exact fun hnone => hread ⟨part, hpart, hnone⟩
      obtain ⟨numbers, hnumbers⟩ := Option.isSome_iff_exists.mp hsome
      obtain ⟨relpath, hparse⟩ := parseFileArg_eq_ok hfs hnumbers
      exact ⟨_, by rw [parseFilesArg_singleton, hparse]; rfl⟩
  · rintro (hread | hparts)
    · obtain ⟨message, hparse⟩ := parseFileArg_eq_error fs hread
      have herror : parseFilesArg fs [arg] = .error (.parseError message) := by
        rw [parseFilesArg_singleton, hparse]
        rfl
      have hundocumented : ∀ lines, ¬ Documented arg.toList lines := by
        intro lines hdocumented
        obtain ⟨file, hok, -⟩ := restricts_documented hfs hdocumented
        cases herror.symm.trans hok
      refine ⟨?_, fun files lines _ hdocumented => absurd hdocumented (hundocumented lines), ?_⟩
      · refine iff_of_false ?_ fun ⟨lines, hdocumented⟩ => hundocumented lines hdocumented
        rintro ⟨files, hok⟩
        cases herror.symm.trans hok
      · intro failure hfailure
        cases herror.symm.trans hfailure
        exact ⟨message, rfl⟩
    · obtain ⟨lines, hdocumented⟩ := documented_iff.mpr hparts
      obtain ⟨file, hok, -⟩ := restricts_documented hfs hdocumented
      refine ⟨iff_of_true ⟨_, hok⟩ ⟨lines, hdocumented⟩, ?_, ?_⟩
      · intro files other hfiles hother
        obtain ⟨single, hsingle, hlines⟩ := restricts_documented hfs hother
        cases hfiles.symm.trans hsingle
        exact ⟨single, rfl, hlines⟩
      · intro failure hfailure
        cases hok.symm.trans hfailure

def anyFile : FileSystem where
  canonical path := .ok path
  relativeTo path := path
  fileExists _ := true

theorem followsGrammar_iff_range :
    FollowsGrammar anyFile "lib.c:5-45" ↔
      (∃ part ∈ rangeParts "lib.c:5-45".toList, stoi (String.ofList part) = none) ∨
        ∀ part ∈ rangeParts "lib.c:5-45".toList, ∃ n, IsLineNumber part n :=
  followsGrammar_iff ⟨fun path => ⟨path, rfl⟩, fun _ => rfl⟩ "lib.c:5-45"

/-- Line 0 is accepted and removes the restriction. -/
theorem line_zero_accepted :
    parseFilesArg anyFile ["main.c:0"] = .ok [⟨"main.c", 0, 0⟩] ∧
      (∀ line, inRange 0 0 line = true) ∧
      ¬FollowsGrammar anyFile "main.c:0" := by
  have hparse : parseFilesArg anyFile ["main.c:0"] = .ok [⟨"main.c", 0, 0⟩] := by decide
  refine ⟨hparse, fun _ => rfl, fun h => ?_⟩
  obtain ⟨n, hn⟩ := documented_iff.mp (h.accepts.mp ⟨_, hparse⟩) ['0'] (by decide)
  have hzero : digitsValue ['0'] = 0 := rfl
  have hvalue := hn.value
  have hpositive := hn.positive
  omega

end F1X
