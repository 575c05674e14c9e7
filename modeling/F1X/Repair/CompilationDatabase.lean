import Mathlib.Algebra.GroupWithZero.Nat
import Mathlib.Data.List.TakeWhile
import F1X.Library.Checked
import F1X.Library.Words
import F1X.Util

/-!
# The compilation database

`adjustCompileDB` of `repair/Project.cpp` puts two flags behind the first word of
every command.  A database that is already there is reused, so it is adjusted in
every run of f1x on a project.
-/

namespace F1X

open Library

/-- An object of `compile_commands.json`; the directory is not read. -/
structure CompileCommand where
  file : String
  command : List Char
  deriving DecidableEq

namespace CompilationDatabase

def npos : Nat := 2 ^ 64 - 1

def findSpace (command : List Char) : Nat :=
  if ' ' ∈ command then command.idxOf ' ' else npos

def substrFrom (command : List Char) (index : Nat) : Except Failure (List Char) :=
  if index ≤ command.length then .ok (command.drop index) else .error .outOfRange

/-- The index of the first space is held in a variable of some width. -/
def insertFlag (width : Nat) (flag command : List Char) : Except Failure (List Char) :=
  if flag <:+: command then .ok command
  else do
    let index := findSpace command % 2 ^ width
    let rest ← substrFrom command index
    .ok (command.take index ++ ' ' :: flag ++ ' ' :: rest)

def includeFlag (clangInclude : List Char) : List Char := "-I".toList ++ clangInclude

def defineFlag : List Char := "-D__f1xapp=0ul".toList

/-- The index is an `unsigned` for the first flag and an `unsigned long` for the second. -/
def adjustCommand (clangInclude command : List Char) : Except Failure (List Char) := do
  let command ← insertFlag 32 (includeFlag clangInclude) command
  insertFlag 64 defineFlag command

def adjustEntry (clangInclude : List Char) (entry : CompileCommand) :
    Except Failure CompileCommand := do
  let command ← adjustCommand clangInclude entry.command
  .ok { entry with command := command }

def adjustCompileDB (clangInclude : List Char) (db : List CompileCommand) :
    Except Failure (List CompileCommand) :=
  db.mapM (adjustEntry clangInclude)

/-- `equivalent` asks the file system whether two paths lead to one file. -/
def projectFilesInCompileDB (equivalent : String → String → Bool) (files : List String)
    (db : List CompileCommand) : Bool :=
  files.all fun file => db.any fun entry => equivalent entry.file file

def sourceFileExtensions : List String := [".c"]

def isSourceFile (file : String) : Bool :=
  sourceFileExtensions.any fun extension =>
    extension.length < file.length && extension.toList.isSuffixOf file.toList

def filesFromCompilationDB (relative : String → String) (db : List CompileCommand) :
    List String :=
  (db.filter (isSourceFile ·.file)).map (relative ·.file)

/-! ## One flag -/

def front (command : List Char) : List Char := command.takeWhile (· ≠ ' ')

def back (command : List Char) : List Char := command.dropWhile (· ≠ ' ')

def inserted (flag command : List Char) : List Char :=
  front command ++ ' ' :: flag ++ ' ' :: back command

def addFlag (flag command : List Char) : List Char :=
  if flag <:+: command then command else inserted flag command

section Flag

variable {flag word command first result : List Char} {width : Nat}

theorem ne_space (h : ' ' ∉ first) : ∀ c ∈ first, decide (c ≠ ' ') = true := by
  intro c hc
  exact decide_eq_true (ne_of_mem_of_not_mem hc h)

theorem front_append (h : ' ' ∉ first) (rest : List Char) :
    front (first ++ ' ' :: rest) = first := by
  rw [front, List.takeWhile_append_of_pos (ne_space h)]
  simp

theorem back_append (h : ' ' ∉ first) (rest : List Char) :
    back (first ++ ' ' :: rest) = ' ' :: rest := by
  rw [back, List.dropWhile_append_of_pos (ne_space h)]
  simp

theorem front_of_notMem (h : ' ' ∉ command) : front command = command ∧ back command = [] :=
  ⟨List.takeWhile_eq_self_iff.mpr (ne_space h), List.dropWhile_eq_nil_iff.mpr (ne_space h)⟩

theorem inserted_append (h : ' ' ∉ first) (flag rest : List Char) :
    inserted flag (first ++ ' ' :: rest) = first ++ ' ' :: (flag ++ ' ' :: (' ' :: rest)) := by
  rw [inserted, front_append h, back_append h, List.append_assoc, List.cons_append]

theorem space_mem_addFlag (h : ' ' ∈ command) (flag : List Char) : ' ' ∈ addFlag flag command := by
  rw [addFlag]
  split
  · exact h
  · simp [inserted]

theorem front_addFlag (h : ' ' ∈ command) (flag : List Char) :
    front (addFlag flag command) = front command := by
  rw [addFlag]
  split
  · rfl
  · obtain ⟨first, rest, rfl, hfirst⟩ := List.eq_append_cons_of_mem h
    rw [inserted_append hfirst, front_append hfirst, front_append hfirst]

/-! ## Indexes -/

theorem insertFlag_of_mem (h : ' ' ∈ command) (hindex : (front command).length < 2 ^ width) :
    insertFlag width flag command = .ok (addFlag flag command) := by
  rw [insertFlag, addFlag]
  split
  · rfl
  · obtain ⟨first, rest, rfl, hfirst⟩ := List.eq_append_cons_of_mem h
    rw [front_append hfirst] at hindex
    have hfind : findSpace (first ++ ' ' :: rest) % 2 ^ width = first.length := by
      rw [findSpace, if_pos h, List.idxOf_append_of_notMem hfirst, List.idxOf_cons_self,
        Nat.add_zero, Nat.mod_eq_of_lt hindex]
    have hrest : substrFrom (first ++ ' ' :: rest) first.length = .ok (' ' :: rest) := by
      simp [substrFrom]
    dsimp only
    rw [hfind, hrest, List.take_left, inserted_append hfirst]
    simp [bind, Except.bind]

/-- Without a space the text from `npos` on is asked for. -/
theorem insertFlag_of_notMem (hwidth : width ≤ 64) (hlength : command.length < 2 ^ width - 1)
    (h : ' ' ∉ command) :
    insertFlag width flag command =
      if flag <:+: command then .ok command else .error .outOfRange := by
  rw [insertFlag]
  split
  · rfl
  · have hindex : findSpace command % 2 ^ width = 2 ^ width - 1 := by
      rw [findSpace, if_neg h, npos]
      refine Nat.eq_of_testBit_eq fun i => ?_
      rw [Nat.testBit_mod_two_pow, Nat.testBit_two_pow_sub_one, Nat.testBit_two_pow_sub_one,
        ← Bool.decide_and]
      exact decide_eq_decide.mpr (by omega)
    have hrest : substrFrom command (2 ^ width - 1) = .error .outOfRange :=
      if_neg (Nat.not_le.mpr hlength)
    dsimp only
    rw [hindex, hrest]
    rfl

/-! ## Words and flags of a command -/

theorem isInfix_inserted (h : ' ' ∈ command) (hword : ' ' ∉ word) :
    word <:+: inserted flag command ↔ word <:+: command ∨ word <:+: flag := by
  obtain ⟨first, rest, rfl, hfirst⟩ := List.eq_append_cons_of_mem h
  have hnil : word <:+: [] → word <:+: first := by
    intro hnil
    rw [List.infix_nil.mp hnil]
    exact List.nil_infix
  have hrest := isInfix_append_separator hword [] rest
  rw [List.nil_append] at hrest
  rw [inserted_append hfirst, isInfix_append_separator hword, isInfix_append_separator hword,
    isInfix_append_separator hword, hrest]
  tauto

theorem isInfix_addFlag_self (flag command : List Char) : flag <:+: addFlag flag command := by
  rw [addFlag]
  split
  · assumption
  · exact ⟨front command ++ [' '], ' ' :: back command, by simp [inserted]⟩

private theorem isInfix_addFlag (h : ' ' ∈ command) (hword : ' ' ∉ word)
    (hfound : word <:+: command) (flag : List Char) : word <:+: addFlag flag command := by
  rw [addFlag]
  split
  · exact hfound
  · exact (isInfix_inserted h hword).mpr (.inl hfound)

/-- The flags as words, unless they are in the command. -/
def missing (flag command : List Char) : List (List Char) :=
  if flag <:+: command then [] else [flag]

theorem words_command (command : List Char) :
    words ' ' command = words ' ' (front command) ++ words ' ' (back command) := by
  by_cases h : ' ' ∈ command
  · obtain ⟨first, rest, rfl, hfirst⟩ := List.eq_append_cons_of_mem h
    rw [front_append hfirst, back_append hfirst, words_append, words_cons]
  · rw [(front_of_notMem h).1, (front_of_notMem h).2, words_nil, List.append_nil]

theorem words_back_addFlag (h : ' ' ∈ command) (hflag : ' ' ∉ flag) (hne : flag ≠ []) :
    words ' ' (back (addFlag flag command)) = missing flag command ++ words ' ' (back command) := by
  rw [addFlag, missing]
  split
  · rfl
  · obtain ⟨first, rest, rfl, hfirst⟩ := List.eq_append_cons_of_mem h
    rw [inserted_append hfirst, back_append hfirst, back_append hfirst, words_cons, words_append,
      words_of_notMem hflag hne]

end Flag

/-! ## Commands -/

section Commands

variable {clangInclude command result : List Char}

/-- What a command becomes; the words that were there are kept in their order. -/
structure Adjusted (clangInclude command result : List Char) : Prop where
  include_mem : includeFlag clangInclude <:+: result
  define_mem : defineFlag <:+: result
  words_eq : words ' ' result = words ' ' (front command) ++
    (missing defineFlag command ++ missing (includeFlag clangInclude) command) ++
      words ' ' (back command)

/-- What the source assumes: there is a space to insert the flags at. -/
def Adjustable (clangInclude command : List Char) : Prop :=
  ' ' ∈ command ∨ includeFlag clangInclude <:+: command ∧ defineFlag <:+: command

variable (hinclude : ' ' ∉ clangInclude)
  (hdefine : ¬ defineFlag <:+: includeFlag clangInclude)
  (hlength : command.length < 2 ^ 32 - 1)

private theorem front_length_le (command : List Char) : (front command).length ≤ command.length :=
  (List.takeWhile_prefix _).length_le

include hlength in
theorem adjustCommand_of_mem (h : ' ' ∈ command) :
    adjustCommand clangInclude command =
      .ok (addFlag defineFlag (addFlag (includeFlag clangInclude) command)) := by
  have hle := front_length_le command
  have hspace := space_mem_addFlag h (includeFlag clangInclude)
  rw [adjustCommand, insertFlag_of_mem h (by omega)]
  refine insertFlag_of_mem hspace ?_
  rw [front_addFlag h]
  omega

include hlength in
theorem adjustCommand_of_notMem (h : ' ' ∉ command) :
    adjustCommand clangInclude command =
      if includeFlag clangInclude <:+: command ∧ defineFlag <:+: command then .ok command
      else .error .outOfRange := by
  rw [adjustCommand, insertFlag_of_notMem (by omega) hlength h]
  by_cases hfound : includeFlag clangInclude <:+: command
  · rw [if_pos hfound]
    refine (insertFlag_of_notMem (Nat.le_refl 64) (by omega) h).trans ?_
    simp [hfound]
  · rw [if_neg hfound, if_neg fun hboth => hfound hboth.1]
    rfl

include hlength in
theorem adjustCommand_isOk_iff :
    (∃ result, adjustCommand clangInclude command = .ok result) ↔
      Adjustable clangInclude command := by
  by_cases h : ' ' ∈ command
  · exact iff_of_true ⟨_, adjustCommand_of_mem hlength h⟩ (.inl h)
  · rw [adjustCommand_of_notMem hlength h, Adjustable]
    split
    · exact iff_of_true ⟨_, rfl⟩ (.inr ‹_›)
    · refine iff_of_false ?_ (not_or.mpr ⟨h, ‹_›⟩)
      rintro ⟨result, hresult⟩
      cases hresult

include hinclude hdefine hlength in
private theorem adjustCommand_adjusted (h : adjustCommand clangInclude command = .ok result) :
    Adjusted clangInclude command result := by
  by_cases hspace : ' ' ∈ command
  · rw [adjustCommand_of_mem hlength hspace] at h
    obtain rfl := Except.ok.inj h
    have hflag : ' ' ∉ includeFlag clangInclude := by simp [includeFlag, hinclude]
    have hspaces := space_mem_addFlag hspace (includeFlag clangInclude)
    refine ⟨isInfix_addFlag hspaces hflag (isInfix_addFlag_self _ _) _,
      isInfix_addFlag_self _ _, ?_⟩
    have hmissing : missing defineFlag (addFlag (includeFlag clangInclude) command) =
        missing defineFlag command := by
      rw [missing, missing, addFlag]
      split
      · rfl
      · simp only [isInfix_inserted hspace (by decide : ' ' ∉ defineFlag), hdefine, or_false]
    rw [words_command, front_addFlag hspaces, front_addFlag hspace,
      words_back_addFlag hspaces (by decide) (by decide),
      words_back_addFlag hspace hflag (by simp [includeFlag]), hmissing, List.append_assoc,
      List.append_assoc]
  · rw [adjustCommand_of_notMem hlength hspace] at h
    split at h
    · obtain rfl := Except.ok.inj h
      have hfound : includeFlag clangInclude <:+: command ∧ defineFlag <:+: command := ‹_›
      refine ⟨hfound.1, hfound.2, ?_⟩
      rw [words_command, missing, missing, if_pos hfound.1, if_pos hfound.2, List.append_nil,
        List.append_nil]
    · cases h

private theorem adjustCommand_of_found (h : includeFlag clangInclude <:+: command)
    (h' : defineFlag <:+: command) : adjustCommand clangInclude command = .ok command := by
  rw [adjustCommand, insertFlag, if_pos h]
  exact if_pos h'

end Commands

/-! ## The database -/

theorem adjustCompileDB_files {clangInclude : List Char} {db adjusted : List CompileCommand}
    (h : adjustCompileDB clangInclude db = .ok adjusted) :
    adjusted.map (·.file) = db.map (·.file) := by
  refine map_eq_of_forall₂ (mapM_eq_ok_iff.mp h) fun entry _ entry' h => ?_
  obtain ⟨result, -, h⟩ := bind_eq_ok_iff.mp h
  obtain rfl := Except.ok.inj h
  rfl

/-- Which files the database has does not depend on whether it has been adjusted. -/
theorem files_adjusted {clangInclude : List Char} {db adjusted : List CompileCommand}
    (h : adjustCompileDB clangInclude db = .ok adjusted) (equivalent : String → String → Bool)
    (files : List String) (relative : String → String) :
    projectFilesInCompileDB equivalent files adjusted =
        projectFilesInCompileDB equivalent files db ∧
      filesFromCompilationDB relative adjusted = filesFromCompilationDB relative db := by
  have hfiles := adjustCompileDB_files h
  have hsources (db : List CompileCommand) : filesFromCompilationDB relative db =
      ((db.map (·.file)).filter isSourceFile).map relative := by
    rw [filesFromCompilationDB, List.filter_map, List.map_map]
    rfl
  have hany (file : String) (db : List CompileCommand) :
      db.any (fun entry => equivalent entry.file file) =
        (db.map (·.file)).any (equivalent · file) := by
    rw [List.any_map]
    rfl
  constructor
  · simp only [projectFilesInCompileDB, hany, hfiles]
  · rw [hsources, hsources, hfiles]

/--
A database is adjusted when every command has a space or the flags.  Then every
command has the flags, and its words otherwise as before; another run of f1x
leaves the database as it is.
-/
theorem adjustCompileDB_spec {clangInclude : List Char} (hinclude : ' ' ∉ clangInclude)
    (hdefine : ¬ defineFlag <:+: includeFlag clangInclude) {db : List CompileCommand}
    (hlength : ∀ entry ∈ db, entry.command.length < 2 ^ 32 - 1) :
    ((∃ adjusted, adjustCompileDB clangInclude db = .ok adjusted) ↔
      ∀ entry ∈ db, Adjustable clangInclude entry.command) ∧
    ∀ adjusted, adjustCompileDB clangInclude db = .ok adjusted →
      List.Forall₂ (fun entry entry' => entry'.file = entry.file ∧
        Adjusted clangInclude entry.command entry'.command) db adjusted ∧
      adjustCompileDB clangInclude adjusted = .ok adjusted := by
  constructor
  · constructor
    · rintro ⟨adjusted, h⟩ entry hentry
      obtain ⟨entry', h⟩ := exists_of_mapM h hentry
      obtain ⟨result, hresult, -⟩ := bind_eq_ok_iff.mp h
      exact (adjustCommand_isOk_iff (hlength entry hentry)).mp ⟨result, hresult⟩
    · intro h
      refine mapM_total fun entry hentry => ?_
      obtain ⟨result, hresult⟩ :=
        (adjustCommand_isOk_iff (hlength entry hentry)).mpr (h entry hentry)
      exact ⟨_, bind_eq_ok_iff.mpr ⟨result, hresult, rfl⟩⟩
  · intro adjusted h
    have hentry : ∀ entry ∈ db, ∀ entry', adjustEntry clangInclude entry = .ok entry' →
        entry'.file = entry.file ∧ Adjusted clangInclude entry.command entry'.command := by
      intro entry hentry entry' h
      obtain ⟨result, hresult, h⟩ := bind_eq_ok_iff.mp h
      obtain rfl := Except.ok.inj h
      exact ⟨rfl, adjustCommand_adjusted hinclude hdefine (hlength entry hentry) hresult⟩
    constructor
    · have hpairs := (List.forall₂_and_left _ _).mpr ⟨fun _ hmem => hmem, mapM_eq_ok_iff.mp h⟩
      exact hpairs.imp fun entry entry' hpair => hentry entry hpair.1 entry' hpair.2
    · refine mapM_eq_ok_iff.mpr (List.forall₂_same.mpr fun entry' hmem => ?_)
      obtain ⟨entry, hsource, h⟩ := exists_of_mem_mapM h hmem
      obtain ⟨-, hadjusted⟩ := hentry entry hsource entry' h
      rw [adjustEntry, adjustCommand_of_found hadjusted.include_mem hadjusted.define_mem]
      rfl

def oneCommand : List CompileCommand := [⟨"main.c", "gcc -c main.c".toList⟩]

theorem adjustCompileDB_oneCommand :
    (∃ adjusted, adjustCompileDB "/clang/include/".toList oneCommand = .ok adjusted) ∧
    ∀ adjusted, adjustCompileDB "/clang/include/".toList oneCommand = .ok adjusted →
      List.Forall₂ (fun entry entry' => entry'.file = entry.file ∧
        Adjusted "/clang/include/".toList entry.command entry'.command) oneCommand adjusted ∧
      adjustCompileDB "/clang/include/".toList adjusted = .ok adjusted := by
  obtain ⟨hiff, hall⟩ := @adjustCompileDB_spec "/clang/include/".toList (by decide) (by decide)
    oneCommand (by decide)
  exact ⟨hiff.mpr (by simp [oneCommand, Adjustable]), hall⟩

end CompilationDatabase

end F1X
