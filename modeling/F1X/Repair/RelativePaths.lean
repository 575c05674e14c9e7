import F1X.Library.LexicalPaths

/-!
# Relative paths

`relativeTo` of `repair/Util.cpp`.  A path is the list of the components that its
iterators visit, with the root as the first one of an absolute path.
-/

namespace F1X

open Library

abbrev Path := List String

namespace RelativePaths

def rootDirectory : String := "/"

def currentDirectory : String := "."

def parentDirectory : String := ".."

/-- `from / path`, and `path /= component` for a single component. -/
def append (path other : Path) : Path := path ++ other

/-- The first loop, with both iterators. -/
def skipCommon : Path → Path → Path × Path
  | fromComponent :: fromIter, toComponent :: toIter =>
      if toComponent = fromComponent then skipCommon fromIter toIter
      else (fromComponent :: fromIter, toComponent :: toIter)
  | fromIter, toIter => (fromIter, toIter)

/-- The second loop. -/
def ascend (finalPath : Path) : Path → Path
  | [] => finalPath
  | _ :: fromIter => ascend (append finalPath [parentDirectory]) fromIter

/-- The third loop. -/
def descend (finalPath : Path) : Path → Path
  | [] => finalPath
  | toComponent :: toIter => descend (append finalPath [toComponent]) toIter

def relativeTo (fromPath toPath : Path) : Path :=
  let (fromIter, toIter) := skipCommon fromPath toPath
  descend (ascend [] fromIter) toIter

/-! ## The three loops -/

theorem skipCommon_spec (fromPath toPath : Path) :
    ∃ common, LongestCommonPrefix common fromPath toPath ∧
      fromPath = common ++ (skipCommon fromPath toPath).1 ∧
      toPath = common ++ (skipCommon fromPath toPath).2 := by
  induction fromPath generalizing toPath with
  | nil =>
      refine ⟨[], longestCommonPrefix_nil ?_, rfl, rfl⟩
      exact nofun
  | cons fromComponent fromIter ih =>
      cases toPath with
      | nil =>
          refine ⟨[], longestCommonPrefix_nil ?_, rfl, rfl⟩
          exact fun _ _ => nofun
      | cons toComponent toIter =>
          unfold skipCommon
          by_cases hsame : toComponent = fromComponent
          · rw [if_pos hsame, hsame]
            obtain ⟨common, hlongest, hfrom, hto⟩ := ih toIter
            refine ⟨fromComponent :: common, hlongest.cons fromComponent, ?_, ?_⟩
            · rw [List.cons_append, ← hfrom]
            · rw [List.cons_append, ← hto]
          · rw [if_neg hsame]
            refine ⟨[], longestCommonPrefix_nil ?_, rfl, rfl⟩
            rintro _ ⟨⟩ _ ⟨⟩
            exact Ne.symm hsame

private theorem ascend_eq (finalPath fromIter : Path) :
    ascend finalPath fromIter =
      finalPath ++ List.replicate fromIter.length parentDirectory := by
  induction fromIter generalizing finalPath with
  | nil => exact (List.append_nil finalPath).symm
  | cons fromComponent fromIter ih =>
      rw [ascend, ih, append, List.append_assoc, List.length_cons, List.replicate_succ,
        List.singleton_append]

private theorem descend_eq (finalPath toIter : Path) :
    descend finalPath toIter = finalPath ++ toIter := by
  induction toIter generalizing finalPath with
  | nil => exact (List.append_nil finalPath).symm
  | cons toComponent toIter ih =>
      rw [descend, ih, append, List.append_assoc, List.singleton_append]

private theorem relativeTo_eq (fromPath toPath : Path) :
    ∃ common fromRest toRest, LongestCommonPrefix common fromPath toPath ∧
      fromPath = common ++ fromRest ∧ toPath = common ++ toRest ∧
      relativeTo fromPath toPath =
        List.replicate fromRest.length parentDirectory ++ toRest := by
  obtain ⟨common, hlongest, hfrom, hto⟩ := skipCommon_spec fromPath toPath
  refine ⟨common, _, _, hlongest, hfrom, hto, ?_⟩
  change descend (ascend [] (skipCommon fromPath toPath).1) (skipCommon fromPath toPath).2 = _
  rw [descend_eq, ascend_eq, List.nil_append]

/-! ## The target -/

def IsAbsolute (path : Path) : Prop := path.head? = some rootDirectory

/-- Without components for the current and the parent directory. -/
def IsPlain (path : Path) : Prop :=
  ∀ component ∈ path, component ≠ currentDirectory ∧ component ≠ parentDirectory

private theorem longestCommonPrefix_root {common fromPath toPath : Path}
    (h : LongestCommonPrefix common fromPath toPath) (hfrom : IsAbsolute fromPath)
    (hto : IsAbsolute toPath) : ∃ names, common = rootDirectory :: names := by
  obtain ⟨fromNames, rfl⟩ := List.head?_eq_some_iff.mp hfrom
  obtain ⟨toNames, rfl⟩ := List.head?_eq_some_iff.mp hto
  have hroot : [rootDirectory] <+: common :=
    h.longest _ (List.prefix_append _ fromNames) (List.prefix_append _ toNames)
  obtain ⟨names, rfl⟩ := hroot
  exact ⟨names, rfl⟩

/-- From a path without dots the relative path leads to the target, which may have some. -/
theorem relativeTo_leads {fromPath toPath : Path} (hfrom : IsAbsolute fromPath)
    (hto : IsAbsolute toPath) (hplain : IsPlain fromPath) :
    resolve currentDirectory parentDirectory (append fromPath (relativeTo fromPath toPath)) =
        resolve currentDirectory parentDirectory toPath ∧
      ∃ common fromRest toRest, LongestCommonPrefix common fromPath toPath ∧
        fromPath = common ++ fromRest ∧ toPath = common ++ toRest ∧
        relativeTo fromPath toPath =
          List.replicate fromRest.length parentDirectory ++ toRest := by
  obtain ⟨common, fromRest, toRest, hlongest, hfromRest, htoRest, hrelative⟩ :=
    relativeTo_eq fromPath toPath
  refine ⟨?_, common, fromRest, toRest, hlongest, hfromRest, htoRest, hrelative⟩
  obtain ⟨names, rfl⟩ := longestCommonPrefix_root hlongest hfrom hto
  have hrest : ∀ name ∈ fromRest, name ≠ currentDirectory ∧ name ≠ parentDirectory := by
    intro name hname
    apply hplain
    rw [hfromRest]
    exact List.mem_append_right _ hname
  have hparent : parentDirectory ≠ currentDirectory := by decide
  rw [hrelative, hfromRest, htoRest]
  simp only [append, List.cons_append, resolve, List.append_assoc]
  rw [List.foldl_append, ← List.append_assoc fromRest, List.foldl_append (l := fromRest ++ _),
    foldl_resolveStep_return hparent hrest, ← List.foldl_append]

theorem relativeTo_leads_sibling :
    resolve currentDirectory parentDirectory
        (append ["/", "home", "build"] (relativeTo ["/", "home", "build"]
          ["/", "home", "..", "src", "."])) =
      resolve currentDirectory parentDirectory ["/", "home", "..", "src", "."] :=
  (@relativeTo_leads ["/", "home", "build"] ["/", "home", "..", "src", "."] rfl rfl
    (by unfold IsPlain; decide)).1

example :
    relativeTo ["/", "home", "build"] ["/", "home", "..", "src", "."] =
      ["..", "..", "src", "."] := by
  decide

end RelativePaths

end F1X
