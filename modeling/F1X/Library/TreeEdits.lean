import Mathlib.Data.List.Pairwise
import F1X.Library.LabelledTrees

/-!
# Edits of labelled trees

Meanings are given by folds.  An edit puts a tree at a position; edits that do not
overlap can be made in any order, and the meaning of the result is the fold in
which the edited positions have the meanings of what was put there.
-/

namespace F1X.Library.LabelledTree

variable {α β : Type*}

/-! ## Folds with given values -/

section Folds

variable (f : α → List β → β)

mutual

/-- The fold of a tree in which some positions have given values. -/
def foldWith (given : Position → Option β) : LabelledTree α → β
  | node label children => (given []).getD (f label (foldWithFrom given 0 children))

def foldWithFrom (given : Position → Option β) : Nat → List (LabelledTree α) → List β
  | _, [] => []
  | index, child :: children =>
      foldWith (fun position => given (index :: position)) child ::
        foldWithFrom given (index + 1) children

end

def fold (tree : LabelledTree α) : β := foldWith f (fun _ => none) tree

theorem foldWith_of_some {given : Position → Option β} {value : β} (h : given [] = some value)
    (tree : LabelledTree α) : foldWith f given tree = value := by
  cases tree with
  | node label children => rw [foldWith, h, Option.getD_some]

theorem foldWith_of_none {given : Position → Option β} (h : given [] = none)
    (label : α) (children : List (LabelledTree α)) :
    foldWith f given (node label children) = f label (foldWithFrom f given 0 children) := by
  rw [foldWith, h, Option.getD_none]

/-- Two folds of the children agree when they agree on each child. -/
theorem foldWithFrom_congr {γ : Type*} {g : α → List γ → γ} {h : γ → β}
    {given : Position → Option β} {other : Position → Option γ} {index : Nat}
    {children : List (LabelledTree α)}
    (hchildren : ∀ i child, children[i]? = some child →
      foldWith f (fun position => given ((index + i) :: position)) child =
        h (foldWith g (fun position => other ((index + i) :: position)) child)) :
    foldWithFrom f given index children = (foldWithFrom g other index children).map h := by
  induction children generalizing index with
  | nil => rfl
  | cons child children ih =>
      rw [foldWithFrom, foldWithFrom, List.map_cons]
      congr 1
      · exact hchildren 0 child rfl
      · apply ih
        intro i other hother
        have hnext := hchildren (i + 1) other hother
        rwa [Nat.add_comm i, ← Nat.add_assoc] at hnext

end Folds

private theorem foldWithFrom_none (f : α → List β → β) (index : Nat)
    (children : List (LabelledTree α)) :
    foldWithFrom f (fun _ => none) index children = children.map (fold f) := by
  induction children generalizing index with
  | nil => rfl
  | cons child children ih =>
      rw [foldWithFrom, ih, List.map_cons]
      rfl

theorem fold_node (f : α → List β → β) (label : α) (children : List (LabelledTree α)) :
    fold f (node label children) = f label (children.map (fold f)) := by
  rw [fold, foldWith_of_none f rfl, foldWithFrom_none]

/-! ## Putting trees at positions -/

/-- The tree with other trees at some positions; what is put above hides what is put below. -/
def overlay (put : Position → Option (LabelledTree α)) (tree : LabelledTree α) : LabelledTree α :=
  foldWith node put tree

private theorem fold_id (tree : LabelledTree α) : fold node tree = tree := by
  induction tree using LabelledTree.induct with
  | node label children ih =>
      rw [fold_node]
      congr 1
      exact (List.map_congr_left ih).trans (List.map_id'' (fun _ => rfl) children)

@[simp] theorem overlay_none (tree : LabelledTree α) : overlay (fun _ => none) tree = tree :=
  fold_id tree

theorem overlay_of_some {put : Position → Option (LabelledTree α)} {new : LabelledTree α}
    (h : put [] = some new) (tree : LabelledTree α) : overlay put tree = new :=
  foldWith_of_some node h tree

private theorem fold_overlay (f : α → List β → β) (put : Position → Option (LabelledTree α))
    (tree : LabelledTree α) :
    fold f (overlay put tree) = foldWith f (fun position => (put position).map (fold f)) tree := by
  induction tree using LabelledTree.induct generalizing put with
  | node label children ih =>
      cases hroot : put [] with
      | some new =>
          rw [overlay_of_some hroot, foldWith_of_some f (by rw [hroot, Option.map_some])]
      | none =>
          rw [overlay, foldWith_of_none node hroot, fold_node,
            foldWith_of_none f (by rw [hroot, Option.map_none])]
          congr 1
          refine (foldWithFrom_congr f fun i child hchild => ?_).symm
          exact (ih child (List.mem_of_getElem? hchild) _).symm

/-! ## One edit after the other -/

def replace (tree : LabelledTree α) (position : Position) (new : LabelledTree α) :
    LabelledTree α :=
  overlay (fun other => if other = position then some new else none) tree

private theorem foldWithFrom_overlay {f : α → List β → β} {put : Position → Option (LabelledTree α)}
    {given other : Position → Option β} {index : Nat} {children : List (LabelledTree α)}
    (hchildren : ∀ i child, children[i]? = some child →
      foldWith f (fun position => given ((index + i) :: position))
          (overlay (fun position => put ((index + i) :: position)) child) =
        foldWith f (fun position => other ((index + i) :: position)) child) :
    foldWithFrom f given index (foldWithFrom node put index children) =
      foldWithFrom f other index children := by
  induction children generalizing index with
  | nil => rfl
  | cons child children ih =>
      rw [foldWithFrom, foldWithFrom, foldWithFrom]
      congr 1
      · exact hchildren 0 child rfl
      · apply ih
        intro i next hnext
        have hshift := hchildren (i + 1) next hnext
        rwa [Nat.add_comm i, ← Nat.add_assoc] at hshift

private theorem replace_overlay {put : Position → Option (LabelledTree α)} {position : Position}
    (hput : ∀ front, (put front).isSome = true → ¬ front <+: position)
    (tree new : LabelledTree α) :
    (overlay put tree).replace position new =
      overlay (fun other => if other = position then some new else put other) tree := by
  induction tree using LabelledTree.induct generalizing put position with
  | node label children ih =>
      have hroot : put [] = none := by
        rw [← Option.not_isSome_iff_eq_none]
        exact fun hsome => hput [] hsome (List.nil_prefix)
      cases position with
      | nil => rw [replace, overlay_of_some (if_pos rfl), overlay_of_some (if_pos rfl)]
      | cons index position =>
          rw [replace, overlay, overlay, overlay, foldWith_of_none node hroot,
            foldWith_of_none node (if_neg (List.cons_ne_nil _ _).symm),
            foldWith_of_none node (by rw [if_neg (List.cons_ne_nil _ _).symm, hroot])]
          congr 1
          refine foldWithFrom_overlay fun i child hchild => ?_
          by_cases hindex : 0 + i = index
          · subst hindex
            have hbelow := @ih child (List.mem_of_getElem? hchild)
              (fun other => put ((0 + i) :: other)) position
              fun front hsome hfront => hput _ hsome (List.cons_prefix_cons.mpr ⟨rfl, hfront⟩)
            simp only [List.cons.injEq, true_and]
            exact hbelow
          · have hother : ∀ other, (0 + i) :: other ≠ index :: position :=
              fun other heq => hindex (List.cons.inj heq).1
            simp only [hother, if_false]
            exact overlay_none _

/-! ## Edits that do not overlap -/

abbrev Edit (α : Type*) := Position × LabelledTree α

def replaceAll (edits : List (Edit α)) (tree : LabelledTree α) : LabelledTree α :=
  edits.foldl (fun result edit => result.replace edit.1 edit.2) tree

def putAt (edits : List (Edit α)) (position : Position) : Option (LabelledTree α) :=
  (edits.find? fun edit => edit.1 = position).map Prod.snd

/-- Neither position is at or below the other. -/
def Separate (first second : Position) : Prop := ¬ first <+: second ∧ ¬ second <+: first

theorem Separate.ne {first second : Position} (h : Separate first second) : first ≠ second :=
  fun heq => h.1 (by rw [heq])

def Apart (edits : List (Edit α)) : Prop :=
  edits.Pairwise fun first second => Separate first.1 second.1

private theorem isSome_putAt {edits : List (Edit α)} {position : Position} :
    (putAt edits position).isSome = true ↔ ∃ edit ∈ edits, edit.1 = position := by
  simp [putAt]

theorem putAt_eq_none {edits : List (Edit α)} {position : Position}
    (h : ∀ edit ∈ edits, edit.1 ≠ position) : putAt edits position = none := by
  rw [putAt, Option.map_eq_none_iff, List.find?_eq_none]
  simpa using h

private theorem putAt_concat {edits : List (Edit α)} {edit : Edit α}
    (h : ∀ other ∈ edits, other.1 ≠ edit.1) (position : Position) :
    putAt (edits ++ [edit]) position =
      if position = edit.1 then some edit.2 else putAt edits position := by
  by_cases hposition : position = edit.1
  · subst hposition
    have hnone : edits.find? (fun other => decide (other.1 = edit.1)) = none := by
      rw [List.find?_eq_none]
      simpa using h
    simp [putAt, List.find?_append, hnone]
  · have hne : ¬ edit.1 = position := fun heq => hposition heq.symm
    simp [putAt, List.find?_append, hposition, hne]

private theorem Apart.eq_of_position {edits : List (Edit α)} (h : Apart edits)
    {first second : Edit α}
    (hfirst : first ∈ edits) (hsecond : second ∈ edits) (heq : first.1 = second.1) :
    first = second := by
  have hsymm : Std.Symm fun first second : Edit α => Separate first.1 second.1 :=
    ⟨fun _ _ h => ⟨h.2, h.1⟩⟩
  by_contra hne
  exact (List.Pairwise.forall h hfirst hsecond hne).ne heq

theorem putAt_eq_some_iff {edits : List (Edit α)} (h : Apart edits) {position : Position}
    {new : LabelledTree α} : putAt edits position = some new ↔ (position, new) ∈ edits := by
  rw [putAt, Option.map_eq_some_iff]
  constructor
  · rintro ⟨edit, hfind, rfl⟩
    have hposition := List.find?_some hfind
    obtain rfl := of_decide_eq_true hposition
    exact List.mem_of_find?_eq_some hfind
  · intro hmem
    cases hfind : edits.find? fun edit => decide (edit.1 = position) with
    | none =>
        rw [List.find?_eq_none] at hfind
        simpa using hfind _ hmem
    | some edit =>
        have hposition := List.find?_some hfind
        have heq : edit = (position, new) :=
          h.eq_of_position (List.mem_of_find?_eq_some hfind) hmem (of_decide_eq_true hposition)
        exact ⟨edit, rfl, by rw [heq]⟩

theorem putAt_toList (new : Option (LabelledTree α)) (position other : Position) :
    putAt (new.map (Prod.mk position)).toList other = if other = position then new else none := by
  cases new with
  | none => simp [putAt]
  | some new =>
      by_cases h : position = other
      · simp [putAt, h]
      · simp [putAt, h, Ne.symm h]

theorem putAt_map (new : Position → LabelledTree α) (positions : List Position)
    (position : Position) :
    putAt (positions.map fun p => (p, new p)) position =
      if position ∈ positions then some (new position) else none := by
  induction positions with
  | nil => rfl
  | cons first positions ih =>
      rw [List.map_cons, putAt, List.find?_cons]
      by_cases h : first = position
      · simp [h]
      · simp only [h, decide_false, List.mem_cons, Ne.symm h, false_or]
        exact ih

/-- Edits that are apart are determined by their members. -/
theorem putAt_congr {edits others : List (Edit α)} (h : Apart edits) (hothers : Apart others)
    (hmem : ∀ edit, edit ∈ edits ↔ edit ∈ others) : putAt edits = putAt others := by
  funext position
  refine Option.ext fun new => ?_
  rw [putAt_eq_some_iff h, putAt_eq_some_iff hothers, hmem]

private theorem replaceAll_concat (edits : List (Edit α)) (edit : Edit α) (tree : LabelledTree α) :
    replaceAll (edits ++ [edit]) tree = (replaceAll edits tree).replace edit.1 edit.2 := by
  rw [replaceAll, List.foldl_append]
  rfl

private theorem replaceAll_eq_overlay {edits : List (Edit α)} (h : Apart edits)
    (tree : LabelledTree α) :
    replaceAll edits tree = overlay (putAt edits) tree := by
  induction edits using List.reverseRecOn with
  | nil => exact (overlay_none tree).symm
  | append_singleton edits edit ih =>
      obtain ⟨hedits, -, hapart⟩ := List.pairwise_append.mp h
      have hne : ∀ other ∈ edits, other.1 ≠ edit.1 :=
        fun other hother => (hapart other hother edit (List.mem_singleton_self edit)).ne
      have hfront : ∀ front, (putAt edits front).isSome = true → ¬ front <+: edit.1 := by
        intro front hsome
        obtain ⟨other, hother, rfl⟩ := isSome_putAt.mp hsome
        exact (hapart other hother edit (List.mem_singleton_self edit)).1
      rw [replaceAll_concat, ih hedits, replace_overlay hfront]
      congr 1
      funext position
      exact (putAt_concat hne position).symm

theorem fold_replaceAll (f : α → List β → β) {edits : List (Edit α)} (h : Apart edits)
    (tree : LabelledTree α) :
    fold f (replaceAll edits tree) =
      foldWith f (fun position => (putAt edits position).map (fold f)) tree := by
  rw [replaceAll_eq_overlay h, fold_overlay]

/-! ## Given values that change nothing -/

/-- A given value may be left out where it is the value of the part. -/
theorem foldWith_congr (f : α → List β → β) {given other : Position → Option β}
    {tree : LabelledTree α}
    (h : ∀ position found, tree.subtree position = some found → given position = other position ∨
      given position = some (fold f found) ∧ ∀ back, other (position ++ back) = none) :
    foldWith f given tree = foldWith f other tree := by
  induction tree using LabelledTree.induct generalizing given other with
  | node label children ih =>
      rcases h [] _ rfl with hsame | ⟨hvalue, hnone⟩
      · cases hroot : other [] with
        | some value =>
            rw [foldWith_of_some f hroot, foldWith_of_some f (hsame.trans hroot)]
        | none =>
            rw [foldWith_of_none f hroot, foldWith_of_none f (hsame.trans hroot)]
            congr 1
            have hchildren : foldWithFrom f given 0 children =
                (foldWithFrom f other 0 children).map id :=
              foldWithFrom_congr f fun i child hchild =>
                ih child (List.mem_of_getElem? hchild) fun position found hfound => by
                  rw [Nat.zero_add]
                  exact h (i :: position) found (subtree_cons_eq_some.mpr ⟨child, hchild, hfound⟩)
            rwa [List.map_id] at hchildren
      · have hother : other = fun _ => none := funext hnone
        rw [foldWith_of_some f hvalue, hother, fold]

/-- A map between the values that respects the fold. -/
theorem foldWith_hom {γ : Type*} {f : α → List β → β} {g : α → List γ → γ} {h : β → γ}
    (hhom : ∀ label values, h (f label values) = g label (values.map h))
    (given : Position → Option β) (tree : LabelledTree α) :
    h (foldWith f given tree) = foldWith g (fun position => (given position).map h) tree := by
  induction tree using LabelledTree.induct generalizing given with
  | node label children ih =>
      cases hroot : given [] with
      | some value =>
          rw [foldWith_of_some f hroot, foldWith_of_some g (by rw [hroot, Option.map_some])]
      | none =>
          rw [foldWith_of_none f hroot, foldWith_of_none g (by rw [hroot, Option.map_none]), hhom]
          congr 1
          refine (foldWithFrom_congr g fun i child hchild => ?_).symm
          exact (ih child (List.mem_of_getElem? hchild) _).symm

def map {γ : Type*} (translate : α → γ) (tree : LabelledTree α) : LabelledTree γ :=
  fold (fun label children => node (translate label) children) tree

private theorem foldWithFrom_map {γ : Type*} {f : α → List β → β} {g : γ → List β → β}
    {translate : LabelledTree γ → LabelledTree α} {children : List (LabelledTree γ)}
    (h : ∀ child ∈ children, ∀ given, foldWith f given (translate child) = foldWith g given child)
    (given : Position → Option β) (index : Nat) :
    foldWithFrom f given index (children.map translate) = foldWithFrom g given index children := by
  induction children generalizing index with
  | nil => rfl
  | cons child children ih =>
      rw [List.map_cons, foldWithFrom, foldWithFrom, h child List.mem_cons_self,
        ih fun other hother => h other (List.mem_cons_of_mem child hother)]

theorem foldWith_map {γ : Type*} (f : γ → List β → β) (translate : α → γ)
    (given : Position → Option β) (tree : LabelledTree α) :
    foldWith f given (tree.map translate) =
      foldWith (fun label children => f (translate label) children) given tree := by
  induction tree using LabelledTree.induct generalizing given with
  | node label children ih =>
      rw [map, fold_node]
      cases hroot : given [] with
      | some value => rw [foldWith_of_some f hroot, foldWith_of_some _ hroot]
      | none =>
          rw [foldWith_of_none f hroot, foldWith_of_none _ hroot]
          congr 1
          exact foldWithFrom_map (fun child hchild other => ih child hchild other) given 0

theorem fold_map {γ : Type*} (f : γ → List β → β) (translate : α → γ) (tree : LabelledTree α) :
    fold f (tree.map translate) = fold (fun label children => f (translate label) children) tree :=
  foldWith_map f translate _ tree

end F1X.Library.LabelledTree
