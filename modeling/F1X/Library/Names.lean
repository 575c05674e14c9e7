import Mathlib.Data.List.Induction
import Mathlib.Data.List.Nodup
import Mathlib.Logic.Function.Basic
import Std.Data.String.ToNat

/-!
# Bindings and composed names

Maps built by assigning entries in order, lookup in lists of bindings with
distinct names, and names composed with a separator and a number.
-/

namespace F1X.Library

/-! ## Bindings -/

section Bindings

variable {α β : Type*} [DecidableEq α]

/-- Assign the entries in order; later entries overwrite earlier ones. -/
def assignAll (initial : α → β) (entries : List (α × β)) : α → β :=
  entries.foldl (fun map entry => Function.update map entry.1 entry.2) initial

theorem assignAll_mem {entries : List (α × β)} {key : α} (initial : α → β)
    (h : key ∈ entries.map Prod.fst) :
    (key, assignAll initial entries key) ∈ entries := by
  induction entries using List.reverseRecOn with
  | nil => simp at h
  | append_singleton entries entry ih =>
      rw [assignAll, List.foldl_append]
      change (key, Function.update (assignAll initial entries) entry.1 entry.2 key) ∈ _
      by_cases hkey : key = entry.1
      · subst hkey
        simp
      · rw [Function.update_of_ne hkey]
        refine List.mem_append_left _ (ih ?_)
        simpa [hkey] using h

theorem assignAll_of_notMem {entries : List (α × β)} {key : α} (initial : α → β)
    (h : key ∉ entries.map Prod.fst) : assignAll initial entries key = initial key := by
  induction entries generalizing initial with
  | nil => rfl
  | cons entry entries ih =>
      simp only [List.map_cons, List.mem_cons, not_or] at h
      rw [assignAll, List.foldl_cons]
      exact (ih _ h.2).trans (Function.update_of_ne h.1 _ _)

end Bindings

section Lookup

variable {α β : Type*} [BEq α] [LawfulBEq α]

theorem lookup_of_mem {bindings : List (α × β)} {key : α} {value : β}
    (hdistinct : (bindings.map Prod.fst).Nodup) (h : (key, value) ∈ bindings) :
    bindings.lookup key = some value := by
  induction bindings with
  | nil => simp at h
  | cons binding bindings ih =>
      obtain ⟨name, bound⟩ := binding
      rw [List.map_cons, List.nodup_cons] at hdistinct
      rcases List.mem_cons.mp h with heq | hmem
      · cases heq
        exact List.lookup_cons_self
      · have hne : (key == name) = false := by
          rw [beq_eq_false_iff_ne]
          rintro rfl
          exact hdistinct.1 (List.mem_map.mpr ⟨_, hmem, rfl⟩)
        rw [List.lookup_cons, hne]
        exact ih hdistinct.2 hmem

end Lookup

theorem nodup_eraseDups {α : Type*} [BEq α] [LawfulBEq α] (names : List α) :
    names.eraseDups.Nodup := by
  induction hlength : names.length using Nat.strongRecOn generalizing names with
  | _ length ih =>
      subst hlength
      cases names with
      | nil => simp
      | cons name names =>
          have hshorter := List.length_filter_le (fun other => !other == name) names
          rw [List.eraseDups_cons, List.nodup_cons]
          refine ⟨by simp [List.mem_eraseDups], ih _ ?_ _ rfl⟩
          simp only [List.length_cons]
          omega

/-- Append a name to a vector unless it is there already. -/
def pushNew {α : Type*} [DecidableEq α] (names : List α) (name : α) : List α :=
  if name ∈ names then names else names ++ [name]

theorem pushNew_eraseDups {α : Type*} [DecidableEq α] (names : List α) (name : α) :
    pushNew names.eraseDups name = (names ++ [name]).eraseDups := by
  rw [pushNew, List.eraseDups_append]
  by_cases h : name ∈ names
  · simp [List.removeAll, List.mem_eraseDups, h]
  · simp [List.removeAll, List.mem_eraseDups, List.eraseDups_cons, h]

/-! ## Composed names -/

theorem append_separator_inj {α : Type*} {separator : α} {front front' back back' : List α}
    (hback : separator ∉ back) (hback' : separator ∉ back')
    (h : front ++ separator :: back = front' ++ separator :: back') :
    front = front' ∧ back = back' := by
  rcases List.append_eq_append_iff.mp h with ⟨rest, hfront, hrest⟩ | ⟨rest, hfront, hrest⟩
  · cases rest with
    | nil =>
        cases hrest
        exact ⟨by simpa using hfront.symm, rfl⟩
    | cons head rest =>
        cases hrest
        exact absurd (by simp) hback
  · cases rest with
    | nil =>
        cases hrest
        exact ⟨by simpa using hfront, rfl⟩
    | cons head rest =>
        cases hrest
        exact absurd (by simp) hback'

theorem toList_toString (n : Nat) : (toString n).toList = Nat.toDigits 10 n := by
  simp [toString, Nat.toList_repr]

theorem isDigit_of_mem_toString {n : Nat} {c : Char} (h : c ∈ (toString n).toList) :
    c.isDigit = true := by
  rw [toList_toString] at h
  exact Nat.isDigit_of_mem_toDigits (by decide) (by decide) h

theorem notMem_toString {c : Char} (h : c.isDigit = false) (n : Nat) :
    c ∉ (toString n).toList := by
  intro hmem
  rw [isDigit_of_mem_toString hmem] at h
  cases h

theorem toString_injective {n m : Nat} (h : toString n = toString m) : n = m :=
  Nat.repr_injective h

end F1X.Library
