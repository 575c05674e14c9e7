import F1X.Library.Names

/-!
# Scopes that bind names and restore them

A scope binds names for its duration and gives those that had a value their old
value back; a name without a value is not unbound again.  Scripts are commands
inside scopes that nest to any depth.
-/

namespace F1X.Library

variable {K V C : Type*} [DecidableEq K]

abbrev Bindings (K V : Type*) := K → Option V

/-- The entries of a map, in the order of its iteration. -/
structure Settings (K V : Type*) where
  entries : List (K × V)
  nodup : (entries.map Prod.fst).Nodup

def Settings.keys (s : Settings K V) : List K := s.entries.map Prod.fst

def bindAll (entries : List (K × V)) (env : Bindings K V) : Bindings K V :=
  assignAll env (entries.map fun entry => (entry.1, some entry.2))

/-- Bind the entries one by one; the second component are the values they had. -/
def enter : List (K × V) → Bindings K V → List (K × V) → Bindings K V × List (K × V)
  | [], env, original => (env, original)
  | (key, value) :: rest, env, original =>
      enter rest (Function.update env key (some value))
        (match env key with
          | some old => original ++ [(key, old)]
          | none => original)

def leave (original : List (K × V)) (env : Bindings K V) : Bindings K V := bindAll original env

/-- What entries find bound. -/
def bound (entries : List (K × V)) (env : Bindings K V) : List (K × V) :=
  entries.filterMap fun entry => (env entry.1).map (Prod.mk entry.1)

/-! ## One scope -/

theorem bindAll_of_notMem {entries : List (K × V)} {key : K} (env : Bindings K V)
    (h : key ∉ entries.map Prod.fst) : bindAll entries env key = env key := by
  refine assignAll_of_notMem env ?_
  rwa [List.map_map]

theorem bindAll_mem {entries : List (K × V)} {key : K} (env : Bindings K V)
    (h : key ∈ entries.map Prod.fst) :
    ∃ value, bindAll entries env key = some value ∧ (key, value) ∈ entries := by
  have hkeys : key ∈ (entries.map fun entry => (entry.1, some entry.2)).map Prod.fst := by
    rwa [List.map_map]
  have hmem := assignAll_mem env hkeys
  obtain ⟨entry, hentry, heq⟩ := List.mem_map.mp hmem
  obtain ⟨hkey, hvalue⟩ := Prod.mk.inj heq
  refine ⟨entry.2, hvalue.symm, ?_⟩
  rw [← hkey]
  exact hentry

theorem enter_eq {entries : List (K × V)} (hnodup : (entries.map Prod.fst).Nodup)
    (env : Bindings K V) (original : List (K × V)) :
    enter entries env original = (bindAll entries env, original ++ bound entries env) := by
  induction entries generalizing env original with
  | nil => simp [enter, bindAll, bound, assignAll]
  | cons entry rest ih =>
      obtain ⟨key, value⟩ := entry
      rw [List.map_cons, List.nodup_cons] at hnodup
      have hrest : bound rest (Function.update env key (some value)) = bound rest env := by
        refine List.filterMap_congr fun other hother => ?_
        have hne : other.1 ≠ key := by
          rintro rfl
          exact hnodup.1 (List.mem_map.mpr ⟨other, hother, rfl⟩)
        rw [Function.update_of_ne hne]
      rw [enter, ih hnodup.2, hrest]
      refine Prod.ext rfl ?_
      simp only [bound, List.filterMap_cons]
      cases env key with
      | none => rfl
      | some old => simp

omit [DecidableEq K] in
theorem mem_bound {entries : List (K × V)} {env : Bindings K V} {key : K} {old : V} :
    (key, old) ∈ bound entries env ↔ key ∈ entries.map Prod.fst ∧ env key = some old := by
  simp only [bound, List.mem_filterMap, Option.map_eq_some_iff, List.mem_map]
  constructor
  · rintro ⟨entry, hentry, value, hvalue, heq⟩
    cases heq
    exact ⟨⟨entry, hentry, rfl⟩, hvalue⟩
  · rintro ⟨⟨entry, hentry, rfl⟩, hold⟩
    exact ⟨entry, hentry, old, hold, rfl⟩

namespace Settings

variable (s : Settings K V) (env inner : Bindings K V) (key : K)

def entered : Bindings K V := (enter s.entries env []).1

def left : Bindings K V := leave (enter s.entries env []).2 inner

variable {s env inner key}

theorem entered_of_notMem (h : key ∉ s.keys) : s.entered env key = env key := by
  rw [entered, enter_eq s.nodup]
  exact bindAll_of_notMem env h

private theorem entered_isSome (h : key ∈ s.keys) : (s.entered env key).isSome := by
  obtain ⟨value, hvalue, -⟩ := bindAll_mem env h
  rw [entered, enter_eq s.nodup]
  exact Option.isSome_iff_exists.mpr ⟨value, hvalue⟩

theorem left_of_bound (h : key ∈ s.keys) (hbound : (env key).isSome) :
    s.left env inner key = env key := by
  obtain ⟨old, hold⟩ := Option.isSome_iff_exists.mp hbound
  have hmem : key ∈ (bound s.entries env).map Prod.fst :=
    List.mem_map.mpr ⟨(key, old), mem_bound.mpr ⟨h, hold⟩, rfl⟩
  obtain ⟨value, hvalue, hentry⟩ := bindAll_mem inner hmem
  rw [left, enter_eq s.nodup, List.nil_append, leave, hvalue]
  exact (mem_bound.mp hentry).2.symm

theorem left_of_free (h : key ∉ s.keys ∨ env key = none) :
    s.left env inner key = inner key := by
  rw [left, enter_eq s.nodup, List.nil_append, leave]
  refine bindAll_of_notMem inner fun hmem => ?_
  obtain ⟨⟨name, old⟩, hentry, rfl⟩ := List.mem_map.mp hmem
  obtain ⟨hkey, hold⟩ := mem_bound.mp hentry
  rcases h with hnot | hnone
  · exact hnot hkey
  · cases hold.symm.trans hnone

end Settings

/-! ## Scripts -/

inductive Script (K V C : Type*) where
  | done
  | command (c : C) (next : Script K V C)
  | scope (settings : Settings K V) (inner next : Script K V C)

namespace Script

def after : Script K V C → Bindings K V → Bindings K V
  | .done, env => env
  | .command _ next, env => next.after env
  | .scope settings inner next, env =>
      next.after (settings.left env (inner.after (settings.entered env)))

def seen : Script K V C → Bindings K V → List (C × Bindings K V)
  | .done, _ => []
  | .command c next, env => (c, env) :: next.seen env
  | .scope settings inner next, env =>
      inner.seen (settings.entered env) ++
        next.seen (settings.left env (inner.after (settings.entered env)))

def keys : Script K V C → List K
  | .done => []
  | .command _ next => next.keys
  | .scope settings inner next => settings.keys ++ inner.keys ++ next.keys

/-- The frame rule. -/
theorem after_apply (script : Script K V C) {env : Bindings K V} {key : K}
    (h : (env key).isSome ∨ key ∉ script.keys) : script.after env key = env key := by
  induction script generalizing env with
  | done => rfl
  | command c next ih => exact ih h
  | scope settings inner next ihInner ihNext =>
      have hscope : settings.left env (inner.after (settings.entered env)) key = env key := by
        by_cases hkey : key ∈ settings.keys
        · refine Settings.left_of_bound hkey (h.resolve_right fun hnot => ?_)
          simp [keys, hkey] at hnot
        · have hentered : settings.entered env key = env key := Settings.entered_of_notMem hkey
          rw [Settings.left_of_free (Or.inl hkey), ihInner, hentered]
          rw [hentered]
          exact h.imp_right fun hnot hinner => hnot (by simp [keys, hinner])
      rw [after, ihNext, hscope]
      rw [hscope]
      exact h.imp_right fun hnot hnext => hnot (by simp [keys, hnext])

theorem after_isSome (script : Script K V C) {env : Bindings K V} {key : K}
    (h : (env key).isSome) : (script.after env key).isSome := by
  rwa [after_apply script (Or.inl h)]

private theorem isSome_of_mem_keys (script : Script K V C) (env : Bindings K V) {key : K}
    (h : key ∈ script.keys) : (script.after env key).isSome := by
  induction script generalizing env with
  | done => cases h
  | command c next ih => exact ih env h
  | scope settings inner next ihInner ihNext =>
      rw [after]
      by_cases hnext : key ∈ next.keys
      · exact ihNext _ hnext
      · refine after_isSome next ?_
        by_cases hbound : key ∈ settings.keys ∧ (env key).isSome
        · rw [Settings.left_of_bound hbound.1 hbound.2]
          exact hbound.2
        · have hfree : key ∉ settings.keys ∨ env key = none := by
            rw [← Option.not_isSome_iff_eq_none]
            exact not_and_or.mp hbound
          rw [Settings.left_of_free hfree]
          rcases List.mem_append.mp h with hfront | hmem
          · rcases List.mem_append.mp hfront with hkey | hinner
            · exact after_isSome inner (Settings.entered_isSome hkey)
            · exact ihInner _ hinner
          · exact absurd hmem hnext

/-- A script leaves no trace exactly if every name that it binds had a value. -/
theorem after_eq_iff (script : Script K V C) (env : Bindings K V) :
    script.after env = env ↔ ∀ key ∈ script.keys, (env key).isSome := by
  constructor
  · intro h key hkey
    rw [← h]
    exact isSome_of_mem_keys script env hkey
  · intro h
    funext key
    refine after_apply script ?_
    by_cases hkey : key ∈ script.keys
    · exact Or.inl (h key hkey)
    · exact Or.inr hkey

end Script

end F1X.Library
