import Mathlib.Data.List.Basic

/-!
# Lexical scopes

The names in force at a place of a program, the latest declaration first, and the
declaration that a name denotes there.
-/

namespace F1X.Library

variable {N : Type*} [DecidableEq N] {name : N} {inner outer inForce origin : List N}

/-- A declaration is identified by the number of those in force before it. -/
def declarationOf (name : N) : List N → Option Nat
  | [] => none
  | declared :: inForce =>
      if declared = name then some inForce.length else declarationOf name inForce

private theorem declarationOf_lt {k : Nat} (h : declarationOf name inForce = some k) :
    k < inForce.length := by
  induction inForce with
  | nil => exact absurd h nofun
  | cons declared inForce ih =>
      unfold declarationOf at h
      by_cases hname : declared = name
      · rw [if_pos hname] at h
        obtain rfl := Option.some.inj h
        exact Nat.lt_succ_self _
      · rw [if_neg hname] at h
        exact Nat.lt_succ_of_lt (ih h)

theorem declarationOf_append_of_notMem (h : name ∉ inner) :
    declarationOf name (inner ++ outer) = declarationOf name outer := by
  induction inner with
  | nil => rfl
  | cons declared inner ih =>
      obtain ⟨hname, hinner⟩ := not_or.mp (mt List.mem_cons.mpr h)
      rw [List.cons_append, declarationOf, if_neg (Ne.symm hname), ih hinner]

theorem declarationOf_of_notMem (h : name ∉ inForce) : declarationOf name inForce = none := by
  have happend := @declarationOf_append_of_notMem _ _ _ _ [] h
  rwa [List.append_nil] at happend

theorem declarationOf_append_of_mem (h : name ∈ inner) :
    ∃ k, declarationOf name (inner ++ outer) = some k ∧ outer.length ≤ k := by
  induction inner with
  | nil => exact absurd h List.not_mem_nil
  | cons declared inner ih =>
      rw [List.cons_append, declarationOf]
      by_cases hname : declared = name
      · rw [if_pos hname]
        refine ⟨_, rfl, ?_⟩
        rw [List.length_append]
        omega
      · rw [if_neg hname]
        exact ih ((List.mem_cons.mp h).resolve_left (Ne.symm hname))

theorem declarationOf_of_mem (h : name ∈ inForce) : ∃ k, declarationOf name inForce = some k := by
  obtain ⟨k, hk, -⟩ := @declarationOf_append_of_mem _ _ _ _ [] h
  exact ⟨k, List.append_nil inForce ▸ hk⟩

private theorem declarationOf_append_eq_iff :
    declarationOf name (inner ++ outer) = declarationOf name outer ↔ name ∉ inner := by
  refine ⟨fun heq hmem => ?_, declarationOf_append_of_notMem⟩
  obtain ⟨k, hk, hle⟩ := @declarationOf_append_of_mem _ _ _ _ outer hmem
  exact absurd (declarationOf_lt (heq ▸ hk)) (Nat.not_lt.mpr hle)

/-- What has come into force since a place. -/
def declaredSince (inForce origin : List N) : List N :=
  inForce.take (inForce.length - origin.length)

theorem declarationOf_eq_iff (h : origin <:+ inForce) :
    declarationOf name inForce = declarationOf name origin ↔
      name ∉ declaredSince inForce origin := by
  obtain ⟨inner, rfl⟩ := h
  have hsince : declaredSince (inner ++ origin) origin = inner := by
    rw [declaredSince, List.length_append, Nat.add_sub_cancel, List.take_left]
  rw [hsince]
  exact declarationOf_append_eq_iff

omit [DecidableEq N] in
theorem notMem_declaredSince_of_nodup (h : origin <:+ inForce) (hnodup : inForce.Nodup)
    (hname : name ∈ origin) : name ∉ declaredSince inForce origin := by
  obtain ⟨inner, rfl⟩ := h
  rw [declaredSince, List.length_append, Nat.add_sub_cancel, List.take_left]
  exact fun hinner => (List.nodup_append.mp hnodup).2.2 name hinner name hname rfl

end F1X.Library
