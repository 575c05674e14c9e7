import Mathlib.Data.List.Basic
import Mathlib.Logic.Function.Basic

/-!
# Lists written over the front of a memory

A memory is a total function from addresses to cells.  `overlay cells memory`
is `memory` after `cells` were stored at the addresses `0, 1, ...`.  A loop
that filters a list in place keeps its memory in this form: the cells it has
kept lie over the old contents, and appending one more is a single store.
-/

namespace F1X.Library

variable {α : Type*}

def overlay (cells : List α) (memory : Nat → α) : Nat → α :=
  fun address => (cells[address]?).getD (memory address)

@[simp] theorem overlay_nil (memory : Nat → α) : overlay [] memory = memory := by
  funext address
  simp [overlay]

theorem overlay_of_lt {cells : List α} {memory : Nat → α} {address : Nat}
    (h : address < cells.length) :
    overlay cells memory address = cells[address] := by
  simp [overlay, h]

theorem overlay_of_le {cells : List α} {memory : Nat → α} {address : Nat}
    (h : cells.length ≤ address) :
    overlay cells memory address = memory address := by
  simp [overlay, List.getElem?_eq_none h]

@[simp] theorem overlay_append_length (front : List α) (cell : α)
    (back : List α) (memory : Nat → α) :
    overlay (front ++ cell :: back) memory front.length = cell := by
  simp [overlay]

theorem update_overlay (cells : List α) (memory : Nat → α) (cell : α) :
    Function.update (overlay cells memory) cells.length cell =
      overlay (cells ++ [cell]) memory := by
  funext address
  rcases Nat.lt_trichotomy address cells.length with hlt | rfl | hgt
  · rw [Function.update_of_ne (Nat.ne_of_lt hlt), overlay_of_lt hlt,
      overlay_of_lt (by simp; omega), List.getElem_append_left hlt]
  · rw [Function.update_self, overlay_append_length]
  · rw [Function.update_of_ne (Nat.ne_of_gt hgt), overlay_of_le (Nat.le_of_lt hgt),
      overlay_of_le (by simp; omega)]

private theorem overlay_overlay {new old : List α} (h : new.length = old.length)
    (rest : List α) (memory : Nat → α) :
    overlay new (overlay (old ++ rest) memory) =
      overlay (new ++ rest) memory := by
  funext address
  by_cases hlt : address < new.length
  · rw [overlay_of_lt hlt, overlay_of_lt (by simp; omega),
      List.getElem_append_left hlt]
  · have hle : new.length ≤ address := Nat.le_of_not_lt hlt
    rw [overlay_of_le hle]
    simp [overlay, List.getElem?_append_right hle,
      List.getElem?_append_right (h ▸ hle), h]

theorem overlay_overlay_drop {new old : List α} (h : new.length ≤ old.length)
    (memory : Nat → α) :
    overlay new (overlay old memory) =
      overlay (new ++ old.drop new.length) memory := by
  have htake : new.length = (old.take new.length).length := by simp [h]
  have hsplit := overlay_overlay htake (old.drop new.length) memory
  rwa [List.take_append_drop] at hsplit

end F1X.Library
