import Mathlib.Data.List.Infix

/-!
# Words between separators

A text is read as the words between its separators, empty ones left out.  A
word that has no separator in it occurs in a text on one side of a separator.
-/

namespace F1X.Library

variable {α : Type*} [DecidableEq α] {separator : α}

def words (separator : α) (text : List α) : List (List α) :=
  (text.splitOn separator).filter (· ≠ [])

@[simp] theorem words_nil : words separator ([] : List α) = [] := rfl

theorem words_append (front back : List α) :
    words separator (front ++ separator :: back) =
      words separator front ++ words separator back := by
  simp only [words, List.splitOn_eq_splitOnP]
  rw [List.splitOnP_append_cons front back (by simp), List.filter_append]

theorem words_cons (text : List α) : words separator (separator :: text) = words separator text :=
  words_append [] text

theorem words_of_notMem {word : List α} (h : separator ∉ word) (hne : word ≠ []) :
    words separator word = [word] := by
  rw [words, List.splitOn_eq_singleton h]
  simp [hne]

omit [DecidableEq α] in
theorem isInfix_append_separator {word : List α} (h : separator ∉ word) (front back : List α) :
    word <:+: front ++ separator :: back ↔ word <:+: front ∨ word <:+: back := by
  constructor
  · intro hword
    have hstart {rest : List α} (hrest : rest <+: separator :: back) (hnot : separator ∉ rest) :
        rest = [] := by
      rcases List.prefix_cons_iff.mp hrest with hnil | ⟨tail, rfl, -⟩
      · exact hnil
      · exact absurd List.mem_cons_self hnot
    rcases List.infix_append_iff.mp hword with hfront | hback | ⟨first, rest, rfl, hfirst, hrest⟩
    · exact .inl hfront
    · rcases List.infix_cons_iff.mp hback with hhead | hback
      · rw [hstart hhead h]
        exact .inl List.nil_infix
      · exact .inr hback
    · rw [hstart hrest fun hmem => h (List.mem_append_right _ hmem), List.append_nil]
      exact .inl hfirst.isInfix
  · rintro (hfront | hback)
    · exact hfront.trans (List.prefix_append front _).isInfix
    · exact hback.trans ((List.suffix_cons separator back).trans (List.suffix_append _ _)).isInfix

end F1X.Library
