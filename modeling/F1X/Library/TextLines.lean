import Mathlib.Data.List.Basic

/-!
# Lines of a text

Texts of lines that end with a line feed, and how a text is read line by line.
-/

namespace F1X.Library

/-- The lines that repeated calls of `getline` read; the last one needs no line feed. -/
def getLines : List Char → List (List Char)
  | [] => []
  | c :: chars =>
      if c = '\n' then [] :: getLines chars
      else
        match getLines chars with
        | [] => [[c]]
        | line :: lines => (c :: line) :: lines

def putLine (line : List Char) : List Char := line ++ ['\n']

theorem lines_induction {p : List Char → Prop} (last : ∀ line, '\n' ∉ line → p line)
    (line : ∀ line chars, '\n' ∉ line → p chars → p (putLine line ++ chars))
    (chars : List Char) : p chars := by
  induction hlength : chars.length using Nat.strongRecOn generalizing chars with
  | _ length ih =>
      by_cases hfeed : '\n' ∈ chars
      · obtain ⟨first, rest, rfl, hfirst⟩ := List.eq_append_cons_of_mem hfeed
        have hrest := ih rest.length (by simp at hlength; omega) rest rfl
        have hline := line first rest hfirst hrest
        rwa [putLine, List.append_assoc, List.singleton_append] at hline
      · exact last chars hfeed

private theorem getLines_putLine {line : List Char} (h : '\n' ∉ line) (chars : List Char) :
    getLines (putLine line ++ chars) = line :: getLines chars := by
  induction line with
  | nil => rfl
  | cons c line ih =>
      obtain ⟨hc, hline⟩ := not_or.mp (mt List.mem_cons.mpr h)
      change getLines (c :: (putLine line ++ chars)) = _
      rw [getLines, if_neg (Ne.symm hc), ih hline]

theorem getLines_putLines {lines : List (List Char)} (h : ∀ line ∈ lines, '\n' ∉ line) :
    getLines (lines.flatMap putLine) = lines := by
  induction lines with
  | nil => rfl
  | cons line lines ih =>
      obtain ⟨hline, hlines⟩ := List.forall_mem_cons.mp h
      rw [List.flatMap_cons, getLines_putLine hline, ih hlines]

end F1X.Library
