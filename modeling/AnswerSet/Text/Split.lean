/-!
# Cutting text into pieces

A text is cut at every separator, at its first separator, or into lines. All
three keep the pieces in order and lose nothing but the separators.
-/

namespace AnswerSet.Text

/-- Put `c` in front of the first piece, opening one if there is none. -/
def consFirst {α : Type} (c : α) : List (List α) → List (List α)
  | [] => [[c]]
  | piece :: pieces => (c :: piece) :: pieces

/-- The pieces between the separators. There is one more than there are separators. -/
def splitAt (separator : Char) : List Char → List (List Char)
  | [] => [[]]
  | c :: cs => if c = separator then [] :: splitAt separator cs
    else consFirst c (splitAt separator cs)

theorem consFirst_append {α : Type} {c : α} {pieces : List (List α)} (h : pieces ≠ [])
    (others : List (List α)) : consFirst c (pieces ++ others) = consFirst c pieces ++ others := by
  cases pieces with
  | nil => exact absurd rfl h
  | cons piece pieces => rfl

theorem splitAt_ne_nil (separator : Char) (cs : List Char) : splitAt separator cs ≠ [] := by
  cases cs with
  | nil => simp [splitAt]
  | cons c cs =>
      rw [splitAt]
      by_cases hc : c = separator
      · simp [hc]
      · cases h : splitAt separator cs <;> simp [hc, consFirst]

/-- A separator ends a piece, whatever stands around it. -/
theorem splitAt_append (separator : Char) (cs ds : List Char) :
    splitAt separator (cs ++ separator :: ds) = splitAt separator cs ++ splitAt separator ds := by
  induction cs with
  | nil => simp [splitAt]
  | cons c cs ih =>
      rw [List.cons_append, splitAt, splitAt]
      by_cases hc : c = separator
      · rw [if_pos hc, if_pos hc, ih, List.cons_append]
      · rw [if_neg hc, if_neg hc, ih, consFirst_append (splitAt_ne_nil separator cs)]

theorem splitAt_of_not_mem {separator : Char} {cs : List Char} (h : separator ∉ cs) :
    splitAt separator cs = [cs] := by
  induction cs with
  | nil => rfl
  | cons c cs ih =>
      have hc : c ≠ separator := fun hc => h (hc ▸ List.mem_cons_self)
      rw [splitAt, if_neg hc, ih fun hm => h (List.mem_cons_of_mem _ hm)]
      rfl

/-- The text after the first separator, if there is one. -/
def afterFirst? (separator : Char) : List Char → Option (List Char)
  | [] => none
  | c :: cs => if c = separator then some cs else afterFirst? separator cs

/--
The lines of a text. A line ends at a line feed, or at a carriage return and a
line feed; a last line without an end counts, an empty one does not.
-/
def lines : List Char → List (List Char)
  | [] => []
  | '\n' :: rest => [] :: lines rest
  | '\r' :: '\n' :: rest => [] :: lines rest
  | c :: rest => consFirst c (lines rest)

end AnswerSet.Text
