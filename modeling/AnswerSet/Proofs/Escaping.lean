import AnswerSet.Proofs.Lexing
import AnswerSet.Proofs.Scalars

/-!
# Escaped text

A string is written into a literal in escaped form. Reading gives the string back,
but it is more generous than writing, so not every text is the escaped form of what
it reads as. The texts that are can be told from left to right: they are made of
the three pairs that writing makes and of characters that stand for themselves.

**This one grammar carries everything here.** Writing only makes such texts
(`isEscaped_escape`), and reading and writing such a text gives the same text
(`IsEscaped.escape_unescape`), so they are just the texts that survive both. And at
no place in such a text is the scanner outside of the string (`IsEscaped.inString`),
so the quote that is put behind it is the one that ends the literal, whatever
follows.
-/

namespace AnswerSet

open Scan

/-! ## Leaving a string -/

namespace Scan

/-- The scanner stands in a string, behind a backslash or not. -/
def InString : Scan → Prop
  | outside _ => False
  | inside _ => True
  | escaped _ => True

/-- The scanner leaves the string that it stands in with the last character of the text, and with
none before. -/
structure LeavesWith (scan : Scan) (cs : List Char) : Prop where
  left : ¬ (scan.run cs).InString
  inString : ∀ front, front <+: cs → front ≠ cs → (scan.run front).InString

/-- A text has at most one beginning with which the scanner leaves the string. -/
theorem LeavesWith.unique {scan : Scan} {cs front other : List Char} (h : scan.LeavesWith front)
    (h' : scan.LeavesWith other) (hf : front <+: cs) (ho : other <+: cs) : front = other := by
  by_cases he : front = other
  · exact he
  · -- the shorter one would end in the string, as a part of the longer one
    exfalso
    rcases Nat.le_total front.length other.length with hle | hle
    · have hpart := List.prefix_of_prefix_length_le hf ho hle
      exact h.left (h'.inString front hpart he)
    · have hpart := List.prefix_of_prefix_length_le ho hf hle
      exact h'.left (h.inString other hpart fun he' => he he'.symm)

end Scan

/-! ## The grammar -/

namespace Text

/-- The text is made of the pairs that writing makes, and of characters that are written as
themselves. -/
inductive IsEscaped : List Char → Prop
  | nil : IsEscaped []
  | pair {c : Char} {cs : List Char} : c = '\\' ∨ c = '"' ∨ c = 'n' → IsEscaped cs →
      IsEscaped ('\\' :: c :: cs)
  | plain {c : Char} {cs : List Char} : c ≠ '\\' → c ≠ '"' → c ≠ '\n' → IsEscaped cs →
      IsEscaped (c :: cs)

theorem isEscaped_escape (s : List Char) : IsEscaped (escape s) := by
  fun_induction escape s with
  | case1 => exact .nil
  | case2 rest ih => exact .pair (Or.inl rfl) ih
  | case3 rest ih => exact .pair (Or.inr (Or.inl rfl)) ih
  | case4 rest ih => exact .pair (Or.inr (Or.inr rfl)) ih
  | case5 c rest backslash quote newline ih => exact .plain backslash quote newline ih

section Escaped

variable {cs : List Char}

/-- Each pair and each character is read on its own, and written as before. -/
theorem IsEscaped.escape_unescape (h : IsEscaped cs) : escape (unescape cs) = cs := by
  induction h with
  | nil => rfl
  | pair hc _ ih =>
      rcases hc with rfl | rfl | rfl
      · rw [unescape, escape, ih]
        decide
      · rw [unescape, escape, ih]
        decide
      · rw [unescape, escape, ih]
  | @plain c cs backslash quote newline _ ih =>
      have hread : unescape (c :: cs) = c :: unescape cs := by
        cases cs <;> simp [unescape, backslash]
      rw [hread, escape, ih]
      · exact backslash
      · exact quote
      · exact newline

/-- **Just the escaped texts survive reading and writing.** -/
theorem escape_unescape_iff : escape (unescape cs) = cs ↔ IsEscaped cs := by
  constructor
  · intro h
    rw [← h]
    exact isEscaped_escape (unescape cs)
  · exact IsEscaped.escape_unescape

/-- In escaped text, the scanner is in the string everywhere. -/
theorem IsEscaped.inString (h : IsEscaped cs) (d : Nat) {front : List Char}
    (hf : front <+: cs) : ((inside d).run front).InString := by
  induction h generalizing front with
  | nil =>
      rw [List.prefix_nil.mp hf]
      trivial
  | pair _ _ ih =>
      rcases List.prefix_cons_iff.mp hf with rfl | ⟨rest, rfl, hrest⟩
      · trivial
      · -- between the backslash and the character behind it, or further on
        rcases List.prefix_cons_iff.mp hrest with rfl | ⟨further, rfl, hfurther⟩
        · trivial
        · show ((inside d).run further).InString
          exact ih hfurther
  | plain backslash quote _ _ ih =>
      rcases List.prefix_cons_iff.mp hf with rfl | ⟨rest, rfl, hrest⟩
      · trivial
      · rw [run_cons, step_inside backslash quote]
        exact ih hrest

/-- **The quote behind a written string is the one that ends it.** -/
theorem leavesWith_escape (s : List Char) (d : Nat) :
    (inside d).LeavesWith (escape s ++ ['"']) where
  left := by
    rw [run_append, run_escape]
    exact id
  inString := by
    intro front hf hne
    have hwithin := (List.prefix_concat_iff.mp hf).resolve_left hne
    exact (isEscaped_escape s).inString d hwithin

end Escaped

/--
**Escaping can be undone, and shows where it ends.**

Reading gives back every string that was written, in whose text there is no line
feed. In that text, with a quote and anything else behind it, the scanner leaves the
string with just this quote, and goes on outside at the depth at which the string
was opened. The texts that reading and writing leave as they are, are those made of
the pairs `\\`, `\"`, `\n` and of other characters than the backslash, the quote and
the line feed.
-/
theorem escape_closes (s rest : List Char) (d : Nat) :
    unescape (escape s) = s
      ∧ '\n' ∉ escape s
      ∧ (∀ front, front <+: escape s ++ '"' :: rest →
          ((inside d).LeavesWith front ↔ front = escape s ++ ['"']))
      ∧ (inside d).run (escape s ++ '"' :: rest) = (outside d).run rest
      ∧ ∀ cs, escape (unescape cs) = cs ↔ IsEscaped cs := by
  have hquote : escape s ++ ['"'] <+: escape s ++ '"' :: rest := by
    rw [List.prefix_append_right_inj]
    exact ⟨rest, rfl⟩
  refine ⟨unescape_escape s, not_mem_escape s, fun front hf => ?_, ?_,
    fun _ => escape_unescape_iff⟩
  · constructor
    · intro h
      exact h.unique (leavesWith_escape s d) hf hquote
    · rintro rfl
      exact leavesWith_escape s d
  · rw [run_append, run_escape]
    rfl

example : escape (unescape "a\\\\\\\"\\n".toList) = "a\\\\\\\"\\n".toList := by decide

end Text

end AnswerSet
