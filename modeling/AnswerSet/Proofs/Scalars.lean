import AnswerSet.Atom.Decode
import AnswerSet.Proofs.Application

/-!
# Plain values and their texts

Every integer, string, truth value and name reads back from its own text, as what
it is: a decimal starts with a digit or a minus sign, a literal with a quote and a
name with a letter, so none of them is taken for another. And each of these texts
is `Scan.Steady`, wherever it stands among arguments. For strings that is the
point of escaping: the scanner enters the literal at its first quote and leaves it
at its last one, whatever the contents are.
-/

namespace AnswerSet

open Scan

/-! ## Literals -/

namespace Text

@[simp] theorem toList_quote (s : String) :
    (quote s).toList = '"' :: (escape s.toList ++ ['"']) := by
  simp [quote]

theorem unquote?_quote (s : String) : unquote? (quote s).toList = some (escape s.toList) := by
  rw [toList_quote, unquote?, List.getLast?_concat, if_pos rfl, List.dropLast_concat]

theorem unquote?_of_ne {c : Char} (h : c ≠ '"') (cs : List Char) : unquote? (c :: cs) = none := by
  unfold unquote?
  split
  · rename_i heq
    injection heq with hc _
    exact absurd hc h
  · rfl

end Text

/-- In a literal, all characters but the quote and the backslash are alike. -/
theorem step_inside {c : Char} (hb : c ≠ '\\') (hq : c ≠ '"') (d : Nat) :
    (inside d).step c = inside d := by
  unfold step
  split <;> simp_all

/-- The contents of a literal do not end it. -/
theorem run_escape (d : Nat) (cs : List Char) : (inside d).run (Text.escape cs) = inside d := by
  fun_induction Text.escape cs with
  | case1 => rfl
  | case2 rest ih => exact ih
  | case3 rest ih => exact ih
  | case4 rest ih => exact ih
  | case5 c rest backslash quote newline ih =>
      rw [run_cons, step_inside backslash quote]
      exact ih

theorem uncut_escape (d : Nat) (cs : List Char) : (inside d).Uncut (Text.escape cs) := by
  fun_induction Text.escape cs with
  | case1 => trivial
  | case2 rest ih => exact ⟨rfl, rfl, ih⟩
  | case3 rest ih => exact ⟨rfl, rfl, ih⟩
  | case4 rest ih => exact ⟨rfl, rfl, ih⟩
  | case5 c rest backslash quote newline ih =>
      refine ⟨separates_eq_false_iff.mpr (by simp), ?_⟩
      rw [step_inside backslash quote]
      exact ih

/-- **A literal is steady, whatever stands in it.** -/
theorem steady_quote (s : String) : Steady (Text.quote s).toList := by
  rw [Text.toList_quote]
  constructor
  · refine ⟨separates_eq_false_iff.mpr (by decide), uncut_append.mpr ⟨uncut_escape 0 _, ?_⟩⟩
    exact uncut_of_not_mem (by decide) _
  · intro d _
    rw [run_cons, step_quote, run_append, run_escape]
    rfl

theorem trim_quote (s : String) : Text.trim (Text.quote s).toList = (Text.quote s).toList := by
  rw [Text.toList_quote]
  refine Text.trim_eq_self ?_ ?_
  · simp [Text.isBlank]
  · rw [← List.cons_append, List.getLast?_concat]
    simp [Text.isBlank]

/-! ## Decimals and names -/

/-- The characters of decimals and of names. -/
def IsPlain (c : Char) : Prop := isPredicateChar c = true ∨ c = '-'

theorem IsPlain.neutral {c : Char} (h : IsPlain c) : Neutral c := by
  rcases h with h | rfl
  · exact neutral_of_isPredicateChar h
  · exact ⟨by decide, by decide, by decide⟩

theorem IsPlain.not_blank {c : Char} (h : IsPlain c) : Text.isBlank c = false := by
  rcases h with h | rfl
  · exact isBlank_of_isPredicateChar h
  · decide

theorem IsPlain.ne_comma {c : Char} (h : IsPlain c) : c ≠ ',' := by
  rcases h with h | rfl
  · exact ne_of_isPredicateChar h (by decide)
  · decide

theorem steady_plain {cs : List Char} (h : ∀ c ∈ cs, IsPlain c) : Steady cs :=
  ⟨uncut_of_not_mem (fun hc => (h ',' hc).ne_comma rfl) _,
    keeps_of_neutral fun c hc => (h c hc).neutral⟩

theorem trim_plain {cs : List Char} (h : ∀ c ∈ cs, IsPlain c) : Text.trim cs = cs :=
  Text.trim_eq_self (fun c hc => (h c (List.mem_of_mem_head? hc)).not_blank)
    (fun c hc => (h c (List.mem_of_getLast? hc)).not_blank)

theorem plain_name {name : String} (h : isPredicateName name = true) :
    ∀ c ∈ name.toList, IsPlain c := fun _ hc => Or.inl (isPredicateChar_of_mem h hc)

/-- A name is neither a literal nor a decimal. -/
theorem isPlainValue_lower {c : Char} (h : c.isLower = true) (cs : List Char) :
    Text.unquote? (c :: cs) = none ∧ Text.readWord? (c :: cs) = none := by
  have hne : ∀ d : Char, d.isLower = false → c ≠ d := by
    rintro d hd rfl
    rw [h] at hd
    exact Bool.noConfusion hd
  refine ⟨Text.unquote?_of_ne (hne '"' (by decide)) cs, ?_⟩
  -- the code points of digits lie below those of letters
  have hdigit : c.isDigit = false := by
    simp only [Char.isLower, Char.isDigit, Bool.and_eq_true, decide_eq_true_eq,
      Bool.and_eq_false_iff, decide_eq_false_iff_not, UInt32.le_iff_toNat_le] at h ⊢
    simp at h ⊢
    omega
  have hint : Text.readInt? (c :: cs) = none := by
    unfold Text.readInt?
    split
    · rename_i heq
      injection heq with hc _
      exact absurd hc (hne '-' (by decide))
    · rename_i heq
      injection heq with hc _
      exact absurd hc (hne '+' (by decide))
    · simp [Text.readNat?, hdigit]
  rw [Text.readWord?, hint]
  rfl

/-- The text of an integer is its digits, behind a minus sign if it is negative. -/
theorem toList_wordText (n : Int64) :
    (Text.wordText n).toList = if 0 ≤ n.toInt then Nat.toDigits 10 n.toInt.toNat
      else '-' :: Nat.toDigits 10 (-n.toInt).toNat := by
  rw [Text.wordText, Int.toString_eq_repr, Int.repr_eq_if]
  split
  · exact Nat.toList_repr
  · rw [String.toList_append, Nat.toList_repr]
    rfl

theorem isPredicateChar_of_digit {c : Char} (h : c.isDigit = true) : isPredicateChar c = true := by
  simp [isPredicateChar, Char.isAlphanum, h]

theorem plain_digits (n : Nat) : ∀ c ∈ Nat.toDigits 10 n, IsPlain c := fun _ hc =>
  Or.inl (isPredicateChar_of_digit (Nat.isDigit_of_mem_toDigits (by decide) (by decide) hc))

theorem plain_wordText (n : Int64) : ∀ c ∈ (Text.wordText n).toList, IsPlain c := by
  rw [toList_wordText]
  split
  · exact plain_digits _
  · intro c hc
    rcases List.mem_cons.mp hc with rfl | hc
    · exact Or.inr rfl
    · exact plain_digits _ c hc

theorem readInt?_toDigits (n : Nat) : Text.readInt? (Nat.toDigits 10 n) = some (n : Int) := by
  have hdigit : ∀ c ∈ Nat.toDigits 10 n, c.isDigit = true :=
    fun c hc => Nat.isDigit_of_mem_toDigits (by decide) (by decide) hc
  unfold Text.readInt?
  split
  · rename_i heq
    rw [heq] at hdigit
    exact absurd (hdigit '-' List.mem_cons_self) (by decide)
  · rename_i heq
    rw [heq] at hdigit
    exact absurd (hdigit '+' List.mem_cons_self) (by decide)
  · rw [Text.readNat?_toDigits]
    rfl

/-- An integer reads back from its decimal text. -/
theorem readWord?_wordText (n : Int64) : Text.readWord? (Text.wordText n).toList = some n := by
  have hint : Text.readInt? (Text.wordText n).toList = some n.toInt := by
    rw [toList_wordText]
    split
    · rename_i hn
      rw [readInt?_toDigits, Int.toNat_of_nonneg hn]
    · rename_i hn
      rw [Text.readInt?, Text.readNat?_toDigits]
      show some (-((-n.toInt).toNat : Int)) = some n.toInt
      rw [Int.toNat_of_nonneg (by omega), Int.neg_neg]
  rw [Text.readWord?, hint, Option.bind_some, Text.word?_toInt]

/-! ## Values of a kind -/

theorem ScalarKind.read?_kind {kind : ScalarKind} {cs : List Char} {term : Term}
    (h : kind.read? cs = some term) : term.scalarKind? = some kind := by
  unfold ScalarKind.read? at h
  split at h
  · obtain ⟨n, _, rfl⟩ := Option.map_eq_some_iff.mp h
    rfl
  · obtain ⟨s, _, rfl⟩ := Option.map_eq_some_iff.mp h
    rfl
  · injection h with h
    rw [← h]
    rfl
  · injection h with h
    rw [← h]
    rfl
  · exact absurd h (by simp)

section Kind

variable {kind : ScalarKind} {term : Term}

/-- A value of a kind is an integer, a string or a truth value. -/
theorem scalarKind?_cases (h : term.scalarKind? = some kind) :
    (∃ n, term = .int n ∧ kind = .integer) ∨ (∃ s, term = .str s ∧ kind = .string)
      ∨ (∃ b, term = .bool b ∧ kind = .boolean) := by
  cases term with
  | int n => exact Or.inl ⟨n, rfl, by injection h with h; exact h.symm⟩
  | str s => exact Or.inr (Or.inl ⟨s, rfl, by injection h with h; exact h.symm⟩)
  | bool b => exact Or.inr (Or.inr ⟨b, rfl, by injection h with h; exact h.symm⟩)
  | symbol name => exact absurd h (by simp [Term.scalarKind?])
  | unbound v => exact absurd h (by simp [Term.scalarKind?])

/-- **A plain value reads back from its own text.** -/
theorem ScalarKind.read?_text (h : term.scalarKind? = some kind) :
    kind.read? term.text.toList = some term := by
  rcases scalarKind?_cases h with ⟨n, rfl, rfl⟩ | ⟨s, rfl, rfl⟩ | ⟨b, rfl, rfl⟩
  · show (Text.readWord? (Text.wordText n).toList).map Term.int = _
    rw [readWord?_wordText]
    rfl
  · show (Text.unquote? (Text.quote s).toList).map _ = _
    rw [Text.unquote?_quote, Option.map_some, Text.unescape_escape, String.ofList_toList]
  · cases b <;> decide

theorem steady_scalar (h : term.scalarKind? = some kind) : Steady term.text.toList := by
  rcases scalarKind?_cases h with ⟨n, rfl, _⟩ | ⟨s, rfl, _⟩ | ⟨b, rfl, _⟩
  · exact steady_plain (plain_wordText n)
  · exact steady_quote s
  · cases b <;> exact steady_plain (plain_name (by decide))

theorem trim_scalar (h : term.scalarKind? = some kind) :
    Text.trim term.text.toList = term.text.toList := by
  rcases scalarKind?_cases h with ⟨n, rfl, _⟩ | ⟨s, rfl, _⟩ | ⟨b, rfl, _⟩
  · exact trim_plain (plain_wordText n)
  · exact trim_quote s
  · cases b <;> decide

theorem wordText_ne_nil (n : Int64) : (Text.wordText n).toList ≠ [] := by
  rw [toList_wordText]
  split
  · exact Nat.toDigits_ne_nil
  · simp

theorem text_ne_nil_of_scalar (h : term.scalarKind? = some kind) : term.text.toList ≠ [] := by
  rcases scalarKind?_cases h with ⟨n, rfl, _⟩ | ⟨s, rfl, _⟩ | ⟨b, rfl, _⟩
  · exact wordText_ne_nil n
  · show (Text.quote s).toList ≠ []
    simp
  · cases b <;> decide

end Kind

/-! ## Values of any kind -/

theorem readAny_eq (cs : List Char) :
    readAny cs = ((ScalarKind.string.read? cs).orElse fun _ =>
      (ScalarKind.boolean.read? cs).orElse fun _ => ScalarKind.integer.read? cs).getD
        (.symbol (.ofList cs)) := by
  unfold readAny
  simp only [List.findSome?_cons, List.findSome?_nil]
  cases ScalarKind.string.read? cs with
  | some t => rfl
  | none =>
      cases ScalarKind.boolean.read? cs with
      | some t => rfl
      | none => cases ScalarKind.integer.read? cs <;> rfl

/-- What is read as a value of any kind is a plain value, or a symbol of the text itself. -/
theorem readAny_cases (cs : List Char) :
    (∃ kind, (readAny cs).scalarKind? = some kind) ∨ readAny cs = .symbol (.ofList cs) := by
  rw [readAny_eq]
  cases hs : ScalarKind.string.read? cs with
  | some t => exact Or.inl ⟨_, ScalarKind.read?_kind hs⟩
  | none =>
      cases hb : ScalarKind.boolean.read? cs with
      | some t => exact Or.inl ⟨_, ScalarKind.read?_kind hb⟩
      | none =>
          cases hi : ScalarKind.integer.read? cs with
          | some t => exact Or.inl ⟨_, ScalarKind.read?_kind hi⟩
          | none => exact Or.inr rfl

theorem read?_boolean_eq_none {cs : List Char} (ht : cs ≠ "true".toList)
    (hf : cs ≠ "false".toList) : ScalarKind.boolean.read? cs = none := by
  unfold ScalarKind.read?
  split <;> simp_all

/-- **A plain value reads back from its own text when any kind is expected.** -/
theorem readAny_text {kind : ScalarKind} {term : Term} (h : term.scalarKind? = some kind) :
    readAny term.text.toList = term := by
  have hread := ScalarKind.read?_text h
  rw [readAny_eq]
  rcases scalarKind?_cases h with ⟨n, rfl, rfl⟩ | ⟨s, rfl, rfl⟩ | ⟨b, rfl, rfl⟩
  · -- a decimal has no quote, and truth values are no decimals
    have hplain := plain_wordText n
    have hstring : ScalarKind.string.read? (Term.int n).text.toList = none := by
      show (Text.unquote? (Text.wordText n).toList).map _ = none
      cases hw : (Text.wordText n).toList with
      | nil => rfl
      | cons c cs =>
          rw [hw] at hplain
          have hc : c ≠ '"' := (hplain c List.mem_cons_self).neutral.1
          rw [Text.unquote?_of_ne hc]
          rfl
    have hne : ∀ cs, Text.readWord? cs = none → (Text.wordText n).toList ≠ cs := by
      rintro cs hcs rfl
      rw [readWord?_wordText] at hcs
      exact absurd hcs (by simp)
    have hboolean : ScalarKind.boolean.read? (Term.int n).text.toList = none :=
      read?_boolean_eq_none (hne _ (by decide)) (hne _ (by decide))
    rw [hstring, hboolean, hread]
    rfl
  · rw [hread]
    rfl
  · have hstring : ScalarKind.string.read? (Term.bool b).text.toList = none := by
      cases b <;> decide
    rw [hstring, hread]
    rfl

/-- A text that starts in lower case is read as a symbol, unless it is a truth value. -/
theorem readAny_lower {text : String} {c : Char} {cs : List Char} (hl : text.toList = c :: cs)
    (hc : c.isLower = true) (ht : text ≠ "true") (hf : text ≠ "false") :
    readAny text.toList = .symbol text := by
  obtain ⟨hquote, hword⟩ := isPlainValue_lower hc cs
  have hboolean : ScalarKind.boolean.read? text.toList = none :=
    read?_boolean_eq_none (fun he => ht (String.toList_inj.mp he))
      (fun he => hf (String.toList_inj.mp he))
  have hstring : ScalarKind.string.read? text.toList = none := by
    show (Text.unquote? text.toList).map _ = none
    rw [hl, hquote]
    rfl
  have hinteger : ScalarKind.integer.read? text.toList = none := by
    show (Text.readWord? text.toList).map _ = none
    rw [hl, hword]
    rfl
  rw [readAny_eq, hstring, hboolean, hinteger, String.ofList_toList]
  rfl

/-- A name is read as a symbol, unless it is a truth value. -/
theorem readAny_name {name : String} (h : isPredicateName name = true) (ht : name ≠ "true")
    (hf : name ≠ "false") : readAny name.toList = .symbol name := by
  obtain ⟨c, cs, hn, hlower, _⟩ := exists_of_isPredicateName h
  exact readAny_lower hn hlower ht hf

/-- Either way, what is read is written as that text. -/
theorem text_readAny_lower {text : String} {c : Char} {cs : List Char}
    (hl : text.toList = c :: cs) (hc : c.isLower = true) : (readAny text.toList).text = text := by
  by_cases ht : text = "true"
  · rw [ht]
    decide
  by_cases hf : text = "false"
  · rw [hf]
    decide
  rw [readAny_lower hl hc ht hf]
  rfl

end AnswerSet
