import AnswerSet.Proofs.Weaving

/-!
# Strings are data, never code

A string from outside ends up in a statement as the field of an atom, in a
comparison or the tuple of an aggregate, as a bound or as the cost of a penalty.
Whatever it contains, the solver reads the statement as the same code with other
contents of literals: **no string can add to the code or take away from it**.

Symbols and variables are written as they are, so they must not bring quotes of
their own; nor must the strings among a penalty's terms, which are written bare.
-/

namespace AnswerSet

/-- No symbol or variable has the character. -/
def Term.Lacks (c : Char) : Term → Prop
  | .symbol name => c ∉ name.toList
  | .unbound v => c ∉ v.text.toList
  | _ => True

namespace Definition

/-- A statement of atoms of built schemas, with symbols and variables without the character. -/
structure Tame (c : Char) (d : Definition) : Prop where
  notRaw : d.isRaw = false
  built : ∀ schema, .predicate schema ∈ d.leaves → schema.Built
  terms : ∀ term, .term term ∈ d.leaves → term.Lacks c
  bareTerms : ∀ term ∈ d.bareTerms, term.Lacks c

/-- No string among the terms of a penalty has the character. -/
def BareLacks (c : Char) (d : Definition) : Prop := ∀ s, .str s ∈ d.bareTerms → c ∉ s.toList

section Alphabet

variable {c : Char} (hc : c = '"' ∨ c = '\n')

theorem code_of_lacks {s : String} (h : c ∉ s.toList) : Code (.without c hc) s := by
  rintro e he rfl
  exact h he

/-- Strings aside, the leaves are then written without the character. -/
theorem Tame.over {d : Definition} (h : d.Tame c) :
    ∀ leaf ∈ d.leaves, leaf.Over (.without c hc) := by
  intro leaf hl
  cases leaf with
  | predicate schema => exact h.built schema hl
  | term t =>
      have hlacks := h.terms t hl
      cases t with
      | symbol name => exact code_of_lacks hc hlacks
      | unbound v => exact code_of_lacks hc hlacks
      | int n => trivial
      | str s => trivial
      | bool b => trivial

/-- So are the terms of a penalty, if their strings allow it. -/
theorem Tame.code_bare {d : Definition} (h : d.Tame c) (hs : d.BareLacks c) :
    ∀ term ∈ d.bareTerms, Code (.without c hc) (Penalty.termText term) := by
  intro term ht
  have hlacks := h.bareTerms term ht
  cases term with
  | symbol name => exact code_of_lacks hc hlacks
  | unbound v => exact code_of_lacks hc hlacks
  | str s => exact code_of_lacks hc (hs s ht)
  | int n => exact code_wordText n
  | bool b => cases b <;> exact code_of_not_mem

end Alphabet

/--
**User strings cannot inject program text.** Two statements that differ in the
contents of strings only are both refused, or both written. The solver then reads
the same code from both texts, ends up outside of literals, and finds each
statement's own strings in its literals, in order.
-/
theorem lex_render_of_emptied_eq {d d' : Definition} (h : d.Tame '"') (h' : d'.Tame '"')
    (hs : d.BareLacks '"') (hs' : d'.BareLacks '"') (he : d.emptied = d'.emptied) :
    (∃ e, d.render = .error e ∧ d'.render = .error e) ∨
      ∃ text text' l l', d.render = .ok text ∧ d'.render = .ok text'
        ∧ lex? text.toList = some l ∧ lex? text'.toList = some l' ∧ l.code = l'.code
        ∧ l.contents = strings d.leaves ∧ l'.contents = strings d'.leaves := by
  have hc : '"' = '"' ∨ '"' = '\n' := Or.inl rfl
  have halike := d.alike h.notRaw (h.over hc) (h.code_bare hc hs)
  have halike' := d'.alike h'.notRaw (h'.over hc) (h'.code_bare hc hs')
  rw [← he] at halike'
  -- both are compared with the same frame
  generalize d.emptied.render = frame at halike halike'
  generalize d.render = written at halike
  generalize d'.render = written' at halike'
  cases halike with
  | error e =>
      cases halike' with
      | error e => exact Or.inl ⟨e, rfl, rfl⟩
  | @ok text frame ss hw =>
      cases halike' with
      | @ok text' frame ss' hw' =>
          obtain ⟨l, k, hl, hk, hcode, hcontents⟩ := lex_woven (fun _ hc => hc) hw
          obtain ⟨l', k', hl', hk', hcode', hcontents'⟩ := lex_woven (fun _ hc => hc) hw'
          have hkk : k = k' := Option.some.inj (hk.symm.trans hk')
          refine Or.inr ⟨text, text', l, l', rfl, rfl, hl, hl', ?_, hcontents, hcontents'⟩
          rw [hcode, hcode', hkk]

/-- Notes with a text. -/
def noteSchema : Schema := ⟨"note", [⟨"text", .scalar .string⟩]⟩

/-- A rule with a string in an atom, in a tuple, in a bound and in the cost of a penalty. -/
def noteRule (text reason : String) : Definition :=
  .assert ⟨.soft ⟨.str reason, .int 1, [.symbol "x"]⟩,
    [.literal (.ofAtom ⟨noteSchema, [.term (.str text)]⟩),
      .literal (.ofAggregate ⟨.count, .conditional ⟨[⟨[.term (.str reason)], []⟩]⟩,
        some (.notEqual, .str text)⟩)]⟩

theorem leaves_noteRule (text reason : String) : (noteRule text reason).leaves =
    [.predicate noteSchema, .term (.str text), .term (.str reason), .term (.str text),
      .term (.str reason), .term (.int 1)] := rfl

theorem bareTerms_noteRule (text reason : String) :
    (noteRule text reason).bareTerms = [.symbol "x"] := rfl

theorem noteRule_tame (text reason : String) : (noteRule text reason).Tame '"' where
  notRaw := rfl
  built := by
    intro schema hs
    have he : schema = noteSchema := by simpa [leaves_noteRule] using hs
    rw [he]
    decide
  terms := by
    intro term ht
    simp only [leaves_noteRule, List.mem_cons, List.not_mem_nil, or_false, Leaf.term.injEq,
      reduceCtorEq, false_or] at ht
    rcases ht with rfl | rfl | rfl | rfl | rfl
    all_goals trivial
  bareTerms := by
    intro term ht
    rw [List.mem_singleton.mp ht]
    simp [Term.Lacks]

theorem noteRule_bareLacks (text reason : String) : (noteRule text reason).BareLacks '"' := by
  intro s hs
  simp [bareTerms_noteRule] at hs

/-- An attempt to end the literal and to add a rule. -/
def breakout : String := "\"). p :- q(\"\\\n"

/-- The rule with the attempt in it: four literals and what they stand in. -/
def breakoutText : String :=
  " :~ note(\"\\\"). p :- q(\\\"\\\\\\n\"); "
    ++ "#count\x7b\"\"\x7d != \"\\\"). p :- q(\\\"\\\\\\n\". [\"\"@1,x]"

/-- The same rule without it. -/
def plainText : String := " :~ note(\"\"); #count\x7b\"r\"\x7d != \"\". [\"r\"@1,x]"

/-- The attempt is the contents of a literal, like any other text. -/
theorem lex_render_noteRule :
    (noteRule breakout "").emptied = (noteRule "" "r").emptied
      ∧ (noteRule breakout "").render = .ok breakoutText
      ∧ (noteRule "" "r").render = .ok plainText
      ∧ ∃ l l', lex? breakoutText.toList = some l ∧ lex? plainText.toList = some l'
        ∧ l.code = l'.code ∧ l.contents = [breakout, "", breakout, ""]
        ∧ l'.contents = ["", "r", "", "r"] := by
  have hr : (noteRule breakout "").render = .ok breakoutText := by decide +kernel
  have hr' : (noteRule "" "r").render = .ok plainText := by decide +kernel
  have hemptied : (noteRule breakout "").emptied = (noteRule "" "r").emptied := rfl
  rcases lex_render_of_emptied_eq (noteRule_tame _ _) (noteRule_tame _ _)
    (noteRule_bareLacks _ _) (noteRule_bareLacks _ _) hemptied with
    ⟨e, he, _⟩ | ⟨text, text', l, l', h, h', hl, hl', hcode, hcontents, hcontents'⟩
  · rw [hr] at he
    exact absurd he (by simp)
  · rw [hr] at h
    rw [hr'] at h'
    injection h with h
    injection h' with h'
    subst h h'
    exact ⟨hemptied, hr, hr', l, l', hl, hl', hcode, hcontents, hcontents'⟩

end Definition

end AnswerSet
