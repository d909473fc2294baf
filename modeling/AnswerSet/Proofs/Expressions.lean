import AnswerSet.Proofs.Freshness

/-!
# The text of an expression determines it

Arithmetic is not computed. Each operator writes down its operands at once, and what
it makes is one more variable text, so that an expression has no structure left but
in its characters. They suffice to find the structure again. A term without parts is
a word of letters, digits, underscores and minus signs. An operator opens with a
parenthesis, and after its first operand there is a space; an absolute value opens
with a bar, and a bar closes it, since no term ends just before a bar unless it is
all that is between the two.

So wherever two texts begin alike, **the first expressions in them are the same, and
so is what comes behind** (`Expression.Builds.eq_of_append_eq`), as long as no word
goes on there. Intervals have no parentheses of their own and are left out here.
-/

namespace AnswerSet

/-! ## Trees and what they build -/

/-- A term without parts. -/
inductive Simple where
  | integer (n : Int64)
  /-- The fresh variable of a number. -/
  | fresh (n : Nat)
  | hidden
  | named (name : String)
deriving DecidableEq

/-- An expression as it is put together. -/
inductive Expression where
  | simple (s : Simple)
  | arithmetic (operator : ArithmeticOperator) (left right : Expression)
  | abs (inner : Expression)
deriving DecidableEq

/-- What is handed to an operator: a term, or an integer that is made a term first. -/
inductive Operand where
  | term (t : Term)
  | integer (n : Int64)

def Operand.toTerm : Operand → Term
  | .term t => t
  | .integer n => .int n

/-- The names of variables that may stand in an expression. -/
def IsWord (name : String) : Prop := ∀ c ∈ name.toList, c.isAlphanum = true ∨ c = '_'

/-- The ways to make a term without parts. -/
inductive Simple.Makes : Simple → Term → Prop
  | integer (n : Int64) : Makes (.integer n) (.int n)
  | fresh (n : Nat) : Makes (.fresh n) (Term.fresh.run n).1
  | hidden : Makes .hidden Term.hidden
  | named {name : String} {t : Term} (hn : IsWord name) (ht : Term.var name = .ok t) :
      Makes (.named name) t

/-- The term that is built when the tree is put together from its leaves, with operands of either
form. -/
inductive Expression.Builds : Expression → Term → Prop
  | simple {s : Simple} {t : Term} (h : s.Makes t) : Builds (.simple s) t
  | arithmetic {left right : Expression} {a b : Operand} (operator : ArithmeticOperator)
      (hl : Builds left a.toTerm) (hr : Builds right b.toTerm) :
      Builds (.arithmetic operator left right) (Term.arithmetic operator a.toTerm b.toTerm)
  | abs {inner : Expression} {a : Operand} (h : Builds inner a.toTerm) :
      Builds (.abs inner) a.toTerm.abs

/-! ## Words -/

/-- The characters of terms without parts. -/
def isWordChar (c : Char) : Bool := c.isAlphanum || c = '_' || c = '-'

/-- No word goes on at the start of the text. -/
def EndsWord (rest : List Char) : Prop := ∀ c ∈ rest.head?, isWordChar c = false

namespace Simple

variable {s s' : Simple} {t t' : Term}

theorem wordChar_digits {n : Nat} {c : Char} (hc : c ∈ Nat.toDigits 10 n) :
    isWordChar c = true := by
  have hdigit := Nat.isDigit_of_mem_toDigits (by decide) (by decide) hc
  simp [isWordChar, Char.isAlphanum, hdigit]

theorem toList_var {name : String} (ht : Term.var name = .ok t) :
    t.text.toList = 'V' :: 'A' :: 'R' :: '_' :: name.toList := by
  unfold Term.var Variable.named at ht
  split at ht
  · cases ht
  · injection ht with ht
    have htext : t.text = "VAR_" ++ name := by rw [← ht]; rfl
    simp [htext]

theorem toList_fresh (n : Nat) :
    ((Term.fresh.run n).1).text.toList = 'X' :: '_' :: Nat.toDigits 10 n :=
  Variable.toList_numbered n

theorem Makes.wordChar (h : s.Makes t) : ∀ c ∈ t.text.toList, isWordChar c = true := by
  cases h with
  | integer n =>
      intro c hc
      rw [Term.text, toList_wordText] at hc
      split at hc
      · exact wordChar_digits hc
      · rcases List.mem_cons.mp hc with rfl | hc
        · decide
        · exact wordChar_digits hc
  | fresh n =>
      intro c hc
      rw [toList_fresh, List.mem_cons, List.mem_cons] at hc
      rcases hc with rfl | rfl | hc
      · decide
      · decide
      · exact wordChar_digits hc
  | hidden =>
      intro c hc
      have he : c = '_' := by simpa [Term.hidden, Term.text] using hc
      rw [he]
      decide
  | @named name t hn ht =>
      intro c hc
      rw [toList_var ht] at hc
      simp only [List.mem_cons] at hc
      rcases hc with rfl | rfl | rfl | rfl | hc
      · decide
      · decide
      · decide
      · decide
      · rcases hn c hc with h | rfl
        · simp [isWordChar, h]
        · decide

/-- Read a word that is no numeral. -/
def ofName? : List Char → Option Simple
  | ['_'] => some .hidden
  | 'X' :: '_' :: digits => (Text.readNat? digits).map .fresh
  | 'V' :: 'A' :: 'R' :: '_' :: name => some (.named (.ofList name))
  | _ => none

/-- Read a word. -/
def ofWord? (word : List Char) : Option Simple :=
  match Text.readWord? word with
  | some n => some (.integer n)
  | none => ofName? word

theorem Makes.ofWord?_text (h : s.Makes t) : ofWord? t.text.toList = some s := by
  cases h with
  | integer n =>
      unfold ofWord?
      rw [Term.text, readWord?_wordText]
  | fresh n =>
      have hword : Text.readWord? ('X' :: '_' :: Nat.toDigits 10 n) = none := by
        simp [Text.readWord?, Text.readInt?, Text.readNat?]
      unfold ofWord?
      rw [toList_fresh, hword]
      show ofName? _ = _
      rw [ofName?, Text.readNat?_toDigits]
      rfl
  | hidden => rfl
  | @named name t hn ht =>
      have hword : Text.readWord? ('V' :: 'A' :: 'R' :: '_' :: name.toList) = none := by
        simp [Text.readWord?, Text.readInt?, Text.readNat?]
      unfold ofWord?
      rw [toList_var ht, hword]
      show ofName? _ = _
      rw [ofName?, String.ofList_toList]

/-- **A word in front of a rest determines its term and the rest.** -/
theorem Makes.eq_of_append_eq (h : s.Makes t) (h' : s'.Makes t') {rest rest' : List Char}
    (he : t.text.toList ++ rest = t'.text.toList ++ rest') (hr : EndsWord rest)
    (hr' : EndsWord rest') : s = s' ∧ rest = rest' := by
  obtain ⟨hword, hrest⟩ := Text.span_append h.wordChar hr
  obtain ⟨hword', hrest'⟩ := Text.span_append h'.wordChar hr'
  rw [he, hword'] at hword
  rw [he, hrest'] at hrest
  have hread := h.ofWord?_text
  rw [← hword, h'.ofWord?_text] at hread
  exact ⟨(Option.some.inj hread).symm, hrest.symm⟩

theorem Makes.text_ne_nil (h : s.Makes t) : t.text.toList ≠ [] := by
  cases h with
  | integer n => exact wordText_ne_nil n
  | fresh n => simp [toList_fresh]
  | hidden => simp [Term.hidden, Term.text]
  | named hn ht => simp [toList_var ht]

theorem Makes.term_eq (h : s.Makes t) (h' : s.Makes t') : t = t' := by
  cases h with
  | integer n =>
      cases h'
      rfl
  | fresh n =>
      cases h'
      rfl
  | hidden =>
      cases h'
      rfl
  | named hn ht =>
      cases h' with
      | named _ ht' => exact Except.ok.inj (ht.symm.trans ht')

/-- A word does not open a parenthesis or a bar. -/
theorem Makes.head_ne (h : s.Makes t) {c : Char} (hc : isWordChar c = false)
    (rest after : List Char) : t.text.toList ++ rest ≠ c :: after := by
  obtain ⟨first, word, hword⟩ := List.exists_cons_of_ne_nil h.text_ne_nil
  have hfirst := h.wordChar first (by simp [hword])
  intro he
  rw [hword, List.cons_append] at he
  injection he with hhead _
  rw [hhead, hc] at hfirst
  cases hfirst

end Simple

/-! ## Expressions -/

namespace Expression

variable {e e' : Expression} {t t' : Term} {rest rest' : List Char}

theorem toList_arithmetic (operator : ArithmeticOperator) (a b : Term) (rest : List Char) :
    (Term.arithmetic operator a b).text.toList ++ rest = '(' :: (a.text.toList
      ++ ' ' :: (operator.symbol.toList ++ ' ' :: (b.text.toList ++ ')' :: rest))) := by
  simp [Term.arithmetic, Term.text]

theorem toList_abs (a : Term) (rest : List Char) :
    a.abs.text.toList ++ rest = '|' :: (a.text.toList ++ '|' :: rest) := by
  simp [Term.abs, Term.text]

/-- The symbol of an operator ends at the space behind it. -/
theorem eq_of_symbol_append_eq {operator operator' : ArithmeticOperator}
    (h : operator.symbol.toList ++ ' ' :: rest = operator'.symbol.toList ++ ' ' :: rest') :
    operator = operator' ∧ rest = rest' := by
  cases operator <;> cases operator' <;> simp_all [ArithmeticOperator.symbol]

theorem endsWord_of_not_wordChar {c : Char} (hc : isWordChar c = false) (rest : List Char) :
    EndsWord (c :: rest) := by
  intro d hd
  rw [← Option.some.inj hd]
  exact hc

/--
**Where two texts begin alike, the expressions at their start are the same.** By
induction on how the first one was built: its first character tells what the other
one has to be, and its parts are found one after the other.
-/
theorem Builds.eq_of_append_eq (h : e.Builds t) (h' : e'.Builds t')
    (he : t.text.toList ++ rest = t'.text.toList ++ rest') (hr : EndsWord rest)
    (hr' : EndsWord rest') : e = e' ∧ rest = rest' := by
  have hspace : isWordChar ' ' = false := by decide
  have hclose : isWordChar ')' = false := by decide
  have hbar : isWordChar '|' = false := by decide
  induction h generalizing e' t' rest rest' with
  | @simple s t hs =>
      cases h' with
      | simple hs' =>
          obtain ⟨rfl, hrest⟩ := hs.eq_of_append_eq hs' he hr hr'
          exact ⟨rfl, hrest⟩
      | arithmetic operator hl' hr' =>
          rw [toList_arithmetic] at he
          exact absurd he (hs.head_ne (by decide) _ _)
      | abs hi' =>
          rw [toList_abs] at he
          exact absurd he (hs.head_ne (by decide) _ _)
  | @arithmetic left right a b operator hl hr ihl ihr =>
      rw [toList_arithmetic] at he
      cases h' with
      | simple hs' => exact absurd he.symm (hs'.head_ne (by decide) _ _)
      | arithmetic operator' hl' hr' =>
          rw [toList_arithmetic] at he
          injection he with _ he
          -- a word ends at the space, so a sign in front of a number is not taken for an operator
          obtain ⟨rfl, he⟩ := ihl hl' he (endsWord_of_not_wordChar hspace _)
            (endsWord_of_not_wordChar hspace _)
          injection he with _ he
          obtain ⟨rfl, hright⟩ := eq_of_symbol_append_eq he
          obtain ⟨rfl, hrest⟩ := ihr hr' hright (endsWord_of_not_wordChar hclose _)
            (endsWord_of_not_wordChar hclose _)
          injection hrest with _ hrest
          exact ⟨rfl, hrest⟩
      | abs hi' =>
          rw [toList_abs] at he
          injection he with hhead _
          exact absurd hhead (by decide)
  | @abs inner a hi ih =>
      rw [toList_abs] at he
      cases h' with
      | simple hs' => exact absurd he.symm (hs'.head_ne hbar _ _)
      | arithmetic operator' hl' hr' =>
          rw [toList_arithmetic] at he
          injection he with hhead _
          exact absurd hhead (by decide)
      | abs hi' =>
          -- what is between the bars ends where the inner expression does, so the bars match
          rw [toList_abs] at he
          injection he with _ he
          obtain ⟨rfl, he⟩ := ih hi' he (endsWord_of_not_wordChar hbar _)
            (endsWord_of_not_wordChar hbar _)
          injection he with _ he
          exact ⟨rfl, he⟩

/-- What is built from a tree does not depend on the form of the operands. -/
theorem Builds.term_eq (h : e.Builds t) (h' : e.Builds t') : t = t' := by
  induction h generalizing t' with
  | simple hs =>
      cases h' with
      | simple hs' => exact hs.term_eq hs'
  | arithmetic operator hl hr ihl ihr =>
      cases h' with
      | arithmetic _ hl' hr' => rw [ihl hl', ihr hr']
  | abs hi ih =>
      cases h' with
      | abs hi' => rw [ih hi']

/--
**Two expressions have the same text exactly if they are the same tree.** Operators,
order, grouping and leaves can be read off. Whether an integer was made a term before
it was handed to an operator cannot, since it makes no difference.
-/
theorem text_eq_iff (h : e.Builds t) (h' : e'.Builds t') : t.text = t'.text ↔ e = e' := by
  constructor
  · intro he
    have happend : t.text.toList ++ [] = t'.text.toList ++ [] := by rw [he]
    have hend : EndsWord [] := by simp [EndsWord]
    exact (h.eq_of_append_eq h' happend hend hend).1
  · intro he
    rw [he] at h
    rw [h.term_eq h']

/-- The bars around a variable less -1, times three. -/
def barsInside : Expression :=
  .arithmetic .mul (.abs (.arithmetic .sub (.simple (.fresh 0)) (.simple (.integer (-1)))))
    (.simple (.integer 3))

/-- The bars around the whole product. -/
def barsOutside : Expression :=
  .abs (.arithmetic .mul (.arithmetic .sub (.simple (.fresh 0)) (.simple (.integer (-1))))
    (.simple (.integer 3)))

/-- The difference in both, with -1 as a term or as it is. -/
theorem builds_difference {b : Operand} (hb : b.toTerm = .int (-1)) :
    Builds (.arithmetic .sub (.simple (.fresh 0)) (.simple (.integer (-1))))
      (Term.arithmetic .sub (Operand.term (Term.fresh.run 0).1).toTerm b.toTerm) := by
  have hone : Builds (.simple (.integer (-1))) b.toTerm := by
    rw [hb]
    exact .simple (.integer (-1))
  exact .arithmetic .sub (.simple (.fresh 0)) hone

/-- The bars may move only with the tree. -/
theorem text_eq_iff_bars :
    barsInside.Builds (.unbound ⟨"(|(X_0 - -1)| * 3)"⟩)
      ∧ barsOutside.Builds (.unbound ⟨"|((X_0 - -1) * 3)|"⟩)
      ∧ ("(|(X_0 - -1)| * 3)" = "|((X_0 - -1) * 3)|" ↔ barsInside = barsOutside) := by
  have hthree : Builds (.simple (.integer 3)) (Operand.integer 3).toTerm := .simple (.integer 3)
  have hinside : barsInside.Builds (.unbound ⟨"(|(X_0 - -1)| * 3)"⟩) :=
    .arithmetic (a := .term _) .mul
      (.abs (a := .term _) (builds_difference (b := .integer (-1)) rfl)) hthree
  have houtside : barsOutside.Builds (.unbound ⟨"|((X_0 - -1) * 3)|"⟩) :=
    .abs (a := .term _) (.arithmetic (a := .term _) .mul
      (builds_difference (b := .term (.int (-1))) rfl) hthree)
  exact ⟨hinside, houtside, text_eq_iff hinside houtside⟩

end Expression

end AnswerSet
