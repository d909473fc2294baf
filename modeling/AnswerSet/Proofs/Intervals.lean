import AnswerSet.Proofs.TermSyntax
import AnswerSet.Term

/-!
# Intervals as operands

An interval is written without parentheses. Where the tree has it as an operand, its
dots end up beside those of its neighbours, and since dots bind weaker than every
operator, the operator takes hold of the one bound that it stands next to.

So what the solver reads is another tree. Between two brackets the text is a sequence
of terms with dots between them (`Dotted`), an operator has joined the last term on its
left with the first on its right (`Dotted.weld`), and the sequence is read from the
left. That is the only reading there is (`reads_text_iff`), the integers stay in it in
their order (`integers_regrouped`), and **it is the tree that was written exactly if
no interval is an operand of an operator or the upper bound of another one**
(`regrouped_eq_iff`). Then the text denotes what the tree does (`text_denotes`).
-/

namespace AnswerSet

def IntervalOperator.toArithmetic : IntervalOperator → ArithmeticOperator
  | .add => .add
  | .sub => .sub
  | .mul => .mul

theorem IntervalOperator.toList_symbol (operator : IntervalOperator) :
    operator.toArithmetic.symbol.toList = [operator.char] := by
  cases operator <;> decide

namespace IntervalExpression

/-- The term that is built from the tree. -/
def term : IntervalExpression → Term
  | .integer n => .int n
  | .apply operator left right => .arithmetic operator.toArithmetic left.term right.term
  | .abs inner => inner.term.abs
  | .range lo hi => .range lo.term hi.term

/-- The text is read as some expression with these values. -/
def Denotes (cs : List Char) (values : Set Int) : Prop :=
  ∃ e : IntervalExpression, Reads .interval cs e ∧ e.values = values

/-! ## Terms with dots between them -/

/-- One or more terms, each but the last with dots behind it. -/
inductive Dotted where
  | last (e : IntervalExpression)
  | cons (e : IntervalExpression) (rest : Dotted)

namespace Dotted

def append : Dotted → Dotted → Dotted
  | .last e, d => .cons e d
  | .cons e c, d => .cons e (c.append d)

/-- An operator between two sequences joins the terms that it stands next to. -/
def weld (operator : IntervalOperator) : Dotted → Dotted → Dotted
  | .last left, .last right => .last (.apply operator left right)
  | .last left, .cons right d => .cons (.apply operator left right) d
  | .cons e c, d => .cons e (c.weld operator d)

/-- The interval from a lower bound through all of the terms. -/
def readFrom (lo : IntervalExpression) : Dotted → IntervalExpression
  | .last hi => .range lo hi
  | .cons hi d => d.readFrom (.range lo hi)

/-- Dots associate to the left. -/
def read : Dotted → IntervalExpression
  | .last e => e
  | .cons lo d => d.readFrom lo

/-- The text is read as the terms, where each of them is expected to be of the level. -/
inductive Reads (level : Binding) : List Char → Dotted → Prop
  | last {cs : List Char} {e : IntervalExpression} (h : IntervalExpression.Reads level cs e) :
      Reads level cs (.last e)
  | cons {cs ds : List Char} {e : IntervalExpression} {d : Dotted}
      (h : IntervalExpression.Reads level cs e) (hd : Reads level ds d) :
      Reads level (cs ++ '.' :: '.' :: ds) (.cons e d)

end Dotted

/-- The terms between the dots of an expression that stand in no bracket. -/
def dotted : IntervalExpression → Dotted
  | .integer n => .last (.integer n)
  | .apply operator left right => .last (left.dotted.weld operator right.dotted).read
  | .abs inner => .last (.abs inner.dotted.read)
  | .range lo hi => lo.dotted.append hi.dotted

/-- The tree that the text of an expression is read as. -/
def regrouped (e : IntervalExpression) : IntervalExpression := e.dotted.read

/-! ## The reading -/

section Reading

variable {level : Binding} {cs ds : List Char} {e lo : IntervalExpression} {c d : Dotted}

/-- An operand may stand wherever a term may. -/
theorem Reads.of_operand (h : Reads .operand cs e) (level : Binding) : Reads level cs e := by
  have hproduct : Reads .product cs e := .tighter h
  have hsum : Reads .sum cs e := .tighter hproduct
  cases level with
  | interval => exact .tighter hsum
  | sum => exact hsum
  | product => exact hproduct
  | operand => exact h

/-- An operator between two operands, with blanks around it. -/
theorem Reads.operator {left right : IntervalExpression} (operator : IntervalOperator)
    (hl : Reads .operand cs left) (hr : Reads .operand ds right) :
    Reads .sum (cs ++ ' ' :: operator.char :: ' ' :: ds) (.apply operator left right) := by
  have happly : Reads operator.level ((cs ++ [' ']) ++ operator.char :: ' ' :: ds)
      (.apply operator left right) :=
    .apply operator (.behind (hl.of_operand _)) (.before (hr.of_operand _))
  rw [List.append_assoc] at happly
  cases operator with
  | add => exact happly
  | sub => exact happly
  | mul => exact .tighter happly

namespace Dotted

theorem Reads.append (hc : c.Reads level cs) (hd : d.Reads level ds) :
    (c.append d).Reads level (cs ++ '.' :: '.' :: ds) := by
  induction hc with
  | last h => exact .cons h hd
  | @cons cs ds' e c h hc ih =>
      rw [List.append_assoc]
      exact .cons h ih

theorem Reads.of_operand (hd : d.Reads .operand ds) (level : Binding) : d.Reads level ds := by
  induction hd with
  | last h => exact .last (h.of_operand level)
  | cons h hd ih => exact .cons (h.of_operand level) ih

/-- The operator takes the last term on its left and the first on its right. -/
theorem Reads.weld (operator : IntervalOperator) (hc : c.Reads .operand cs)
    (hd : d.Reads .operand ds) :
    (c.weld operator d).Reads .sum (cs ++ ' ' :: operator.char :: ' ' :: ds) := by
  induction hc with
  | @last cs left hl =>
      cases hd with
      | last hr => exact .last (.operator operator hl hr)
      | @cons ds ds' right d hr hd =>
          have hwelded := hl.operator operator hr
          have hall := Reads.cons hwelded (hd.of_operand .sum)
          rw [List.append_assoc] at hall
          exact hall
  | @cons cs cs' e c h hc ih =>
      rw [List.append_assoc]
      exact .cons (h.of_operand .sum) ih

/-- The terms are read from the left, onto the interval in front of them. -/
theorem Reads.readFrom (hl : IntervalExpression.Reads .interval cs lo) (hd : d.Reads .sum ds) :
    IntervalExpression.Reads .interval (cs ++ '.' :: '.' :: ds) (d.readFrom lo) := by
  induction hd generalizing cs lo with
  | last h => exact .range hl h
  | @cons ds ds' hi d h hd ih =>
      have hall := ih (.range hl h)
      rw [List.append_assoc] at hall
      exact hall

theorem Reads.read (hd : d.Reads .sum ds) : IntervalExpression.Reads .interval ds d.read := by
  cases hd with
  | last h => exact .tighter h
  | cons h hd => exact hd.readFrom (.tighter h)

end Dotted

/-- **The text of an expression is read as its terms.** -/
theorem reads_dotted (e : IntervalExpression) : e.dotted.Reads .operand e.term.text.toList := by
  induction e with
  | integer n => exact .last (.integer n)
  | apply operator left right ihl ihr =>
      have hwelded := (ihl.weld operator ihr).read
      have htext : (IntervalExpression.apply operator left right).term.text.toList
          = '(' :: ((left.term.text.toList ++ ' ' :: operator.char :: ' ' :: right.term.text.toList)
            ++ [')']) := by
        simp [term, Term.arithmetic, Term.text, operator.toList_symbol]
      rw [htext]
      exact .last (.parentheses hwelded)
  | abs inner ih =>
      have htext : inner.abs.term.text.toList = '|' :: (inner.term.text.toList ++ ['|']) := by
        simp [term, Term.abs, Term.text]
      rw [htext]
      exact .last (.bars (ih.of_operand .sum).read)
  | range lo hi ihl ihh =>
      have htext : (lo.range hi).term.text.toList
          = lo.term.text.toList ++ '.' :: '.' :: hi.term.text.toList := by
        simp [term, Term.range, Term.text]
      rw [htext]
      exact ihl.append ihh

/-- **The text of an expression has one reading.** -/
theorem reads_text_iff {e e' : IntervalExpression} :
    Reads .interval e.term.text.toList e' ↔ e' = e.regrouped := by
  have hreads : Reads .interval e.term.text.toList e.regrouped :=
    ((reads_dotted e).of_operand .sum).read
  constructor
  · intro h
    exact h.unique hreads
  · intro h
    rw [h]
    exact hreads

end Reading

/-! ## What becomes of the tree -/

/-- The integers of an expression, from left to right. -/
def integers : IntervalExpression → List Int64
  | .integer n => [n]
  | .apply _ left right => left.integers ++ right.integers
  | .abs inner => inner.integers
  | .range lo hi => lo.integers ++ hi.integers

namespace Dotted

def integers : Dotted → List Int64
  | .last e => e.integers
  | .cons e d => e.integers ++ d.integers

variable {c d : Dotted} {e lo hi : IntervalExpression} {operator : IntervalOperator}

theorem integers_append (c d : Dotted) : (c.append d).integers = c.integers ++ d.integers := by
  induction c with
  | last e => rfl
  | cons e c ih => rw [append, integers, ih, integers, List.append_assoc]

theorem integers_weld (operator : IntervalOperator) (c d : Dotted) :
    (c.weld operator d).integers = c.integers ++ d.integers := by
  induction c with
  | last left =>
      cases d with
      | last right => rfl
      | cons right d =>
          rw [weld, integers, integers, integers, IntervalExpression.integers, List.append_assoc]
  | cons e c ih => rw [weld, integers, ih, integers, List.append_assoc]

theorem integers_readFrom (lo : IntervalExpression) (d : Dotted) :
    (d.readFrom lo).integers = lo.integers ++ d.integers := by
  induction d generalizing lo with
  | last hi => rfl
  | cons hi d ih =>
      rw [readFrom, ih, integers, IntervalExpression.integers, List.append_assoc]

theorem integers_read (d : Dotted) : d.read.integers = d.integers := by
  cases d with
  | last e => rfl
  | cons lo d => exact integers_readFrom lo d

theorem readFrom_append (lo : IntervalExpression) (c d : Dotted) :
    (c.append d).readFrom lo = d.readFrom (c.readFrom lo) := by
  induction c generalizing lo with
  | last e => rfl
  | cons e c ih => exact ih (.range lo e)

theorem read_append (c d : Dotted) : (c.append d).read = d.readFrom c.read := by
  cases c with
  | last e => rfl
  | cons e c => exact readFrom_append e c d

theorem append_ne_last (c d : Dotted) : c.append d ≠ .last e := by
  cases c <;> simp [append]

/-- An operator is all there is only between two single terms. -/
theorem weld_eq_last (h : c.weld operator d = .last e) :
    ∃ left right, c = .last left ∧ d = .last right ∧ e = .apply operator left right := by
  match c, d with
  | .last left, .last right =>
      injection h with h
      exact ⟨left, right, rfl, rfl, h.symm⟩
  | .last left, .cons right d => cases h
  | .cons e c, d => cases h

/-- More than one term is read as an interval. -/
theorem readFrom_ne_apply {left right : IntervalExpression} (lo : IntervalExpression)
    (d : Dotted) : d.readFrom lo ≠ .apply operator left right := by
  induction d generalizing lo with
  | last hi => simp [readFrom]
  | cons hi d ih => exact ih (.range lo hi)

/-- The interval that is read contains, as its lower bound or in it, what it was read onto. -/
theorem length_integers_le_of_readFrom (h : d.readFrom e = .range lo hi) :
    e.integers.length ≤ lo.integers.length := by
  induction d generalizing e with
  | last hi' =>
      injection h with h _
      rw [h]
  | cons hi' d ih =>
      have hle := ih h
      rw [IntervalExpression.integers, List.length_append] at hle
      omega

end Dotted

/-- **The integers stay in their order**, whatever becomes of the tree around them. -/
theorem integers_dotted (e : IntervalExpression) : e.dotted.integers = e.integers := by
  induction e with
  | integer n => rfl
  | apply operator left right ihl ihr =>
      rw [dotted, Dotted.integers, Dotted.integers_read, Dotted.integers_weld, ihl, ihr, integers]
  | abs inner ih => rw [dotted, Dotted.integers, integers, Dotted.integers_read, ih, integers]
  | range lo hi ihl ihh => rw [dotted, Dotted.integers_append, ihl, ihh, integers]

theorem integers_regrouped (e : IntervalExpression) : e.regrouped.integers = e.integers := by
  rw [regrouped, Dotted.integers_read, integers_dotted]

theorem integers_ne_nil (e : IntervalExpression) : e.integers ≠ [] := by
  induction e with
  | integer n => simp [integers]
  | apply operator left right ihl ihr => simp [integers, ihl]
  | abs inner ih => exact ih
  | range lo hi ihl ihh => simp [integers, ihl]

/-! ## Trees that are read as they were written -/

def IsRange (e : IntervalExpression) : Prop := ∃ lo hi, e = .range lo hi

/-- No interval is an operand of an operator or the upper bound of another one. Within bars, as a
lower bound and on its own an interval may stand. -/
inductive Grouped : IntervalExpression → Prop
  | integer (n : Int64) : Grouped (.integer n)
  | apply {left right : IntervalExpression} (operator : IntervalOperator) (hl : Grouped left)
      (hr : Grouped right) (hnl : ¬ left.IsRange) (hnr : ¬ right.IsRange) :
      Grouped (.apply operator left right)
  | abs {inner : IntervalExpression} (h : Grouped inner) : Grouped inner.abs
  | range {lo hi : IntervalExpression} (hl : Grouped lo) (hh : Grouped hi)
      (hnh : ¬ hi.IsRange) : Grouped (lo.range hi)

section Grouped

variable {e lo hi left right : IntervalExpression} {operator : IntervalOperator}

theorem not_isRange_of_dotted {e' : IntervalExpression} (h : e.dotted = .last e') :
    ¬ e.IsRange := by
  intro hr
  obtain ⟨lo, hi, rfl⟩ := hr
  exact Dotted.append_ne_last _ _ h

/-- By induction on the tree: what is no interval is a single term, the same that was written. -/
theorem Grouped.dotted_eq (h : e.Grouped) :
    (¬ e.IsRange → e.dotted = .last e) ∧ e.regrouped = e := by
  induction h with
  | integer n => exact ⟨fun _ => rfl, rfl⟩
  | @apply left right operator hl hr hnl hnr ihl ihr =>
      have hdotted : (IntervalExpression.apply operator left right).dotted
          = .last (.apply operator left right) := by
        rw [dotted, ihl.1 hnl, ihr.1 hnr]
        rfl
      exact ⟨fun _ => hdotted, by rw [regrouped, hdotted]; rfl⟩
  | @abs inner h ih =>
      have hdotted : inner.abs.dotted = .last inner.abs := by
        have hread : inner.dotted.read = inner := ih.2
        rw [dotted, hread]
      exact ⟨fun _ => hdotted, by rw [regrouped, hdotted]; rfl⟩
  | @range lo hi hl hh hnh ihl ihh =>
      refine ⟨fun hn => absurd ⟨lo, hi, rfl⟩ hn, ?_⟩
      have hread : lo.dotted.read = lo := ihl.2
      rw [regrouped, dotted, Dotted.read_append, hread, ihh.1 hnh]
      rfl

/-- An operator stays an operator only between single terms. -/
theorem dotted_of_regrouped_apply
    (h : (IntervalExpression.apply operator left right).regrouped = .apply operator left right) :
    left.dotted = .last left ∧ right.dotted = .last right := by
  have hread : (left.dotted.weld operator right.dotted).read = .apply operator left right := h
  cases hw : left.dotted.weld operator right.dotted with
  | last e =>
      obtain ⟨left', right', hl, hr, he⟩ := Dotted.weld_eq_last hw
      rw [hw, he] at hread
      injection hread with _ hleft hright
      rw [hl, hr, hleft, hright]
      exact ⟨rfl, rfl⟩
  | cons e d =>
      rw [hw] at hread
      exact absurd hread (Dotted.readFrom_ne_apply e d)

/-- An interval keeps its bounds only if the upper one is a single term: else an integer of the
upper bound is in the lower one. -/
theorem dotted_of_regrouped_range (h : (lo.range hi).regrouped = lo.range hi) :
    lo.regrouped = lo ∧ hi.dotted = .last hi := by
  have hread : hi.dotted.readFrom lo.regrouped = .range lo hi := by
    rw [regrouped, ← Dotted.read_append]
    exact h
  cases hd : hi.dotted with
  | last e =>
      rw [hd] at hread
      injection hread with hlo hhi
      rw [hhi]
      exact ⟨hlo, rfl⟩
  | cons e d =>
      -- then the lower bound would hold an integer of the upper one besides all of its own
      rw [hd] at hread
      have hle := Dotted.length_integers_le_of_readFrom (d := d) (e := .range lo.regrouped e) hread
      have hpos := List.length_pos_of_ne_nil e.integers_ne_nil
      rw [integers, integers_regrouped, List.length_append] at hle
      omega

/-- **A tree is read as it was written exactly if it is grouped.** -/
theorem regrouped_eq_iff : e.regrouped = e ↔ e.Grouped := by
  refine ⟨fun h => ?_, fun h => h.dotted_eq.2⟩
  induction e with
  | integer n => exact .integer n
  | apply operator left right ihl ihr =>
      obtain ⟨hl, hr⟩ := dotted_of_regrouped_apply h
      have hleft : left.regrouped = left := by rw [regrouped, hl]; rfl
      have hright : right.regrouped = right := by rw [regrouped, hr]; rfl
      exact .apply operator (ihl hleft) (ihr hright) (not_isRange_of_dotted hl)
        (not_isRange_of_dotted hr)
  | abs inner ih =>
      injection h with h
      exact .abs (ih h)
  | range lo hi ihl ihh =>
      obtain ⟨hlo, hd⟩ := dotted_of_regrouped_range h
      have hhi : hi.regrouped = hi := by rw [regrouped, hd]; rfl
      exact .range (ihl hlo) (ihh hhi) (not_isRange_of_dotted hd)

end Grouped

/-! ## What the text denotes -/

theorem denotes_text_iff {e : IntervalExpression} {values : Set Int} :
    Denotes e.term.text.toList values ↔ values = e.regrouped.values := by
  constructor
  · intro h
    obtain ⟨e', he, rfl⟩ := h
    rw [reads_text_iff.mp he]
  · intro h
    exact ⟨e.regrouped, reads_text_iff.mpr rfl, h.symm⟩

/--
**The text of a grouped expression denotes what the expression does.** Every
expression has one reading, with the same integers in the same order, and its text
denotes what that reading does. The reading is the expression itself exactly if no
interval in it is an operand of an operator or the upper bound of another interval,
and then the values of both are the same.
-/
theorem text_denotes (e : IntervalExpression) :
    (∀ e', Reads .interval e.term.text.toList e' ↔ e' = e.regrouped)
      ∧ e.regrouped.integers = e.integers
      ∧ (e.regrouped = e ↔ e.Grouped)
      ∧ (e.Grouped → ∀ values, Denotes e.term.text.toList values ↔ values = e.values) := by
  refine ⟨fun _ => reads_text_iff, integers_regrouped e, regrouped_eq_iff, ?_⟩
  intro h values
  rw [denotes_text_iff, regrouped_eq_iff.mpr h]

/-- The interval up to five, from any absolute value of an interval and one more. -/
def climb : IntervalExpression :=
  .range (.apply .add (.abs (.range (.integer (-3)) (.integer 1))) (.integer 1)) (.integer 5)

/-- Intervals between bars and below dots are in their places. -/
theorem text_denotes_climb : climb.Grouped ∧ climb.term.text = "(|-3..1| + 1)..5"
    ∧ ∀ values, Denotes climb.term.text.toList values ↔ values = climb.values := by
  have hbars : Grouped (.abs (.range (.integer (-3)) (.integer 1))) :=
    .abs (.range (.integer _) (.integer _) (not_isRange_of_dotted rfl))
  have hsum : Grouped (.apply .add (.abs (.range (.integer (-3)) (.integer 1))) (.integer 1)) :=
    .apply .add hbars (.integer 1) (not_isRange_of_dotted rfl) (not_isRange_of_dotted rfl)
  have hg : climb.Grouped := .range hsum (.integer 5) (not_isRange_of_dotted rfl)
  exact ⟨hg, by decide, (text_denotes climb).2.2.2 hg⟩

/-- An interval that is shifted by one. -/
def shifted : IntervalExpression :=
  .apply .add (.range (.integer 1) (.integer 3)) (.integer 1)

theorem values_range_integer (m n : Int64) :
    values (.range (.integer m) (.integer n)) = Set.Icc m.toInt n.toInt := by
  ext k
  simp [values]

/-- **The shift moves one bound.** The values from 2 to 4 come out as those from 1 to 4. -/
theorem not_text_denotes_shifted : shifted.term.text = "(1..3 + 1)"
    ∧ shifted.values = Set.Icc 2 4
    ∧ Denotes shifted.term.text.toList (Set.Icc 1 4)
    ∧ ¬ Denotes shifted.term.text.toList shifted.values := by
  have hone : Int64.toInt 1 = 1 := by decide
  have hthree : Int64.toInt 3 = 3 := by decide
  have hshifted : shifted.values = Set.Icc 2 4 := by
    rw [shifted, values, values_range_integer, hone, hthree, values, hone,
      Set.image2_singleton_right]
    ext k
    constructor
    · intro h
      obtain ⟨a, ⟨hlo, hhi⟩, rfl⟩ := h
      exact ⟨Int.add_le_add_right hlo 1, Int.add_le_add_right hhi 1⟩
    · intro h
      obtain ⟨hlo, hhi⟩ := h
      exact ⟨k - 1, ⟨by omega, by omega⟩, Int.sub_add_cancel k 1⟩
  have hread : shifted.regrouped.values = Set.Icc 1 4 := by
    have hregrouped : shifted.regrouped
        = .range (.integer 1) (.apply .add (.integer 3) (.integer 1)) := rfl
    ext k
    simp [hregrouped, values, IntervalOperator.result, hone, hthree]
  refine ⟨by decide, hshifted, denotes_text_iff.mpr hread.symm, ?_⟩
  intro h
  have hsame : Set.Icc (2 : Int) 4 = Set.Icc 1 4 := by
    rw [← hshifted, ← hread]
    exact denotes_text_iff.mp h
  have hmem : (1 : Int) ∈ Set.Icc (2 : Int) 4 := by
    rw [hsame]
    simp
  simp at hmem

end IntervalExpression

end AnswerSet
