import AnswerSet.Proofs.Scalars
import Mathlib.Algebra.Order.Group.Abs
import Mathlib.Data.Set.NAry

/-!
# The solver's syntax of terms

What the solver takes a text of integers, operators, bars and intervals to be is
written down here as its grammar, apart from anything that writes such a text
(`IntervalExpression.Reads`). Parentheses and bars group, a product binds closer than
a sum, the two dots of an interval bind weaker than every operator, and each of them
associates to the left. An operator over intervals means all results over all choices
(`IntervalExpression.values`).

The grammar is ambiguous in its form, since every dot, star and bar could be the one
where the text is to be parted. **A text has one reading all the same**
(`Reads.unique`). The proof is a machine that goes through the text once, from left
to right, and keeps what still waits for its right operand. It makes no choices, and
whatever the grammar derives, it finds (`Reads.run`).
-/

namespace AnswerSet

/-- The operators that may stand between intervals. -/
inductive IntervalOperator where
  | add
  | sub
  | mul
deriving DecidableEq

/-- An expression over integers in which intervals may stand. -/
inductive IntervalExpression where
  | integer (n : Int64)
  | apply (operator : IntervalOperator) (left right : IntervalExpression)
  | abs (inner : IntervalExpression)
  | range (lo hi : IntervalExpression)
deriving DecidableEq

/-! ## What an expression denotes -/

def IntervalOperator.result : IntervalOperator → Int → Int → Int
  | .add, a, b => a + b
  | .sub, a, b => a - b
  | .mul, a, b => a * b

/-- The values over all choices. An interval holds what lies between any of its lower and any of
its upper bounds. -/
def IntervalExpression.values : IntervalExpression → Set Int
  | .integer n => {n.toInt}
  | .apply operator left right => Set.image2 operator.result left.values right.values
  | .abs inner => (fun k => |k|) '' inner.values
  | .range lo hi => {k | ∃ a ∈ lo.values, ∃ b ∈ hi.values, a ≤ k ∧ k ≤ b}

/-! ## The grammar -/

/-- How close a term binds, from the weakest. -/
inductive Binding where
  | interval
  | sum
  | product
  | operand

def Binding.tighter : Binding → Binding
  | .interval => .sum
  | .sum => .product
  | .product => .operand
  | .operand => .operand

namespace IntervalOperator

/-- The character of the operator. -/
def char : IntervalOperator → Char
  | .add => '+'
  | .sub => '-'
  | .mul => '*'

/-- What the operator makes, and takes on its left. On its right there is something tighter. -/
def level : IntervalOperator → Binding
  | .add | .sub => .sum
  | .mul => .product

end IntervalOperator

namespace IntervalExpression

/-- The text is read as the expression, where a term of the given level is expected. -/
inductive Reads : Binding → List Char → IntervalExpression → Prop
  | integer (n : Int64) : Reads .operand (Text.wordText n).toList (.integer n)
  | parentheses {cs : List Char} {e : IntervalExpression} (h : Reads .interval cs e) :
      Reads .operand ('(' :: (cs ++ [')'])) e
  | bars {cs : List Char} {e : IntervalExpression} (h : Reads .interval cs e) :
      Reads .operand ('|' :: (cs ++ ['|'])) (.abs e)
  | apply {cs ds : List Char} {left right : IntervalExpression} (operator : IntervalOperator)
      (hl : Reads operator.level cs left) (hr : Reads operator.level.tighter ds right) :
      Reads operator.level (cs ++ operator.char :: ds) (.apply operator left right)
  | range {cs ds : List Char} {lo hi : IntervalExpression} (hl : Reads .interval cs lo)
      (hh : Reads .sum ds hi) : Reads .interval (cs ++ '.' :: '.' :: ds) (.range lo hi)
  | tighter {level : Binding} {cs : List Char} {e : IntervalExpression}
      (h : Reads level.tighter cs e) : Reads level cs e
  | before {level : Binding} {cs : List Char} {e : IntervalExpression} (h : Reads level cs e) :
      Reads level (' ' :: cs) e
  | behind {level : Binding} {cs : List Char} {e : IntervalExpression} (h : Reads level cs e) :
      Reads level (cs ++ [' ']) e

/-! ## What waits for a right operand -/

/-- What stands left of an operand since the last bracket: the bounds of an interval, a sum and
a product, each of which still lacks what follows. -/
structure Pending where
  lower : Option IntervalExpression
  summand : Option (IntervalOperator × IntervalExpression)
  factor : Option IntervalExpression

namespace Pending

/-- Behind an opening bracket nothing waits. -/
def empty : Pending := ⟨none, none, none⟩

variable (p : Pending) (e : IntervalExpression)

/-- The product that ends with the operand. -/
def product : IntervalExpression :=
  match p.factor with
  | none => e
  | some left => .apply .mul left e

/-- The sum that ends with the operand. -/
def sum : IntervalExpression :=
  match p.summand with
  | none => p.product e
  | some (operator, left) => .apply operator left (p.product e)

/-- The interval that ends with the operand. -/
def interval : IntervalExpression :=
  match p.lower with
  | none => p.sum e
  | some lo => .range lo (p.sum e)

/-- The term of the given level that ends with the operand. -/
def close : Binding → IntervalExpression
  | .interval => p.interval e
  | .sum => p.sum e
  | .product => p.product e
  | .operand => e

/-- What waits when the operator stands behind the operand. -/
def await : IntervalOperator → Pending
  | .mul => { p with factor := some (p.product e) }
  | operator => { p with summand := some (operator, p.sum e), factor := none }

/-- What waits outside of the term of the given level. -/
def outside : Binding → Pending
  | .interval => .empty
  | .sum => { p with summand := none, factor := none }
  | .product => { p with factor := none }
  | .operand => p

variable {p q : Pending} {e last : IntervalExpression} {level : Binding}

@[simp] theorem outside_await (operator : IntervalOperator) :
    (p.await e operator).outside operator.level.tighter = p.await e operator := by
  cases operator <;> rfl

theorem sum_of_summand {operator : IntervalOperator} (h : q.summand = some (operator, e)) :
    q.sum last = .apply operator e (q.product last) := by
  rw [sum, h]

/-- What waited for the operand of an operator has it now. -/
theorem close_await (last : IntervalExpression) {operator : IntervalOperator}
    (h : q.outside operator.level.tighter = p.await e operator) :
    q.outside operator.level = p.outside operator.level
      ∧ q.close last operator.level = .apply operator (p.close e operator.level)
        (q.close last operator.level.tighter) := by
  cases operator with
  | add =>
      injection h with hlower hsummand _
      exact ⟨by simp [IntervalOperator.level, outside, hlower], sum_of_summand hsummand⟩
  | sub =>
      injection h with hlower hsummand _
      exact ⟨by simp [IntervalOperator.level, outside, hlower], sum_of_summand hsummand⟩
  | mul =>
      have hq : q = p.await e .mul := h
      rw [hq]
      exact ⟨rfl, rfl⟩

/-- The same for the interval. -/
theorem close_lower (h : q.outside .sum = ⟨some e, none, none⟩) :
    q.close last .interval = .range e (q.close last .sum) := by
  have hlower : q.lower = some e := congrArg lower h
  rw [close, interval, hlower]
  rfl

/-- Where nothing waits on a level, its term is the one on the next. -/
theorem close_tighter (last : IntervalExpression) (h : q.outside level.tighter = p)
    (hp : p.outside level = p) :
    q.outside level = p ∧ q.close last level = q.close last level.tighter := by
  cases level with
  | operand => exact ⟨h, rfl⟩
  | product =>
      have hq : q = p := h
      have hfactor : q.factor = none := by rw [hq, ← hp]; rfl
      refine ⟨by rw [hq, hp], ?_⟩
      rw [close, product, hfactor]
      rfl
  | sum =>
      have hsummand : q.summand = none := (congrArg summand (h.trans hp.symm) :)
      have hlower : q.lower = p.lower := (congrArg lower h :)
      refine ⟨by rw [outside, hlower]; exact hp, ?_⟩
      rw [close, sum, hsummand]
      rfl
  | interval =>
      have hlower : q.lower = none := (congrArg lower (h.trans hp.symm) :)
      refine ⟨hp, ?_⟩
      rw [close, interval, hlower]
      rfl

end Pending

/-! ## The machine -/

/-- An open bracket, with what waits in front of it. -/
inductive Bracket where
  | parenthesis (p : Pending)
  | bar (p : Pending)

/-- What was read last. -/
inductive Cursor where
  /-- Nothing of the operand that has to follow. -/
  | awaiting
  /-- The first characters of an integer, if not all. -/
  | digits (cs : List Char)
  | operand (e : IntervalExpression)
  /-- One dot behind an interval. -/
  | dot (lo : IntervalExpression)

/-- The operand that was read last. -/
def Cursor.operand? : Cursor → Option IntervalExpression
  | .digits cs => (Text.readWord? cs).map .integer
  | .operand e => some e
  | _ => none

/-- Where the machine stands. -/
structure Machine where
  brackets : List Bracket
  pending : Pending
  cursor : Cursor

namespace Machine

variable (m : Machine)

/-- Read the start of an operand. -/
def openOperand (c : Char) : Option Machine :=
  if c = ' ' then some m
  else if c = '(' then some ⟨.parenthesis m.pending :: m.brackets, .empty, .awaiting⟩
  else if c = '|' then some ⟨.bar m.pending :: m.brackets, .empty, .awaiting⟩
  else some { m with cursor := .digits [c] }

/-- Read a closing bracket behind an operand. -/
def closeBracket (e : IntervalExpression) (c : Char) : Option Machine :=
  match m.brackets with
  | .parenthesis p :: brackets =>
      if c = ')' then some ⟨brackets, p, .operand (m.pending.interval e)⟩ else none
  | .bar p :: brackets =>
      if c = '|' then some ⟨brackets, p, .operand (.abs (m.pending.interval e))⟩ else none
  | [] => none

/-- Read what stands behind an operand. -/
def followOperand (e : IntervalExpression) (c : Char) : Option Machine :=
  match c with
  | ' ' => some { m with cursor := .operand e }
  | '+' => some { m with pending := m.pending.await e .add, cursor := .awaiting }
  | '-' => some { m with pending := m.pending.await e .sub, cursor := .awaiting }
  | '*' => some { m with pending := m.pending.await e .mul, cursor := .awaiting }
  | '.' => some { m with cursor := .dot (m.pending.interval e) }
  | _ => m.closeBracket e c

def step (c : Char) : Option Machine :=
  match m.cursor with
  | .awaiting => m.openOperand c
  | .digits cs =>
      if c.isDigit then some { m with cursor := .digits (cs ++ [c]) }
      else m.cursor.operand?.bind fun e => m.followOperand e c
  | .operand e => m.followOperand e c
  | .dot lo =>
      if c = '.' then some { m with pending := ⟨some lo, none, none⟩, cursor := .awaiting } else none

def run (cs : List Char) : Option Machine := cs.foldlM step m

variable {m : Machine} {brackets : List Bracket} {p : Pending} {cursor : Cursor}
  {e : IntervalExpression}

theorem run_cons (c : Char) (cs : List Char) : m.run (c :: cs) = (m.step c).bind (run · cs) := rfl

theorem run_append (cs ds : List Char) : m.run (cs ++ ds) = (m.run cs).bind (run · ds) :=
  List.foldlM_append

/-- No digit belongs to what stands behind an operand. -/
theorem step_of_operand {c : Char} (hc : c.isDigit = false) (h : cursor.operand? = some e) :
    step ⟨brackets, p, cursor⟩ c = followOperand ⟨brackets, p, cursor⟩ e c := by
  cases cursor with
  | awaiting => cases h
  | digits cs => simp [step, hc, h]
  | operand e' =>
      injection h with h
      rw [h]
      rfl
  | dot lo => cases h

theorem followOperand_operator (operator : IntervalOperator) :
    m.followOperand e operator.char
      = some { m with pending := m.pending.await e operator, cursor := .awaiting } := by
  cases operator <;> rfl

theorem run_digits {ds : List Char} (hd : ∀ c ∈ ds, c.isDigit = true) (cs : List Char) :
    run ⟨brackets, p, .digits cs⟩ ds = some ⟨brackets, p, .digits (cs ++ ds)⟩ := by
  induction ds generalizing cs with
  | nil => simp [run]
  | cons d ds ih =>
      have hstep : step ⟨brackets, p, .digits cs⟩ d = some ⟨brackets, p, .digits (cs ++ [d])⟩ :=
        if_pos (hd d List.mem_cons_self)
      rw [run_cons, hstep]
      refine (ih (fun c hc => hd c (List.mem_cons_of_mem _ hc)) _).trans ?_
      rw [List.append_assoc]
      rfl

/-- An integer is a sign or a digit, and digits behind it. -/
theorem exists_wordText_eq (n : Int64) : ∃ first ds, (Text.wordText n).toList = first :: ds
    ∧ (first = '-' ∨ first.isDigit = true) ∧ ∀ c ∈ ds, c.isDigit = true := by
  have hdigits : ∀ k : Nat, ∀ c ∈ Nat.toDigits 10 k, c.isDigit = true := by
    intro k c hc
    exact Nat.isDigit_of_mem_toDigits (by decide) (by decide) hc
  rw [toList_wordText]
  by_cases hn : 0 ≤ n.toInt
  · rw [if_pos hn]
    obtain ⟨first, ds, hk⟩ := List.exists_cons_of_ne_nil
      (Nat.toDigits_ne_nil (b := 10) (n := n.toInt.toNat))
    have hall := hdigits n.toInt.toNat
    rw [hk] at hall ⊢
    exact ⟨first, ds, rfl, Or.inr (hall _ List.mem_cons_self),
      fun c hc => hall c (List.mem_cons_of_mem _ hc)⟩
  · rw [if_neg hn]
    exact ⟨'-', _, rfl, Or.inl rfl, hdigits _⟩

/-- An integer is read to its end. -/
theorem run_wordText (n : Int64) : run ⟨brackets, p, .awaiting⟩ (Text.wordText n).toList
    = some ⟨brackets, p, .digits (Text.wordText n).toList⟩ := by
  obtain ⟨first, ds, hword, hfirst, hds⟩ := exists_wordText_eq n
  have hother : first ≠ ' ' ∧ first ≠ '(' ∧ first ≠ '|' := by
    refine ⟨?_, ?_, ?_⟩ <;> intro he <;> simp [he] at hfirst
  have hstep : step ⟨brackets, p, .awaiting⟩ first = some ⟨brackets, p, .digits [first]⟩ := by
    simp [step, openOperand, hother]
  rw [hword, run_cons, hstep]
  exact run_digits hds _

/-- Behind an operand, the next character is not part of it. -/
theorem run_follow {cs ds : List Char} {c : Char} (h : m.run cs = some ⟨brackets, p, cursor⟩)
    (he : cursor.operand? = some e) (hc : c.isDigit = false) :
    m.run (cs ++ c :: ds) = (followOperand ⟨brackets, p, cursor⟩ e c).bind (run · ds) := by
  rw [run_append, h, Option.bind_some, run_cons, step_of_operand hc he]

end Machine

section Reads

variable {level : Binding} {cs : List Char} {e e' : IntervalExpression}

/-- **The machine finds what the grammar derives.** By induction on the derivation, for any open
brackets and for anything that waits outside of the term. -/
theorem Reads.run (h : Reads level cs e) (brackets : List Bracket) {p : Pending}
    (hp : p.outside level = p) : ∃ p' cursor last,
      Machine.run ⟨brackets, p, .awaiting⟩ cs = some ⟨brackets, p', cursor⟩
        ∧ cursor.operand? = some last ∧ p'.outside level = p ∧ p'.close last level = e := by
  induction h generalizing brackets p with
  | integer n =>
      have hread : Cursor.operand? (.digits (Text.wordText n).toList) = some (.integer n) := by
        rw [Cursor.operand?, readWord?_wordText]
        rfl
      exact ⟨p, _, _, Machine.run_wordText n, hread, rfl, rfl⟩
  | @parentheses cs e h ih =>
      -- what waits in front of the bracket is put away with it and is back behind it
      obtain ⟨inner, cursor, last, hrun, hlast, _, hclose⟩ := ih (.parenthesis p :: brackets) rfl
      refine ⟨p, .operand e, e, ?_, rfl, rfl, rfl⟩
      refine (Machine.run_follow hrun hlast (by decide)).trans ?_
      rw [← hclose]
      rfl
  | @bars cs e h ih =>
      obtain ⟨inner, cursor, last, hrun, hlast, _, hclose⟩ := ih (.bar p :: brackets) rfl
      refine ⟨p, .operand e.abs, e.abs, ?_, rfl, rfl, rfl⟩
      refine (Machine.run_follow hrun hlast (by decide)).trans ?_
      rw [← hclose]
      rfl
  | @apply cs ds left right operator hl hr ihl ihr =>
      -- the left side is closed before it waits, so on the level of the right side nothing does
      obtain ⟨pLeft, cursorLeft, lastLeft, hrunLeft, hlastLeft, hpLeft, hcloseLeft⟩ :=
        ihl brackets hp
      obtain ⟨pRight, cursorRight, lastRight, hrunRight, hlastRight, hpRight, hcloseRight⟩ :=
        ihr brackets (Pending.outside_await (p := pLeft) (e := lastLeft) operator)
      have hc : operator.char.isDigit = false := by cases operator <;> decide
      obtain ⟨houtside, hclose⟩ := Pending.close_await lastRight hpRight
      refine ⟨pRight, cursorRight, lastRight, ?_, hlastRight, houtside.trans hpLeft, ?_⟩
      · rw [Machine.run_follow hrunLeft hlastLeft hc, Machine.followOperand_operator]
        exact hrunRight
      · rw [hclose, hcloseLeft, hcloseRight]
  | @range cs ds lo hi hl hh ihl ihh =>
      obtain ⟨pLow, cursorLow, lastLow, hrunLow, hlastLow, hpLow, hcloseLow⟩ := ihl brackets hp
      obtain ⟨pHigh, cursorHigh, lastHigh, hrunHigh, hlastHigh, hpHigh, hcloseHigh⟩ :=
        ihh brackets (p := ⟨some (pLow.interval lastLow), none, none⟩) rfl
      refine ⟨pHigh, cursorHigh, lastHigh, ?_, hlastHigh, hpLow, ?_⟩
      · rw [Machine.run_follow hrunLow hlastLow (by decide)]
        exact hrunHigh
      · rw [Pending.close_lower hpHigh, hcloseHigh, ← hcloseLow]
        rfl
  | @tighter level cs e h ih =>
      have hfree : p.outside level.tighter = p := by
        rw [← hp]
        cases level <;> rfl
      obtain ⟨p', cursor, last, hrun, hlast, hp', hclose⟩ := ih brackets hfree
      obtain ⟨houtside, hclose'⟩ := Pending.close_tighter last hp' hp
      exact ⟨p', cursor, last, hrun, hlast, houtside, hclose'.trans hclose⟩
  | before h ih => exact ih brackets hp
  | behind h ih =>
      obtain ⟨p', cursor, last, hrun, hlast, hrest⟩ := ih brackets hp
      refine ⟨p', .operand last, last, ?_, rfl, hrest⟩
      exact Machine.run_follow hrun hlast (by decide)

/-- **A text has one reading.** -/
theorem Reads.unique (h : Reads level cs e) (h' : Reads level cs e') : e = e' := by
  have hempty : Pending.empty.outside level = Pending.empty := by cases level <;> rfl
  obtain ⟨p, cursor, last, hrun, hlast, _, hclose⟩ := h.run [] hempty
  obtain ⟨p', cursor', last', hrun', hlast', _, hclose'⟩ := h'.run [] hempty
  have hsame := hrun.symm.trans hrun'
  injection hsame with hsame
  injection hsame with _ hp hcursor
  rw [hcursor, hlast'] at hlast
  injection hlast with hlast
  rw [← hclose, ← hclose', hp, hlast]

end Reads

end IntervalExpression

end AnswerSet
