import AnswerSet.Literal.Basic

/-!
# Rules

A rule has a head and a body of conditions. There are three kinds of heads. A
choice picks from a set, within bounds. A disjunction has at least one of its
alternatives hold; with a single one it is a normal rule, and a fact if its body
is empty too. A constraint has nothing to derive: it rules out what its body
describes, or charges a penalty for it.

A requirement is a constraint over the negation of what is required, so a
literal that already has two markers cannot be required.
-/

namespace AnswerSet

/-- What may stand in heads and bodies. -/
inductive Clause where
  | literal (literal : Literal)
  | conditional (conditional : ConditionalLiteral)
deriving BEq

/-- A head and the conditions under which it applies. -/
structure Rule (Head : Type) where
  head : Head
  body : List Clause
deriving BEq

namespace Rule

variable {Head : Type}

/-- The rule under one more condition. -/
def when (rule : Rule Head) (clause : Clause) : Rule Head :=
  { rule with body := rule.body ++ [clause] }

/-- The rule under more conditions. -/
def whenAll (rule : Rule Head) (clauses : List Clause) : Rule Head :=
  { rule with body := rule.body ++ clauses }

end Rule

/-! ## Choices -/

/-- The set a choice picks from. -/
inductive ChoiceSet where
  | literal (literal : Literal)
  | literals (literals : List Literal)
  | conditional (conditional : ConditionalLiteral)
deriving BEq

/-- Is there nothing to pick from? -/
def ChoiceSet.isEmpty : ChoiceSet → Bool
  | .literal _ => false
  | .literals ls => ls.isEmpty
  | .conditional c => c.entries.isEmpty

/-- How many elements a choice picks. -/
inductive ChoiceBounds where
  | exactly (count : Term)
  | within (atLeast atMost : Option Term)
deriving BEq

/-- A pick from a set, within bounds. -/
structure Choice where
  set : ChoiceSet
  bounds : ChoiceBounds
deriving BEq

/-- A choice rule without a body. An exact number leaves no room for other bounds. -/
def Choice.new (set : ChoiceSet) (exactly atLeast atMost : Option Term) :
    Except ConstructionError (Rule Choice) :=
  if set.isEmpty then .error .emptyGuess
  else match exactly, atLeast, atMost with
    | some count, none, none => .ok ⟨⟨set, .exactly count⟩, []⟩
    | some _, _, _ => .error .conflictingBounds
    | none, atLeast, atMost => .ok ⟨⟨set, .within atLeast atMost⟩, []⟩

/-! ## Disjunctions -/

/-- Alternatives, of which at least one holds. -/
structure Disjunction where
  heads : List Clause
deriving BEq

/-- A rule with the given alternatives, without a body. -/
def Disjunction.new (heads : List Clause) : Except ConstructionError (Rule Disjunction) :=
  if heads.isEmpty then .error .noHead else .ok ⟨⟨heads⟩, []⟩

/-- The rule that an atom holds. -/
def Disjunction.fact (atom : Atom) : Rule Disjunction := ⟨⟨[.literal (.ofAtom atom)]⟩, []⟩

/-! ## Constraints -/

/-- The cost of breaking a constraint: a weight at a level, once for each distinct tuple of terms. -/
structure Penalty where
  weight : Term
  level : Term
  terms : List Term
deriving DecidableEq, Repr

/-- What breaking a constraint means. -/
inductive Constraint where
  | hard
  | soft (penalty : Penalty)
deriving DecidableEq, Repr

namespace Constraint

/-- The constraint that at least one of the literals holds. -/
def require (disjuncts : List Literal) : Except ConstructionError (Rule Constraint) := do
  return ⟨.hard, (← disjuncts.mapM Literal.negate).map .literal⟩

/-- The constraint whose body is yet to be given. -/
def unconditional : Rule Constraint := ⟨.hard, []⟩

/-- Charge a penalty instead of ruling out, in place of any earlier penalty. -/
def otherwise (rule : Rule Constraint) (penalty : Penalty) : Rule Constraint :=
  { rule with head := .soft penalty }

/-- The penalty of a soft constraint. -/
def penalty? : Constraint → Option Penalty
  | .hard => none
  | .soft penalty => some penalty

end Constraint

/-! ## Conditions first -/

/-- A body in wait for a head. -/
structure When where
  body : List Clause

namespace When

/-- A single condition. -/
def new (clause : Clause) : When := ⟨[clause]⟩

/-- Several conditions. -/
def all (clauses : List Clause) : When := ⟨clauses⟩

/-- Add a condition. -/
def andAlso (condition : When) (clause : Clause) : When := ⟨condition.body ++ [clause]⟩

/-- At least one of the literals holds whenever the condition does. -/
def holds (condition : When) (disjuncts : List Literal) :
    Except ConstructionError (Rule Constraint) :=
  (Constraint.require disjuncts).map (·.whenAll condition.body)

/-- The condition never holds. -/
def never (condition : When) : Rule Constraint :=
  Constraint.unconditional.whenAll condition.body

/-- At least one of the alternatives holds whenever the condition does. -/
def define (condition : When) (heads : List Clause) :
    Except ConstructionError (Rule Disjunction) :=
  (Disjunction.new heads).map (·.whenAll condition.body)

/-- A choice is made whenever the condition holds. -/
def guess (condition : When) (set : ChoiceSet) (exactly atLeast atMost : Option Term) :
    Except ConstructionError (Rule Choice) :=
  (Choice.new set exactly atLeast atMost).map (·.whenAll condition.body)

end When

/-! ## Statements -/

/-- Any statement of a program. -/
inductive Definition where
  | guess (rule : Rule Choice)
  | define (rule : Rule Disjunction)
  | assert (rule : Rule Constraint)
  /-- Program text as it is. -/
  | raw (text : String)
deriving BEq

end AnswerSet
