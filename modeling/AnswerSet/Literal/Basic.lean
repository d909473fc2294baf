import AnswerSet.Atom.Basic

/-!
# Literals, conditional literals and aggregates

A literal is an atom, a comparison of two terms or an aggregate, behind up to
two markers of negation. A conditional literal lists entries, each a tuple of
elements that counts whenever all literals of its condition hold. An aggregate
computes a number from a conditional literal, or counts a plain list of
literals, and compares it with a bound. The three are built from one another to
any depth, so they are defined together.

Equality follows the structure down to the atoms, which are equal when they are
written alike.
-/

namespace AnswerSet

mutual

/-- A target behind its negation markers. -/
structure Literal where
  polarity : Polarity
  target : Target

/-- What a literal is about. -/
inductive Target where
  | atom (atom : Atom)
  | comparison (left : Term) (operator : ComparisonOperator) (right : Term)
  | aggregate (aggregate : Aggregate)

/-- An aggregate over a set. Until it is compared with something it has no bound. -/
structure Aggregate where
  kind : AggregateKind
  source : Source
  bound : Option (ComparisonOperator × Term)

/-- The set an aggregate ranges over. Only counts take plain literals. -/
inductive Source where
  | literals (literals : List Literal)
  | conditional (conditional : ConditionalLiteral)

/-- Entries in order. -/
structure ConditionalLiteral where
  entries : List Entry

/-- A tuple of elements and the condition under which it counts. -/
structure Entry where
  elements : List Element
  condition : List Literal

/-- One place of a tuple. -/
inductive Element where
  | term (term : Term)
  | literal (literal : Literal)

end

/-! ## Making literals -/

/-- One more marker of negation, of which there are at most two. -/
def Polarity.negate : Polarity → Except ConstructionError Polarity
  | .affirmed => .ok .negated
  | .negated => .ok .doublyNegated
  | .doublyNegated => .error .thirdNegation

namespace Literal

/-- The literal that affirms a target. -/
def affirm (target : Target) : Literal := ⟨.affirmed, target⟩

/-- An atom as a literal. -/
def ofAtom (atom : Atom) : Literal := affirm (.atom atom)

/-- The negation of an atom. -/
def notAtom (atom : Atom) : Literal := ⟨.negated, .atom atom⟩

/-- The comparison of two terms. -/
def comparison (left : Term) (operator : ComparisonOperator) (right : Term) : Literal :=
  affirm (.comparison left operator right)

/-- An aggregate as a literal. -/
def ofAggregate (aggregate : Aggregate) : Literal := affirm (.aggregate aggregate)

/-- The literal behind one more marker of negation. -/
def negate (literal : Literal) : Except ConstructionError Literal := do
  return { literal with polarity := ← literal.polarity.negate }

/-- The atom of a literal that is about one. -/
def atom? (literal : Literal) : Option Atom :=
  match literal.target with
  | .atom atom => some atom
  | _ => none

end Literal

namespace ConditionalLiteral

/-- No entries yet. -/
def empty : ConditionalLiteral := ⟨[]⟩

/-- Add a tuple under a condition. -/
def entry (conditional : ConditionalLiteral) (elements : List Element)
    (condition : List Literal) : ConditionalLiteral :=
  ⟨conditional.entries ++ [⟨elements, condition⟩]⟩

end ConditionalLiteral

namespace Aggregate

/-- An aggregate without a bound. Plain literals carry no weights, so only counts take them. -/
def new (kind : AggregateKind) (source : Source) : Except ConstructionError Aggregate :=
  match kind, source with
  | .count, source => .ok ⟨.count, source, none⟩
  | kind, .conditional conditional => .ok ⟨kind, .conditional conditional, none⟩
  | kind, .literals _ => .error (.unweightedElements kind)

/-- Compare the aggregate with a bound, in place of any earlier one. -/
def compare (aggregate : Aggregate) (operator : ComparisonOperator) (bound : Term) : Aggregate :=
  { aggregate with bound := some (operator, bound) }

end Aggregate

/-! ## Equality -/

mutual

/-- Literals are equal if their markers and targets are. -/
def Literal.beq : Literal → Literal → Bool
  | ⟨p, s⟩, ⟨q, t⟩ => p = q && s.beq t

/-- Targets are equal if they have the same form and parts. -/
def Target.beq : Target → Target → Bool
  | .atom a, .atom b => a == b
  | .comparison l o r, .comparison l' o' r' => l = l' && o = o' && r = r'
  | .aggregate a, .aggregate b => a.beq b
  | _, _ => false

/-- Aggregates are equal if their kinds, sets and bounds are. -/
def Aggregate.beq : Aggregate → Aggregate → Bool
  | ⟨k, s, b⟩, ⟨k', s', b'⟩ => k = k' && s.beq s' && b = b'

/-- Sets are equal if they have the same form and parts. -/
def Source.beq : Source → Source → Bool
  | .literals ls, .literals ms => Literal.beqList ls ms
  | .conditional c, .conditional d => c.beq d
  | _, _ => false

/-- Conditional literals are equal if their entries are, in order. -/
def ConditionalLiteral.beq : ConditionalLiteral → ConditionalLiteral → Bool
  | ⟨es⟩, ⟨fs⟩ => Entry.beqList es fs

/-- Entries are equal if their tuples and conditions are. -/
def Entry.beq : Entry → Entry → Bool
  | ⟨es, c⟩, ⟨fs, d⟩ => Element.beqList es fs && Literal.beqList c d

/-- Elements are equal if they have the same form and parts. -/
def Element.beq : Element → Element → Bool
  | .term s, .term t => s = t
  | .literal l, .literal m => l.beq m
  | _, _ => false

/-- Literals are compared in order. -/
def Literal.beqList : List Literal → List Literal → Bool
  | [], [] => true
  | l :: ls, m :: ms => l.beq m && Literal.beqList ls ms
  | _, _ => false

/-- Entries are compared in order. -/
def Entry.beqList : List Entry → List Entry → Bool
  | [], [] => true
  | e :: es, f :: fs => e.beq f && Entry.beqList es fs
  | _, _ => false

/-- Elements are compared in order. -/
def Element.beqList : List Element → List Element → Bool
  | [], [] => true
  | e :: es, f :: fs => e.beq f && Element.beqList es fs
  | _, _ => false

end

instance : BEq Literal := ⟨Literal.beq⟩
instance : BEq Aggregate := ⟨Aggregate.beq⟩
instance : BEq ConditionalLiteral := ⟨ConditionalLiteral.beq⟩

end AnswerSet
