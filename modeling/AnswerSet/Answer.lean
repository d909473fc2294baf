import AnswerSet.Atom.Decode

/-!
# Answers

An answer is one model that the solver found: the texts of its true atoms as the
solver printed them, and its costs if the program optimises. Atoms are found in
an answer by schema. The texts of the schema's predicate are decoded and all
others are passed over, so one text of the predicate that does not decode is an
error of the whole search.
-/

namespace AnswerSet

/-- One model. It is optimal if the solver proved that the run ended with the optimum. -/
structure Answer where
  atoms : List String
  costs : List Int64
  optimal : Bool
deriving DecidableEq, Repr

namespace Answer

/-- The atoms of a schema in the answer, in order. -/
def occurrences (answer : Answer) (schema : Schema) : Except DecodeError (List Atom) :=
  (answer.atoms.filter (matchesPredicate schema.predicate)).mapM (schema.decode schema.predicate)

/-- Is the atom among those of its schema in the answer? -/
def contains (answer : Answer) (atom : Atom) : Except DecodeError Bool := do
  return (← answer.occurrences atom.schema).any (· == atom)

end Answer

/-- A type whose values are kept as atoms of one schema. -/
class Record (α : Type) where
  schema : Schema
  ofAtom : Atom → Except DecodeError α
  toAtom : α → Except ConstructionError Atom

/-- The values of a type in an answer, in order. -/
def Answer.records (α : Type) [Record α] (answer : Answer) : Except DecodeError (List α) := do
  (← answer.occurrences (Record.schema α)).mapM Record.ofAtom

end AnswerSet
