import AnswerSet.Rule.Render

/-!
# Programs

A program is a list of statements that only grows. It is written one statement
per line, in the order in which the statements were added. If one of them cannot
be written, the first error is the program's.
-/

namespace AnswerSet

/-- Statements in the order in which they were added. -/
structure Program where
  definitions : List Definition

namespace Program

/-- No statements yet. -/
def empty : Program := ⟨[]⟩

instance : Inhabited Program := ⟨empty⟩

/-- The number of statements. -/
def size (program : Program) : Nat := program.definitions.length

/-- Add a statement. -/
def add (program : Program) (definition : Definition) : Program :=
  ⟨program.definitions ++ [definition]⟩

/-- Add an atom as a fact. -/
def addAtom (program : Program) (atom : Atom) : Program :=
  program.add (.define (Disjunction.fact atom))

/-- Add statements in order. -/
def extend (program : Program) (definitions : List Definition) : Program :=
  ⟨program.definitions ++ definitions⟩

/-- Write the program. -/
def render (program : Program) : Except RenderError String := do
  let statements ← program.definitions.mapM Definition.render
  return String.join (statements.map (· ++ "\n"))

end Program

end AnswerSet
