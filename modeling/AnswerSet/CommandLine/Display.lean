import AnswerSet.CommandLine.Table
import AnswerSet.Json.Print
import AnswerSet.SolveResult

/-!
# What the command line shows

A result starts with a line for its status, in the words of the solver. Each
answer follows with its number, its costs if it has any, and a table of its atoms
beside their predicates. Ground atoms are counted and listed. Both can be shown
as JSON instead.
-/

namespace AnswerSet.CommandLine

/-! ## Results -/

/-- The status of a result. It is an optimum if any answer is known to be optimal. -/
def statusLine (result : SolveResult) : String :=
  match result.status with
  | .noSolution => "UNSATISFIABLE"
  | .hasSolution => if result.answers.any (·.optimal) then "OPTIMUM FOUND" else "SATISFIABLE"
  | .unknown => if result.killed then "UNKNOWN (timed out)" else "UNKNOWN"

/-- The predicate of an atom's text: what stands before its arguments. -/
def predicateOf (atom : String) : String := .ofList (atom.toList.takeWhile (· ≠ '('))

/-- The line above an answer. -/
def answerTitle (number : Nat) (costs : List Int64) : String :=
  let title := "Answer " ++ toString number
  match costs with
  | [] => title
  | costs => title ++ " (costs: " ++ " ".intercalate (costs.map Text.wordText) ++ ")"

/-- An answer with its number. -/
def answerText (answer : Answer) (number : Nat) : String :=
  answerTitle number answer.costs ++ "\n"
    ++ table ["Predicate", "Atom"] (answer.atoms.map fun atom => [predicateOf atom, atom])

/-- A result: its status and its answers, numbered from one. -/
def resultText (result : SolveResult) : String :=
  let answers := (result.answers.zipIdx 1).map fun (answer, number) =>
    "\n" ++ answerText answer number ++ "\n"
  statusLine result ++ "\n" ++ String.join answers

/-- An answer as a JSON value. -/
def answerJson (answer : Answer) : Json :=
  .record [("atoms", .array (answer.atoms.map .str)),
    ("costs", .array (answer.costs.map fun cost => .integer cost.toInt)),
    ("optimal", .bool answer.optimal)]

/-- The name of a status in JSON. -/
def statusName : Status → String
  | .noSolution => "no_solution"
  | .hasSolution => "has_solution"
  | .unknown => "unknown"

/-- A result as a JSON value. The warning is left out if there is none. -/
def resultJson (result : SolveResult) : Json :=
  let warning := match result.warning with
    | some warning => [("warning", Json.str warning)]
    | none => []
  .record ([("status", .str (statusName result.status)),
    ("answers", .array (result.answers.map answerJson)), ("killed", .bool result.killed)]
    ++ warning)

/-! ## Ground atoms -/

/-- Ground atoms, of one predicate if one was asked for. -/
def groundText (predicate : Option String) (atoms : List String) : String :=
  let suffix := match predicate with
    | some predicate => " of " ++ predicate
    | none => ""
  toString atoms.length ++ " ground atom(s)" ++ suffix ++ "\n"
    ++ String.join (atoms.map fun atom => "  " ++ atom ++ "\n")

/-- Ground atoms as a JSON value. -/
def groundJson (predicate : Option String) (atoms : List String) : Json :=
  let asked := match predicate with
    | some predicate => [("predicate", Json.str predicate)]
    | none => []
  .record (asked ++ [("atoms", .array (atoms.map .str))])

end AnswerSet.CommandLine
