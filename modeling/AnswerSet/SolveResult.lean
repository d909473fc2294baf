import AnswerSet.Report

/-!
# The result of a solve

What the library keeps of a run: whether there is a solution, the answers, and
what the solver had to say besides. Three results are known by name. All others,
an interrupted search among them, leave the status unknown. A result with a
solution takes its answers from the first call, one for each witness that lists
its atoms. A run that was stopped has neither answers nor warnings.
-/

namespace AnswerSet

/-- The outcome of a run. -/
inductive Status where
  | noSolution
  | hasSolution
  | unknown
deriving DecidableEq, Repr

/-- The status in an error message. -/
def Status.describe : Status → String
  | .noSolution => "NoSolution"
  | .hasSolution => "HasSolution"
  | .unknown => "Unknown"

/-- The result of a run. -/
structure SolveResult where
  status : Status
  answers : List Answer
  /-- The run was stopped at its time limit. -/
  killed : Bool
  /-- What the solver wrote to its error stream. -/
  warning : Option String
deriving DecidableEq, Repr

namespace SolveResult

/-- A result without answers. -/
def ofStatus (status : Status) : SolveResult := ⟨status, [], false, none⟩

/-- The result of a run that was stopped. -/
def stopped : SolveResult := { ofStatus .unknown with killed := true }

/-- The answer of a witness, unless it leaves its atoms out. -/
def answer? (optimal : Bool) (witness : Witness) : Option Answer :=
  witness.atoms.map fun atoms => ⟨atoms, witness.costs, optimal⟩

/-- The result with the answers of the first call. -/
def ofCalls (optimal : Bool) : List (List Witness) → Except OutputError SolveResult
  | [] => .error .noCall
  | witnesses :: _ =>
    .ok { ofStatus .hasSolution with answers := witnesses.filterMap (answer? optimal) }

/-- The result that a report tells. -/
def ofReport (report : Report) : Except OutputError SolveResult :=
  match report.result with
  | "UNSATISFIABLE" => .ok (ofStatus .noSolution)
  | "SATISFIABLE" => ofCalls false report.calls
  | "OPTIMUM FOUND" => ofCalls true report.calls
  | _ => .ok (ofStatus .unknown)

/-- Read the result from the solver's output. -/
def parse (stdout : String) : Except OutputError SolveResult :=
  match Report.read? stdout with
  | some report => ofReport report
  | none => .error .malformedReport

/-- The result with a warning in place of its own. -/
def withWarning (result : SolveResult) (warning : Option String) : SolveResult :=
  { result with warning }

/-- Was a solution found? -/
def hasSolution (result : SolveResult) : Bool := result.status = .hasSolution

/-- The last answer, which is the best one if the program optimises. -/
def best? (result : SolveResult) : Option Answer := result.answers.getLast?

end SolveResult

end AnswerSet
