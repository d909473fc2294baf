import AnswerSet.Program
import AnswerSet.SolveResult
import AnswerSet.Solver.Run
import AnswerSet.Solver.SymbolTable

/-!
# Calls of the solver

A call is a run to be made together with the reading of what it leaves behind.
Nothing is run here: whoever holds a call makes the run and hands the outcome
back. What keeps a call from being made at all, such as a program that cannot be
written, is an error before there is a call.

Solving asks for the report of the run and refuses options that would change its
form. The outcome is settled in a fixed order: a run that was stopped, then an
error exit, then the report.
-/

namespace AnswerSet

/-- A run to be made, and what its output is read as. -/
structure SolverCall (α : Type) where
  invocation : Invocation
  read : ProcessOutput → Except Error α

namespace SolverCall

variable {α β : Type}

/-- Read the outcome of the run: that it could not be made, or what it left behind. -/
def finish (call : SolverCall α) (outcome : Except SystemError RawOutput) : Except Error α := do
  let raw ← outcome.mapError .system
  call.read (← raw.decode.mapError .system)

/-- The call whose value is worked on further. -/
def andThen (call : SolverCall α) (next : α → Except Error β) : SolverCall β :=
  { call with read := fun output => (call.read output).bind next }

end SolverCall

/-! ## Options -/

/-- What the options of a solve must not contain. -/
def reservedOption : String := "--outf"

/-- Refuse the first option that touches the form of the report. -/
def validateOptions (options : List String) : Except ConstructionError Unit :=
  match options.find? fun option => Text.occursIn reservedOption.toList option.toList with
  | some option => .error (.reservedOption option)
  | none => .ok ()

/-- The options that ask for a full report of the models. -/
def reportOptions : List String := ["--outf=2", "--quiet=0,1"]

/-! ## Results -/

namespace SolveResult

/-- The result that the output of a solve tells. -/
def ofOutput (output : ProcessOutput) : Except Error SolveResult :=
  if output.killed then .ok stopped
  else do
    let warning ← output.check
    let result ← (parse output.stdout).mapError .output
    return result.withWarning warning

/-- The atoms of the schemas, schema by schema, in a result with exactly one answer. -/
def facts (result : SolveResult) (schemas : List Schema) : Except Error (List Atom) :=
  if result.status ≠ .hasSolution then
    .error (.output (.factsNotLoaded result.status.describe))
  else match result.answers with
    | [answer] => ((schemas.mapM answer.occurrences).map List.flatten).mapError .decode
    | answers => .error (.output (.severalAnswers answers.length))

end SolveResult

/-! ## The calls -/

namespace SolverConfig

/-- Run the solver with exactly the given options. -/
def run (config : SolverConfig) (text : String) (options : List String) (timeout : Option Nat) :
    SolverCall ProcessOutput :=
  ⟨⟨config, options, text, timeout⟩, .ok⟩

/-- Solve the text of a program. -/
def solveText (config : SolverConfig) (text : String) (options : List String)
    (timeout : Option Nat) : Except ConstructionError (SolverCall SolveResult) := do
  validateOptions options
  return (config.run text (options ++ reportOptions) timeout).andThen SolveResult.ofOutput

/-- Check that the text of a program can be grounded. The value is the solver's warning. -/
def checkText (config : SolverConfig) (text : String) : SolverCall (Option String) :=
  (config.run text ["--text"] none).andThen (·.check)

/-- The atoms of the ground program. -/
def groundAtoms (config : SolverConfig) (text : String) : SolverCall (List String) :=
  (config.run text ["--output=smodels"] none).andThen fun output => do
    let _ ← output.check
    return symbolTable output.stdout

/-- Load a program of facts and decode its atoms. -/
def loadFacts (config : SolverConfig) (text : String) (schemas : List Schema) :
    Except ConstructionError (SolverCall (List Atom)) :=
  (config.solveText text [] none).map (·.andThen (·.facts schemas))

end SolverConfig

/-! ## Programs -/

/-- Solve a program. -/
def Program.solve (program : Program) (config : SolverConfig) (options : List String)
    (timeout : Option Nat) : Except Error (SolverCall SolveResult) := do
  let text ← program.render.mapError .render
  (config.solveText text options timeout).mapError .construction

/-- Check that a program can be grounded. -/
def Program.check (program : Program) (config : SolverConfig) :
    Except Error (SolverCall (Option String)) := do
  return config.checkText (← program.render.mapError .render)

/-- Check that a statement can be grounded on its own. -/
def Definition.check (definition : Definition) (config : SolverConfig) :
    Except Error (SolverCall (Option String)) := do
  return config.checkText (← definition.render.mapError .render)

/-- The ground atoms of a schema in a program. -/
def Program.possibleInstances (program : Program) (config : SolverConfig) (schema : Schema) :
    Except Error (SolverCall (List Atom)) := do
  let text ← program.render.mapError .render
  return (config.groundAtoms text).andThen fun atoms =>
    ((⟨atoms, [], false⟩ : Answer).occurrences schema).mapError .decode

end AnswerSet
