/-!
# Configuration of the solver

The executable is the one that the environment names, unless it names none; a
caller can replace it, as well as the directory for the files of a run and the
time that the solver is given to stop by itself.
-/

namespace AnswerSet

/-- How the solver is found and run. -/
structure SolverConfig where
  /-- A path, or a name that is looked up. -/
  executable : String
  /-- Milliseconds between the request to stop and the end of patience. -/
  gracePeriod : Nat
  /-- The directory for the files of a run, unless it is the system's. -/
  temporaryDirectory : Option String
deriving DecidableEq, Repr

namespace SolverConfig

/-- The environment variable that names the executable. -/
def environmentVariable : String := "ASPIRE_SOLVER"

/-- The executable that is used when nothing names another. -/
def defaultExecutable : String := "clingo"

/-- The configuration under a value of the environment variable. -/
def ofEnvironment (named : Option String) : SolverConfig where
  executable :=
    match named with
    | none | some "" => defaultExecutable
    | some executable => executable
  gracePeriod := 3000
  temporaryDirectory := none

end SolverConfig

end AnswerSet
