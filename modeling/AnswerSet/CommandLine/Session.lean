import AnswerSet.CommandLine.Arguments
import AnswerSet.CommandLine.Display
import AnswerSet.CommandLine.FileTree
import AnswerSet.Solver.Call

/-!
# A session of the command line

A session reads its arguments, loads the program and makes one call of the
solver. Files come in the order in which they are given, then the programs under
the directory. Everything up to the call and everything after it is decided
here. The call itself is left to whoever can start a process.

What the files are is asked of a view that tells what a path leads to.
-/

namespace AnswerSet.CommandLine

/-- Why a command fails. -/
inductive CommandError where
  | noProgram
  | unreadable (path : String) (cause : SystemError)
  | directoryFailed (path : String) (cause : SystemError)
  | emptyDirectory (path : String)
  | library (cause : Error)
deriving DecidableEq, Repr

/-- The cause in words. -/
def CommandError.message : CommandError → String
  | .noProgram => "No program given: pass .lp files or --dir"
  | .unreadable path cause => s!"Cannot read {path}: {cause.describe}"
  | .directoryFailed path cause => s!"IO error for operation on {path}: {cause.describe}"
  | .emptyDirectory path => s!"No .lp files found under {path}"
  | .library cause => cause.message

/-! ## Loading -/

/-- What a path leads to. -/
abbrev View := String → Except SystemError FileTree

/-- The programs under a directory, of which there has to be one. -/
def programsUnder (view : View) (directory : String) :
    Except CommandError (List (String × FileTree)) := do
  let tree ← (view directory).mapError (.directoryFailed directory)
  match tree.programs directory with
  | .error path => throw (.directoryFailed path .nameTooLong)
  | .ok [] => throw (.emptyDirectory directory)
  | .ok programs => return programs

/-- What lies in a listing, reached by its path. -/
def reach (path : String) (tree : FileTree) : Except SystemError FileTree :=
  if isTooLong path then .error .nameTooLong else .ok tree

/-- The texts of all sources, in order. -/
def Sources.load (view : View) (sources : Sources) : Except CommandError (List String) := do
  let named := sources.files.map fun path => (path, view path)
  let found ← match sources.directory with
    | some directory => programsUnder view directory
    | none => pure []
  match named ++ found.map fun (path, tree) => (path, reach path tree) with
  | [] => throw .noProgram
  | programs => programs.mapM fun (path, tree) =>
    (tree.bind FileTree.text).mapError (.unreadable path)

/-- A text whose last line ends. -/
def endLine (text : String) : String :=
  if text.toList.getLast? = some '\n' then text else text ++ "\n"

/-- The text of a program in several files. -/
def programText (texts : List String) : String := String.join (texts.map endLine)

/-! ## Commands -/

/-- The configuration with the executable that an option names. -/
def withExecutable (config : SolverConfig) (executable : Option String) : SolverConfig :=
  { config with executable := executable.getD config.executable }

/-- The call that a command makes, read as what it shows. -/
def Command.call (config : SolverConfig) (view : View) :
    Command → Except CommandError (SolverCall String)
  | .solve sources solver timeout models options json => do
    let texts ← sources.load view
    let bound := match models with
      | some count => [s!"--models={count}"]
      | none => []
    let call ← ((withExecutable config solver).solveText (programText texts) (options ++ bound)
      (timeout.map (· * 1000))).mapError (CommandError.library ∘ Error.construction)
    return call.andThen fun result =>
      .ok (if json then (resultJson result).pretty 0 ++ "\n" else resultText result)
  | .check sources solver => do
    let texts ← sources.load view
    return ((withExecutable config solver).checkText (programText texts)).andThen fun _ =>
      .ok s!"OK: {texts.length} file(s) parsed and grounded\n"
  | .ground sources solver predicate json => do
    let texts ← sources.load view
    let isAsked := fun atom => (predicate.map (matchesPredicate · atom)).getD true
    return ((withExecutable config solver).groundAtoms (programText texts)).andThen fun atoms =>
      let atoms := atoms.filter isAsked
      .ok (if json then (groundJson predicate atoms).pretty 0 ++ "\n"
        else groundText predicate atoms)

/-! ## Sessions -/

/-- How a session ends. -/
structure Outcome where
  code : Nat
  stdout : String
  stderr : String
deriving DecidableEq, Repr

/-- The end of a command. -/
def Outcome.ofResult : Except CommandError String → Outcome
  | .ok shown => ⟨0, shown, ""⟩
  | .error cause => ⟨1, "", s!"Error: {cause.message}\n"⟩

/-- The name and version of the program. -/
def versionText : String := "aspire 0.1.0\n"

/-- A summary of the command line. -/
def usageText : String :=
  "Usage: solve|check|ground [FILES] [--dir DIR] [--solver SOLVER] [OPTIONS]\n"

/-- The end of a session without a command. -/
def Outcome.ofExit : Exit → Outcome
  | .help => ⟨0, usageText, ""⟩
  | .version => ⟨0, versionText, ""⟩
  | .usage => ⟨2, "", usageText⟩

/-- A session: over, or waiting for the solver. -/
inductive Session where
  | over (outcome : Outcome)
  | waiting (call : SolverCall String)

/-- Start a session. -/
def Session.start (config : SolverConfig) (view : View) (arguments : List String) : Session :=
  match Command.ofArguments arguments with
  | .error exit => .over (.ofExit exit)
  | .ok command =>
    match command.call config view with
    | .error cause => .over (.ofResult (.error cause))
    | .ok call => .waiting call

/-- Why nothing in view starts as a solver. A name with a slash is a path, and what it leads to is
no program. Any other name is one of an installed program, and none of those has it. -/
def startFailure (view : View) (executable : String) : SystemError :=
  if executable.contains '/' then
    match view executable with
    | .error cause => cause
    | .ok _ => .permissionDenied
  else if executable = "." || executable = ".." then .permissionDenied
  else if nameLimit < executable.utf8ByteSize then .nameTooLong
  else .notFound

/-- End a session with the outcome of its call. -/
def Session.resume (call : SolverCall String) (outcome : Except SystemError RawOutput) : Outcome :=
  .ofResult ((call.finish outcome).mapError .library)

end AnswerSet.CommandLine
