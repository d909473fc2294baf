import AnswerSet.CommandLine.Session

/-!
# The program

The outer layer of the command line: it looks up the files that the arguments
name, hands them to a session and prints how the session ends. It starts no
processes. The solver runs next to it on the same sources, and its output comes
in through a pipe.
-/

open AnswerSet AnswerSet.CommandLine

namespace AnswerSet.CommandLine

/-- The cause of a failed look at the file system. -/
def systemError : IO.Error → SystemError
  | .permissionDenied .. => .permissionDenied
  | .inappropriateType .. => .notDirectory
  | .invalidArgument .. => .nameTooLong
  | _ => .notFound

/-- The file or the whole directory that a path of the file system leads to. -/
partial def readTree (path : String) : IO (Except SystemError FileTree) := do
  try
    let place := (← IO.currentDir) / path
    if ← place.isDir then
      let entries ← place.readDir
      let trees ← entries.toList.mapM fun entry => do
        return (entry.fileName, ← readTree (entryPath path entry.fileName))
      return .ok (.directory (trees.filterMap fun (name, tree) =>
        tree.toOption.map fun tree => (name, tree)))
    else
      return .ok (.file (← IO.FS.readBinFile place))
  catch error => return .error (systemError error)

/-- The view of the paths that a command line names. -/
def readView (arguments : List String) : IO View := do
  let paths := match Command.ofArguments arguments with
    | .ok command => command.sources.files ++ command.sources.directory.toList
    | .error _ => []
  let trees ← paths.mapM fun path => do return (path, ← readTree path)
  return fun path => (trees.lookup path).getD (.error .notFound)

/-- All bytes of a stream. -/
partial def readAll (stream : IO.FS.Stream) (before : ByteArray) : IO ByteArray := do
  let bytes ← stream.read 65536
  if bytes.isEmpty then return before else readAll stream (before ++ bytes)

end AnswerSet.CommandLine

/-- Run a session on the output of a solver that comes in through a pipe. -/
def main (arguments : List String) : IO UInt32 := do
  let named ← IO.getEnv SolverConfig.environmentVariable
  let outcome ← match Session.start (.ofEnvironment named) (← readView arguments) arguments with
    | .over outcome => pure outcome
    | .waiting call => do
      let stdout ← readAll (← IO.getStdin) .empty
      pure (Session.resume call (.ok ⟨stdout, .empty, some 0, false⟩))
  IO.print outcome.stdout
  IO.eprint outcome.stderr
  return outcome.code.toUInt32
