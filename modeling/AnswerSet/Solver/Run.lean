import AnswerSet.Solver.Config
import AnswerSet.Text.Blank
import AnswerSet.Error

/-!
# Runs of the solver

A run is described before it is made: the configuration, the options, the text
of the program and the time limit. The program goes into a file, which is the
last argument. What the run leaves behind is bytes and an exit code.

The standard output has to be UTF-8, unless the run was stopped: then nothing of
it is kept. An error stream that is not UTF-8 counts as empty. Two exit codes
stand for errors of the program or of the solver; with any other code, what the
error stream says is a warning.
-/

namespace AnswerSet

/-- A run to be made. -/
structure Invocation where
  config : SolverConfig
  options : List String
  program : String
  /-- Milliseconds after which the run is stopped. -/
  timeout : Option Nat
deriving DecidableEq, Repr

/-- The arguments of a run whose program is in the given file. -/
def Invocation.arguments (invocation : Invocation) (file : String) : List String :=
  invocation.options ++ [file]

/-- The most bytes that an argument of a process has. -/
def argumentLimit : Nat := 131071

/-- Why the options cannot be handed to any process, if they cannot. A null character would end
an option early. -/
def Invocation.refusal? (invocation : Invocation) : Option SystemError :=
  if invocation.options.any (·.contains '\x00') then some .nulInArgument
  else if invocation.options.any (argumentLimit < ·.utf8ByteSize) then some .argumentTooLong
  else none

/-- What a run leaves behind. -/
structure RawOutput where
  stdout : ByteArray
  stderr : ByteArray
  /-- Missing if a signal ended the run. -/
  exitCode : Option Int
  /-- The run was stopped at its time limit. -/
  killed : Bool

/-- With a time limit of zero the run is stopped before the solver does anything. -/
def Invocation.hasNoTime (invocation : Invocation) : Bool := invocation.timeout = some 0

/-- What a run leaves behind that is stopped at its time limit, where the solver would have
written the given errors by then. -/
def Invocation.stopped (invocation : Invocation) (stderr : ByteArray) : RawOutput :=
  ⟨.empty, if invocation.hasNoTime then .empty else stderr, none, true⟩

/-- What a run leaves behind, as text. -/
structure ProcessOutput where
  stdout : String
  stderr : String
  exitCode : Option Int
  killed : Bool
deriving DecidableEq, Repr

/-- The texts of a run. -/
def RawOutput.decode (raw : RawOutput) : Except SystemError ProcessOutput :=
  let stderr := (String.fromUTF8? raw.stderr).getD ""
  if raw.killed then .ok ⟨"", stderr, raw.exitCode, true⟩
  else match String.fromUTF8? raw.stdout with
    | some stdout => .ok ⟨stdout, stderr, raw.exitCode, false⟩
    | none => .error .invalidUtf8

/-- Streams that were written as texts are read as these texts. -/
theorem RawOutput.decode_toUTF8 (stdout stderr : String) (exitCode : Option Int) :
    RawOutput.decode ⟨stdout.toUTF8, stderr.toUTF8, exitCode, false⟩
      = .ok ⟨stdout, stderr, exitCode, false⟩ := by
  have hread : ∀ text : String, String.fromUTF8? text.toUTF8 = some text :=
    fun text => dif_pos text.isValidUTF8
  rw [RawOutput.decode, hread, hread]
  rfl

namespace ProcessOutput

/-- The exit codes that stand for errors. -/
def errorCodes : List Int := [1, 65]

/-- Did the run end with an error? -/
def isError (output : ProcessOutput) : Bool :=
  match output.exitCode with
  | some code => errorCodes.contains code
  | none => false

/-- What the error stream says, if it says anything. -/
def warning? (output : ProcessOutput) : Option String :=
  let said := Text.strip output.stderr
  if said.isEmpty then none else some said

/-- The warning of a run, or the error that it ended with. -/
def check (output : ProcessOutput) : Except Error (Option String) :=
  match output.exitCode with
  | some code =>
    if errorCodes.contains code then .error (.process code (Text.strip output.stderr))
    else .ok output.warning?
  | none => .ok output.warning?

end ProcessOutput

end AnswerSet
