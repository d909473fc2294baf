import AnswerSet.Keyword

/-!
# What can go wrong

A failure is one of six kinds: a value that cannot be built, a program that
cannot be written, text that does not decode, a solver that reports an error, a
solver that prints something other than its report, and an operating system that
does not cooperate. Each kind lists its causes, and the wording of a cause is
settled in one place, its `message`.
-/

namespace AnswerSet

/-- What a field was declared for. -/
inductive Expected where
  | kind (name : String)
  | atom (predicate : String)
deriving DecidableEq, Repr

/-- What a field was given. -/
inductive Found where
  | term (text : String)
  | atom (predicate : String)
deriving DecidableEq, Repr

/-- The declared kind, in words. -/
def Expected.describe : Expected → String
  | .kind name => name
  | .atom predicate => s!"atom '{predicate}'"

/-- The given value, in words. -/
def Found.describe : Found → String
  | .term text => s!"'{text}'"
  | .atom predicate => s!"atom '{predicate}'"

/-- Why a value cannot be built. -/
inductive ConstructionError where
  | emptyVariableName
  | integerTooLarge (n : Nat)
  | invalidPredicate (predicate : String)
  | emptyFieldName (position : Nat) (predicate : String)
  | duplicateField (field predicate : String)
  | wrongValueCount (predicate : String) (expected found : Nat)
  | unknownField (predicate field : String)
  | constantField (field predicate : String)
  | wrongKind (field predicate : String) (expected : Expected) (found : Found)
  | notRemembered (predicate tag : String)
  | thirdNegation
  | unweightedElements (kind : AggregateKind)
  | emptyGuess
  | conflictingBounds
  | noHead
  | reservedOption (option : String)
deriving DecidableEq, Repr

/-- The cause in words. -/
def ConstructionError.describe : ConstructionError → String
  | .emptyVariableName => "Variable name cannot be empty"
  | .integerTooLarge n => s!"{n} does not fit in an integer term"
  | .invalidPredicate predicate =>
    s!"Invalid predicate name '{predicate}': must start with a lowercase letter"
  | .emptyFieldName position predicate => s!"Field {position} of '{predicate}' has an empty name"
  | .duplicateField field predicate => s!"Duplicate field '{field}' in '{predicate}'"
  | .wrongValueCount predicate expected found =>
    s!"'{predicate}' expects {expected} values, got {found}"
  | .unknownField predicate field => s!"'{predicate}' has no field '{field}'"
  | .constantField field predicate =>
    s!"Field '{field}' of '{predicate}' is a constant and cannot be set"
  | .wrongKind field predicate expected found =>
    s!"Field '{field}' of '{predicate}' expects {expected.describe}, got {found.describe}"
  | .notRemembered predicate tag => s!"No '{predicate}' atom remembered as '{tag}'"
  | .thirdNegation =>
    "Cannot negate a doubly negated literal: at most two 'not' markers are allowed"
  | .unweightedElements kind =>
    s!"#{kind.name} needs weighted elements: use a conditional literal, not a literal set"
  | .emptyGuess => "Unexpected empty head set for guess"
  | .conflictingBounds =>
    "Error while building guess: exactly is incompatible with at_least and at_most"
  | .noHead => "Expected at least one head for define"
  | .reservedOption option =>
    s!"Option '{option}' is reserved: the output format is always JSON"

/-- Why a program cannot be written. -/
inductive RenderError where
  | emptyConditional
  | missingBound (kind : AggregateKind)
  | emptyLiteralSet (kind : AggregateKind)
  | emptyBody
deriving DecidableEq, Repr

/-- The cause in words. -/
def RenderError.describe : RenderError → String
  | .emptyConditional => "Conditional literal has no elements"
  | .missingBound kind => s!"#{kind.name} aggregate is missing its operator and bound"
  | .emptyLiteralSet kind => s!"#{kind.name} aggregate has an empty literal set"
  | .emptyBody => "Constraint has an empty body: add disjuncts or a when condition"

/--
Why text does not decode as an atom of a schema, or why a field of an atom
cannot be read as asked.
-/
inductive DecodeError where
  | otherPredicate (text predicate : String)
  | wrongArgumentCount (text predicate : String) (found expected : Nat)
  | inField (field predicate : String) (cause : DecodeError)
  | notAtom (predicate text : String)
  | notScalar (kind : ScalarKind) (text : String)
  | constantArgument
  | unbuildable (text : String) (cause : ConstructionError)
  | noField (predicate field : String)
  | holdsAtom (field predicate : String)
  | unbound (field predicate kind : String)
deriving DecidableEq, Repr

/-- What stands before the words of a construction error. -/
def constructionLabel : String := "Construction error: "

/-- The cause in words, with the path of fields that leads to it. -/
def DecodeError.describe : DecodeError → String
  | .otherPredicate text predicate => s!"'{text}' is not an atom of '{predicate}'"
  | .wrongArgumentCount text predicate found expected =>
    s!"'{text}' has {found} arguments but '{predicate}' expects {expected}"
  | .inField field predicate cause => s!"Field '{field}' of '{predicate}': {cause.describe}"
  | .notAtom predicate text => s!"expected atom '{predicate}', got '{text}'"
  | .notScalar kind text => s!"expected {kind.name}, got '{text}'"
  | .constantArgument => "constant fields are not decoded"
  | .unbuildable text cause => s!"'{text}': {constructionLabel}{cause.describe}"
  | .noField predicate field => s!"'{predicate}' has no field '{field}'"
  | .holdsAtom field predicate => s!"Field '{field}' of '{predicate}' holds an atom, not a term"
  | .unbound field predicate kind => s!"Field '{field}' of '{predicate}' is not a bound {kind}"

/-- Why the solver's output cannot be used. -/
inductive OutputError where
  | malformedReport
  | noCall
  | factsNotLoaded (status : String)
  | severalAnswers (count : Nat)
deriving DecidableEq, Repr

/-- The cause in words. -/
def OutputError.describe : OutputError → String
  | .malformedReport => "JSON parse error"
  | .noCall => "result has no solver call"
  | .factsNotLoaded status => s!"facts did not load: solver status is {status}"
  | .severalAnswers count => s!"facts must have exactly one answer, got {count}"

/-- What the operating system refuses. -/
inductive SystemError where
  | notFound
  | permissionDenied
  | notDirectory
  | isDirectory
  | nameTooLong
  | argumentTooLong
  | nulInArgument
  | invalidUtf8
deriving DecidableEq, Repr

/-- The operating system's words for it. -/
def SystemError.describe : SystemError → String
  | .notFound => "No such file or directory (os error 2)"
  | .permissionDenied => "Permission denied (os error 13)"
  | .notDirectory => "Not a directory (os error 20)"
  | .isDirectory => "Is a directory (os error 21)"
  | .nameTooLong => "File name too long (os error 36)"
  | .argumentTooLong => "Argument list too long (os error 7)"
  | .nulInArgument => "nul byte found in provided data"
  | .invalidUtf8 => "stream did not contain valid UTF-8"

/-- Any failure of the library. -/
inductive Error where
  | construction (cause : ConstructionError)
  | render (cause : RenderError)
  | process (exitCode : Int) (stderr : String)
  | decode (cause : DecodeError)
  | output (cause : OutputError)
  | system (cause : SystemError)
deriving DecidableEq, Repr

/-- The full message of a failure. -/
def Error.message : Error → String
  | .construction cause => constructionLabel ++ cause.describe
  | .render cause => s!"Render error: {cause.describe}"
  | .process exitCode stderr => s!"Solver error (exit code {exitCode}): {stderr}"
  | .decode cause => s!"Decode error: {cause.describe}"
  | .output cause => s!"Unexpected solver output: {cause.describe}"
  | .system cause => s!"I/O error: {cause.describe}"

end AnswerSet
