import AnswerSet.Text.Blank
import AnswerSet.Text.Integer

/-!
# Arguments of the command line

The first argument names a command, the others are files and options of that
command. An option takes its value from behind an equals sign, from the rest of
a short option, or from the next argument. The next argument must not look like
an option itself, except for an option that is passed on to the solver, which
takes anything. After two dashes all arguments are files.

Arguments are taken from left to right, and the first one that settles the
matter decides: a request for help or for the version, or a mistake.
-/

namespace AnswerSet.CommandLine

/-- Where the program text comes from. -/
structure Sources where
  files : List String
  directory : Option String
deriving DecidableEq, Repr

/-- What the command line asks for. -/
inductive Command where
  /-- Solve and show the answers. The time limit is in seconds. -/
  | solve (sources : Sources) (solver : Option String) (timeout models : Option Nat)
    (options : List String) (json : Bool)
  /-- Check that the program can be grounded. -/
  | check (sources : Sources) (solver : Option String)
  /-- Show the ground atoms. -/
  | ground (sources : Sources) (solver : Option String) (predicate : Option String) (json : Bool)
deriving DecidableEq, Repr

/-- Where the program of a command comes from. -/
def Command.sources : Command → Sources
  | .solve sources .. => sources
  | .check sources _ => sources
  | .ground sources .. => sources

/-- Why there is no command to run. -/
inductive Exit where
  | help
  | version
  | usage
deriving DecidableEq, Repr

/-! ## Options -/

/-- The commands. -/
inductive Verb where
  | solve
  | check
  | ground
deriving DecidableEq, Repr

/-- The command of a name. -/
def Verb.ofName? : String → Option Verb
  | "solve" => some .solve
  | "check" => some .check
  | "ground" => some .ground
  | _ => none

/-- The options that take a value. -/
inductive Setting where
  | directory
  | solver
  | timeout
  | models
  | solverOption
  | predicate
deriving DecidableEq, Repr

/-- All options. -/
inductive Switch where
  | setting (setting : Setting)
  | json
  | help
deriving DecidableEq, Repr

/-- The options of a command with their long names. -/
def Verb.longOptions : Verb → List (String × Switch)
  | .solve => [("dir", .setting .directory), ("solver", .setting .solver),
    ("timeout", .setting .timeout), ("models", .setting .models),
    ("option", .setting .solverOption), ("json", .json), ("help", .help)]
  | .check => [("dir", .setting .directory), ("solver", .setting .solver), ("help", .help)]
  | .ground => [("dir", .setting .directory), ("solver", .setting .solver),
    ("predicate", .setting .predicate), ("json", .json), ("help", .help)]

/-- The options of a command with their short names. -/
def Verb.shortOptions : Verb → List (Char × Switch)
  | .solve => [('d', .setting .directory), ('t', .setting .timeout), ('n', .setting .models),
    ('o', .setting .solverOption), ('h', .help)]
  | .check => [('d', .setting .directory), ('h', .help)]
  | .ground => [('d', .setting .directory), ('p', .setting .predicate), ('h', .help)]

/-- What an argument is. -/
inductive Argument where
  | file
  /-- Two dashes: files from here on. -/
  | filesOnly
  | switch (switch : Switch) (value : Option String)
  | unknown
deriving DecidableEq, Repr

/-- A name and the value behind the first equals sign. -/
def splitValue : List Char → List Char × Option String
  | [] => ([], none)
  | '=' :: cs => ([], some (.ofList cs))
  | c :: cs => (c :: (splitValue cs).1, (splitValue cs).2)

/-- The value in the rest of a short option. An equals sign in front of it is dropped. -/
def attachedValue : List Char → Option String
  | [] => none
  | '=' :: cs => some (.ofList cs)
  | cs => some (.ofList cs)

/-- Tell what an argument of a command is. A single dash is a file. -/
def Verb.classify (verb : Verb) (argument : String) : Argument :=
  match argument.toList with
  | ['-', '-'] => .filesOnly
  | '-' :: '-' :: cs =>
    match verb.longOptions.lookup (.ofList (splitValue cs).1) with
    | some switch => .switch switch (splitValue cs).2
    | none => .unknown
  | '-' :: c :: cs =>
    match verb.shortOptions.lookup c with
    | some .help => .switch .help none
    | some switch => .switch switch (attachedValue cs)
    | none => .unknown
  | _ => .file

/-- Does the argument start like an option? -/
def looksLikeOption (argument : String) : Bool :=
  match argument.toList with
  | '-' :: _ :: _ => true
  | _ => false

/-! ## Values -/

/-- What has been given so far. -/
structure Settings where
  files : List String
  directory : Option String
  solver : Option String
  timeout : Option Nat
  models : Option Nat
  options : List String
  predicate : Option String
  json : Bool
deriving DecidableEq, Repr

namespace Settings

/-- Nothing given. -/
def empty : Settings := ⟨[], none, none, none, none, [], none, false⟩

/-- Read a number of seconds: 64 bits, without a minus sign. -/
def readTimeout? (value : String) : Option Nat :=
  let digits := match value.toList with
    | '+' :: cs => cs
    | cs => cs
  (Text.readNat? digits).filter (· < UInt64.size)

/-- Read a number of answers: 32 bits, zero with any sign. -/
def readModels? (value : String) : Option Nat :=
  match Text.readInt? value.toList with
  | some n => if 0 ≤ n ∧ n < UInt32.size then some n.toNat else none
  | none => none

/-- Fill a place that is still empty. -/
def fill? {α : Type} (place : Option α) (value : Option α) : Option α :=
  if place.isSome then none else value

/-- A path is not empty. -/
def path? (value : String) : Option String := if value.isEmpty then none else some value

/-- Give a value to an option. Only options for the solver can be given again. -/
def set? (settings : Settings) (setting : Setting) (value : String) : Option Settings :=
  match setting with
  | .directory =>
    (fill? settings.directory (path? value)).map ({ settings with directory := some · })
  | .solver => (fill? settings.solver (path? value)).map ({ settings with solver := some · })
  | .timeout =>
    (fill? settings.timeout (readTimeout? value)).map ({ settings with timeout := some · })
  | .models => (fill? settings.models (readModels? value)).map ({ settings with models := some · })
  | .solverOption => some { settings with options := settings.options ++ [value] }
  | .predicate =>
    (fill? settings.predicate (some value)).map ({ settings with predicate := some · })

/-- Ask for JSON, which can be done once. -/
def setJson? (settings : Settings) : Option Settings :=
  if settings.json then none else some { settings with json := true }

/-- Add a file. -/
def addFile? (settings : Settings) (file : String) : Option Settings :=
  (path? file).map fun file => { settings with files := settings.files ++ [file] }

/-- The command with these settings. -/
def command (settings : Settings) : Verb → Command
  | .solve => .solve ⟨settings.files, settings.directory⟩ settings.solver settings.timeout
    settings.models settings.options settings.json
  | .check => .check ⟨settings.files, settings.directory⟩ settings.solver
  | .ground => .ground ⟨settings.files, settings.directory⟩ settings.solver settings.predicate
    settings.json

end Settings

/-! ## Reading -/

/-- Take a step that can fail only by a mistake of the user. -/
def orUsage {α : Type} : Option α → Except Exit α
  | some value => .ok value
  | none => .error .usage

/-- Read the arguments of a command, the first of which may be the value of an option. -/
def Verb.read (verb : Verb) (settings : Settings) :
    (pending : Option Setting) → List String → Except Exit Settings
  | none, [] => .ok settings
  | some _, [] => .error .usage
  | some setting, value :: rest =>
    if setting = .solverOption || !looksLikeOption value then do
      verb.read (← orUsage (settings.set? setting value)) none rest
    else .error .usage
  | none, argument :: rest =>
    match verb.classify argument with
    | .file => do verb.read (← orUsage (settings.addFile? argument)) none rest
    | .filesOnly => orUsage (rest.foldlM Settings.addFile? settings)
    | .switch (.setting setting) (some value) => do
      verb.read (← orUsage (settings.set? setting value)) none rest
    | .switch (.setting setting) none => verb.read settings (some setting) rest
    | .switch .json none => do verb.read (← orUsage settings.setJson?) none rest
    | .switch .help none => .error .help
    | _ => .error .usage

/-- May the arguments follow the command that shows help? -/
def isHelpTopic : List String → Bool
  | [] => true
  | ["help"] => true
  | [name] => (Verb.ofName? name).isSome
  | _ => false

/-- Read a command line. -/
def Command.ofArguments : List String → Except Exit Command
  | [] => .error .usage
  | first :: rest =>
    match Verb.ofName? first, first.toList with
    | some verb, _ => (verb.read .empty none rest).map (·.command verb)
    | none, '-' :: '-' :: _ =>
      if first = "--help" then .error .help
      else if first = "--version" then .error .version
      else .error .usage
    | none, '-' :: 'h' :: _ => .error .help
    | none, '-' :: 'V' :: _ => .error .version
    | none, _ => if first = "help" && isHelpTopic rest then .error .help else .error .usage

end AnswerSet.CommandLine
