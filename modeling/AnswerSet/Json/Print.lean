import AnswerSet.Json.Basic

/-!
# Writing JSON

Values are written over several lines, two blanks deeper with each level. Empty
arrays and objects stay on one line. Strings escape the quote, the backslash and
the control characters, and nothing else. Every value has a text that reads back
as that value, also the strings without a text and the numbers that are not
integers.
-/

namespace AnswerSet.Json

/-- The digit of a value below sixteen, in lower case. -/
def hexText (n : Nat) : List Char :=
  [Nat.digitChar (n / 4096 % 16), Nat.digitChar (n / 256 % 16), Nat.digitChar (n / 16 % 16),
    Nat.digitChar (n % 16)]

/-- A character in a string literal. -/
def escapeChar : Char → List Char
  | '"' => ['\\', '"']
  | '\\' => ['\\', '\\']
  | '\x08' => ['\\', 'b']
  | '\t' => ['\\', 't']
  | '\n' => ['\\', 'n']
  | '\x0c' => ['\\', 'f']
  | '\r' => ['\\', 'r']
  | c => if c.toNat < 0x20 then '\\' :: 'u' :: hexText c.toNat else [c]

/-- A string literal. One surrogate stands for all literals without a text. -/
def literal : Option String → String
  | some text => "\"" ++ .ofList (text.toList.flatMap escapeChar) ++ "\""
  | none => "\"\\ud800\""

/-- The start of a line at the given depth. -/
def lineStart (depth : Nat) : String := "\n" ++ .ofList (List.replicate (2 * depth) ' ')

/-- Items between brackets, each on a line of its own. -/
def bracketed (opening closing : String) (depth : Nat) : List String → String
  | [] => opening ++ closing
  | items =>
    opening ++ lineStart (depth + 1) ++ ("," ++ lineStart (depth + 1)).intercalate items
      ++ lineStart depth ++ closing

mutual

/-- Write a value whose first line starts at the given depth. -/
def pretty (depth : Nat) : Json → String
  | .null => "null"
  | .bool true => "true"
  | .bool false => "false"
  | .integer n => toString n
  | .nonInteger => "-0"
  | .string text => literal text
  | .array items => bracketed "[" "]" depth (prettyItems (depth + 1) items)
  | .object members => bracketed "\x7b" "\x7d" depth (prettyMembers (depth + 1) members)

/-- Write the items of an array. -/
def prettyItems (depth : Nat) : List Json → List String
  | [] => []
  | item :: items => item.pretty depth :: prettyItems depth items

/-- Write the members of an object. -/
def prettyMembers (depth : Nat) : List (Option String × Json) → List String
  | [] => []
  | (name, value) :: members =>
    (literal name ++ ": " ++ value.pretty depth) :: prettyMembers depth members

end

end AnswerSet.Json
