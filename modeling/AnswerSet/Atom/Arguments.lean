import AnswerSet.Text.Blank
import AnswerSet.Text.Split

/-!
# The arguments of an atom's text

The arguments of `p(1,"a,b",q(2,3))` are cut apart at the commas that stand
outside of strings and of inner parentheses. A scanner keeps track of both: it is
outside strings at some depth of parentheses, inside a string, or behind a
backslash in a string. Text that is not well formed is scanned all the same. A
parenthesis that closes nothing leaves the depth at zero, and a string that does
not end takes in the rest.
-/

namespace AnswerSet

/-- Where the scanner stands. Strings remember the depth at which they opened. -/
inductive Scan where
  | outside (depth : Nat)
  | inside (depth : Nat)
  | escaped (depth : Nat)
deriving DecidableEq, Repr

namespace Scan

/-- Move over one character. -/
def step : Scan → Char → Scan
  | outside depth, '"' => inside depth
  | outside depth, '(' => outside (depth + 1)
  | outside depth, ')' => outside (depth - 1)
  | outside depth, _ => outside depth
  | inside depth, '\\' => escaped depth
  | inside depth, '"' => outside depth
  | inside depth, _ => inside depth
  | escaped depth, _ => inside depth

/-- Move over a text. -/
def run (scan : Scan) (cs : List Char) : Scan := cs.foldl step scan

/-- Is the character a comma between arguments? -/
def separates (scan : Scan) (c : Char) : Bool := scan = outside 0 && c = ','

/-- The pieces of a text between its separating commas. -/
def pieces : Scan → List Char → List (List Char)
  | _, [] => [[]]
  | scan, c :: cs =>
    if scan.separates c then [] :: pieces (scan.step c) cs
    else Text.consFirst c (pieces (scan.step c) cs)

end Scan

/-! ## From the text of an atom -/

/-- The text without one full stop at its end. -/
def dropStop (cs : List Char) : List Char :=
  if cs.getLast? = some '.' then cs.dropLast else cs

/-- The text without the parentheses around it, if it starts and ends with them. -/
def dropParens : List Char → List Char
  | '(' :: rest => if rest.getLast? = some ')' then rest.dropLast else '(' :: rest
  | cs => cs

/-- What stands between the parentheses of an atom of the predicate. -/
def argumentText (predicate text : List Char) : List Char :=
  let inner := Text.trim text
  let inner := (Text.dropPrefix? predicate inner).getD inner
  dropParens (Text.trim (dropStop inner))

/-- The arguments of an atom of the predicate, without blanks around them. -/
def arguments (predicate text : List Char) : List (List Char) :=
  let inner := argumentText predicate text
  if (Text.trim inner).isEmpty then []
  else ((Scan.outside 0).pieces inner).map Text.trim

/-- Is the text an atom of the predicate: its name, then nothing, a full stop or arguments? -/
def isAtomOf (predicate text : List Char) : Bool :=
  match Text.dropPrefix? predicate (Text.trim text) with
  | none => false
  | some rest => rest.isEmpty || rest.head? = some '(' || rest = ['.']

/-- `arguments` on strings. -/
def splitArguments (predicate text : String) : List String :=
  (arguments predicate.toList text.toList).map String.ofList

/-- `isAtomOf` on strings. -/
def matchesPredicate (predicate text : String) : Bool :=
  isAtomOf predicate.toList text.toList

end AnswerSet
