import AnswerSet.Atom.Arguments
import AnswerSet.Atom.Build

/-!
# Reading atoms back

The solver reports each true atom as flat text. Given the schema it is expected
to follow, the text is cut into arguments and each argument is typed by its
field. The number of arguments has to be the number of fields that are not
constants, and the constants are put back in place.

An argument of any kind is read as the first of a string, a truth value and an
integer that it is, and is kept as a symbol if it is none of them. An error tells
the first field that does not read, with the fields on the way to it.
-/

namespace AnswerSet

/-- Read a plain value. -/
def ScalarKind.read? : ScalarKind → List Char → Option Term
  | .integer, cs => (Text.readWord? cs).map .int
  | .string, cs => (Text.unquote? cs).map fun inner => .str (.ofList (Text.unescape inner))
  | .boolean, ['t', 'r', 'u', 'e'] => some (.bool true)
  | .boolean, ['f', 'a', 'l', 's', 'e'] => some (.bool false)
  | .boolean, _ => none

/-- Read a value of any kind. -/
def readAny (cs : List Char) : Term :=
  match [ScalarKind.string, .boolean, .integer].findSome? (·.read? cs) with
  | some term => term
  | none => .symbol (.ofList cs)

/-- Is the text a value that no atom can be? -/
def isPlainValue (cs : List Char) : Bool :=
  (Text.unquote? cs).isSome || (Text.readWord? cs).isSome

mutual

/-- Read an atom of the schema under the given predicate. -/
def Schema.read (predicate : String) (cs : List Char) : Schema → Except DecodeError Atom
  | ⟨name, fields⟩ =>
    let text := String.ofList (Text.trim cs)
    let found := arguments predicate.toList cs
    let schema : Schema := ⟨name, fields⟩
    if !isAtomOf predicate.toList cs then .error (.otherPredicate text predicate)
    else if found.length ≠ schema.arity then
      .error (.wrongArgumentCount text name found.length schema.arity)
    else do
      let values ← readFields name fields found
      (Atom.ofValues schema values).mapError (.unbuildable text)

/-- Read the arguments of the fields that are not constants, from left to right. -/
def readFields (predicate : String) :
    List Field → List (List Char) → Except DecodeError (List FieldValue)
  | [], _ => .ok []
  | ⟨_, .constant _⟩ :: fields, found => readFields predicate fields found
  | _ :: _, [] => .ok []
  | ⟨name, kind⟩ :: fields, cs :: found => do
    let value ← (kind.read cs).mapError (.inField name predicate)
    return value :: (← readFields predicate fields found)

/-- Read one argument. -/
def FieldKind.read : FieldKind → List Char → Except DecodeError FieldValue
  | .atom schema, cs =>
    if isPlainValue cs then .error (.notAtom schema.predicate (.ofList cs))
    else do return .atom (← schema.read schema.predicate cs)
  | .scalar kind, cs =>
    match kind.read? cs with
    | some term => .ok (.term term)
    | none => .error (.notScalar kind (.ofList cs))
  | .any, cs => .ok (.term (readAny cs))
  | .constant _, _ => .error .constantArgument

end

/-- Read an atom of the schema from text that starts with the given predicate. -/
def Schema.decode (schema : Schema) (predicate text : String) : Except DecodeError Atom :=
  schema.read predicate text.toList

end AnswerSet
