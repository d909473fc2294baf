import AnswerSet.Json.Token

/-!
# JSON values

A document is read by a machine over its tokens. It keeps the arrays and objects
that are still open on a stack, so documents of any depth are read in one pass.
Members of objects stay in order, and repeated names are kept: what they mean is
left to whoever reads the value.
-/

namespace AnswerSet

/-- A JSON value. Strings and names without a text name a surrogate without a partner. -/
inductive Json where
  | null
  | bool (b : Bool)
  | integer (n : Int)
  | nonInteger
  | string (text : Option String)
  | array (items : List Json)
  | object (members : List (Option String × Json))

namespace Json

/-- The value of a string. -/
def str (text : String) : Json := .string (some text)

/-- The object with the given members. -/
def record (members : List (String × Json)) : Json :=
  .object (members.map fun (name, value) => (some name, value))

/-- An array or object that is still open, with what it has so far in reverse. -/
inductive Frame where
  | array (items : List Json)
  /-- An object that waits for the value of a name. -/
  | object (members : List (Option String × Json)) (name : Option String)

/-- What the reader waits for. -/
inductive Reader where
  /-- A value. -/
  | value (stack : List Frame)
  /-- The first value of an array, or its end. -/
  | firstItem (stack : List Frame)
  /-- The first name of an object, or its end. -/
  | firstName (stack : List Frame)
  /-- The next name of an object. -/
  | name (members : List (Option String × Json)) (stack : List Frame)
  /-- The colon behind a name. -/
  | colon (members : List (Option String × Json)) (name : Option String) (stack : List Frame)
  /-- What follows a value: a comma, the end of what it stands in, or the end of the text. -/
  | after (value : Json) (stack : List Frame)

namespace Reader

/-- Take the first token of a value. -/
def start (stack : List Frame) : Token → Option Reader
  | .null => some (after .null stack)
  | .bool b => some (after (.bool b) stack)
  | .integer n => some (after (.integer n) stack)
  | .nonInteger => some (after .nonInteger stack)
  | .string text => some (after (.string text) stack)
  | .openArray => some (firstItem stack)
  | .openObject => some (firstName stack)
  | _ => none

/-- Take a token. -/
def step : Reader → Token → Option Reader
  | value stack, token => start stack token
  | firstItem stack, .closeArray => some (after (.array []) stack)
  | firstItem stack, token => start (.array [] :: stack) token
  | firstName stack, .closeObject => some (after (.object []) stack)
  | firstName stack, .string text => some (colon [] text stack)
  | firstName _, _ => none
  | name members stack, .string text => some (colon members text stack)
  | name _ _, _ => none
  | colon members text stack, .colon => some (value (.object members text :: stack))
  | colon _ _ _, _ => none
  | after v (.array items :: stack), .comma => some (value (.array (v :: items) :: stack))
  | after v (.array items :: stack), .closeArray =>
    some (after (.array (v :: items).reverse) stack)
  | after v (.object members text :: stack), .comma => some (name ((text, v) :: members) stack)
  | after v (.object members text :: stack), .closeObject =>
    some (after (.object ((text, v) :: members).reverse) stack)
  | after _ _, _ => none

/-- The value that was read, if nothing is open. -/
def finish : Reader → Option Json
  | after v [] => some v
  | _ => none

end Reader

/-- Read a document. -/
def read? (text : String) : Option Json := do
  let tokens ← tokens? text.toList
  let reader ← tokens.foldlM Reader.step (.value [])
  reader.finish

end Json

end AnswerSet
