import AnswerSet.Schema

/-!
# Atoms

An atom applies a predicate to field values, laid out by its schema: one value
per field, constants included. A value is a term or another atom.

An atom is written as its predicate and, in parentheses, the values of all
fields but the constants. What stands between two values is a matter of
spelling: programs are written with a comma and a space, while the solver prints
its answers with a comma alone. Two atoms count as equal when they are written
alike, so atoms that still hold different variables differ.
-/

namespace AnswerSet

mutual

/-- What a field of an atom holds. -/
inductive FieldValue where
  | term (term : Term)
  | atom (atom : Atom)

/-- A predicate applied to values. -/
structure Atom where
  schema : Schema
  values : List FieldValue

end

instance : Inhabited Atom := ⟨⟨⟨"", []⟩, []⟩⟩

/-! ## Writing -/

/-- An application: the predicate alone, or followed by its arguments in parentheses. -/
def application (comma predicate : String) : List String → String
  | [] => predicate
  | arguments => predicate ++ "(" ++ comma.intercalate arguments ++ ")"

mutual

/-- The atom with the given text between its arguments, at every depth. -/
def Atom.spelled (comma : String) : Atom → String
  | ⟨schema, values⟩ => application comma schema.predicate (spelledFields comma schema.fields values)

/-- The arguments: every value whose field is not a constant. -/
def spelledFields (comma : String) : List Field → List FieldValue → List String
  | field :: fields, value :: values =>
    if field.isConstant then spelledFields comma fields values
    else value.spelled comma :: spelledFields comma fields values
  | _, _ => []

/-- The value with the given text between arguments. -/
def FieldValue.spelled (comma : String) : FieldValue → String
  | .term term => term.text
  | .atom atom => atom.spelled comma

end

/-- The atom as it stands in a program. -/
def Atom.text (atom : Atom) : String := atom.spelled ", "

/-- The value as it stands in a program. -/
def FieldValue.text (value : FieldValue) : String := value.spelled ", "

/-- The atom as the solver prints it in an answer. -/
def Atom.solverText (atom : Atom) : String := atom.spelled ","

instance : BEq Atom := ⟨fun a b => a.text == b.text⟩
instance : Hashable Atom := ⟨fun a => hash a.text⟩

theorem Atom.beq_iff_text {a b : Atom} : (a == b) = true ↔ a.text = b.text := by
  change (a.text == b.text) = true ↔ _
  exact beq_iff_eq

/-! ## Reading fields -/

mutual

/-- Does no written field hold a variable? -/
def Atom.isGround : Atom → Bool
  | ⟨schema, values⟩ => groundFields schema.fields values

/-- Is every value ground whose field is not a constant? -/
def groundFields : List Field → List FieldValue → Bool
  | field :: fields, value :: values =>
    (field.isConstant || value.isGround) && groundFields fields values
  | _, _ => true

/-- Is the value free of variables? -/
def FieldValue.isGround : FieldValue → Bool
  | .term term => term.isBound
  | .atom atom => atom.isGround

end

namespace Atom

/-- The predicate of the atom's schema. -/
def predicate (atom : Atom) : String := atom.schema.predicate

/-- The value of a field, if the atom has a field of that name. -/
def get? (atom : Atom) (name : String) : Option FieldValue :=
  (atom.schema.fieldIndex? name).bind (atom.values[·]?)

/-- The term in a field. -/
def term (atom : Atom) (name : String) : Except DecodeError Term :=
  match atom.get? name with
  | some (.term term) => .ok term
  | some (.atom _) => .error (.holdsAtom name atom.predicate)
  | none => .error (.noField atom.predicate name)

/-- The part of a field's term that `value?` finds, or an error that it is not of that kind. -/
def scalar {α : Type} (atom : Atom) (name : String) (kind : ScalarKind)
    (value? : Term → Option α) : Except DecodeError α := do
  match value? (← atom.term name) with
  | some value => return value
  | none => throw (.unbound name atom.predicate kind.name)

/-- The integer in a field. -/
def int (atom : Atom) (name : String) : Except DecodeError Int64 :=
  atom.scalar name .integer Term.int?

/-- The string in a field. -/
def string (atom : Atom) (name : String) : Except DecodeError String :=
  atom.scalar name .string Term.str?

/-- The truth value in a field. -/
def boolean (atom : Atom) (name : String) : Except DecodeError Bool :=
  atom.scalar name .boolean Term.bool?

/-- The atom in a field. -/
def nested (atom : Atom) (name : String) : Except DecodeError Atom :=
  match atom.get? name with
  | some (.atom nested) => .ok nested
  | some (.term _) => .error (.unbound name atom.predicate "atom")
  | none => .error (.noField atom.predicate name)

end Atom

end AnswerSet
