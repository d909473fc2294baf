import AnswerSet.Term
import AnswerSet.Text.Lowercase

/-!
# Schemas

A schema names a predicate and lists its fields in order, each with the kind of
value it holds. The same description orders the arguments when an atom is
written and types them when it is read back. A constant field belongs to every
atom of the schema but is never written.

A schema is checked when it is built: its predicate is a name of the solver's
language, and its fields have distinct names that are not empty.
-/

namespace AnswerSet

mutual

/-- What a field holds. -/
inductive FieldKind where
  | scalar (kind : ScalarKind)
  /-- Any value. -/
  | any
  /-- An atom of another schema. -/
  | atom (schema : Schema)
  /-- A value that the schema itself fixes. -/
  | constant (value : Term)

/-- A field: its name and what it holds. -/
structure Field where
  name : String
  kind : FieldKind

/-- A predicate and its fields, in order. -/
structure Schema where
  predicate : String
  fields : List Field

end

namespace FieldKind

/-- Is the value fixed by the schema? -/
def isConstant : FieldKind → Bool
  | .constant _ => true
  | _ => false

/-- The name of the kind in messages. -/
def name : FieldKind → String
  | .scalar kind => kind.name
  | .any => "any"
  | .atom _ => "atom"
  | .constant _ => "constant"

/-- The kind as the expectation of an error. -/
def expected : FieldKind → Expected
  | .atom schema => .atom schema.predicate
  | kind => .kind kind.name

end FieldKind

/-- Is the field left out when atoms are written? -/
def Field.isConstant (field : Field) : Bool := field.kind.isConstant

/-! ## Equality -/

mutual

/-- Schemas are equal if their predicates and fields are. -/
def Schema.decEq : (a b : Schema) → Decidable (a = b)
  | ⟨p, fs⟩, ⟨q, gs⟩ =>
    have := Field.decEqList fs gs
    decidable_of_iff (p = q ∧ fs = gs) (by simp)

/-- Lists of fields are compared in order. -/
def Field.decEqList : (fs gs : List Field) → Decidable (fs = gs)
  | [], [] => isTrue rfl
  | [], _ :: _ => isFalse (by simp)
  | _ :: _, [] => isFalse (by simp)
  | ⟨m, k⟩ :: fs, ⟨n, l⟩ :: gs =>
    have := FieldKind.decEq k l
    have := Field.decEqList fs gs
    decidable_of_iff ((m = n ∧ k = l) ∧ fs = gs) (by simp)

/-- Kinds are equal if they have the same form and parts. -/
def FieldKind.decEq : (k l : FieldKind) → Decidable (k = l)
  | .scalar a, .scalar b => decidable_of_iff (a = b) (by simp)
  | .any, .any => isTrue rfl
  | .atom s, .atom t =>
    have := Schema.decEq s t
    decidable_of_iff (s = t) (by simp)
  | .constant a, .constant b => decidable_of_iff (a = b) (by simp)
  | .scalar _, .any | .scalar _, .atom _ | .scalar _, .constant _ => isFalse (by simp)
  | .any, .scalar _ | .any, .atom _ | .any, .constant _ => isFalse (by simp)
  | .atom _, .scalar _ | .atom _, .any | .atom _, .constant _ => isFalse (by simp)
  | .constant _, .scalar _ | .constant _, .any | .constant _, .atom _ => isFalse (by simp)

end

instance : DecidableEq Schema := Schema.decEq
instance : DecidableEq FieldKind := FieldKind.decEq

/-! ## Building -/

/-- May the character follow the first one of a predicate? -/
def isPredicateChar (c : Char) : Bool := c.isAlphanum || c = '_' || c = '\''

/-- A predicate is a lower case ASCII letter, then letters, digits, underscores and quotes. -/
def isPredicateName (name : String) : Bool :=
  match name.toList with
  | [] => false
  | c :: cs => c.isLower && cs.all isPredicateChar

namespace Schema

/-- The number of fields that are written. -/
def arity (schema : Schema) : Nat := (schema.fields.filter (!·.isConstant)).length

/-- The position of the field of a name. -/
def fieldIndex? (schema : Schema) (name : String) : Option Nat :=
  schema.fields.findIdx? (·.name = name)

/-- Check the fields in order against the names before them. -/
def checkFields (predicate : String) (seen : List String) :
    List Field → Except ConstructionError Unit
  | [] => .ok ()
  | field :: fields =>
    if field.name.isEmpty then .error (.emptyFieldName seen.length predicate)
    else if seen.contains field.name then .error (.duplicateField field.name predicate)
    else checkFields predicate (seen ++ [field.name]) fields

/-- Build a schema from a predicate and its fields. -/
def build (predicate : String) (fields : List Field) : Except ConstructionError Schema := do
  if isPredicateName predicate then
    checkFields predicate [] fields
    return ⟨predicate, fields⟩
  else
    throw (.invalidPredicate predicate)

end Schema

/-- The predicate for a capitalised type name: its first character in lower case. -/
def predicateOfTypeName (typeName : String) : String :=
  match typeName.toList with
  | [] => ""
  | c :: cs => .ofList (Text.lowercase c ++ cs)

end AnswerSet
