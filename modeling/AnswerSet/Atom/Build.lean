import AnswerSet.Atom.Basic

/-!
# Building atoms

An atom is built from its schema in one of three ways: with a fresh variable in
every field, from the values of all written fields in order, or field by field.
In the last case, fields that were not set are left open. The two ways that take
values check each value against the kind of its field. An unbound term fits
every kind.

Field by field, the first mistake decides: later settings are ignored and the
mistake is reported when the atom is built.
-/

namespace AnswerSet

/-! ## Kinds and values -/

/-- May a field of this kind hold the value? -/
def FieldKind.accepts : FieldKind → FieldValue → Bool
  | _, .term (.unbound _) => true
  | .any, _ => true
  | .scalar kind, .term t => t.scalarKind? = some kind
  | .atom schema, .atom a => a.predicate = schema.predicate
  | _, _ => false

/-- The value as the finding of an error. -/
def FieldValue.found : FieldValue → Found
  | .term t => .term t.text
  | .atom a => .atom a.predicate

/-- Refuse a value that the field of a predicate does not accept. -/
def Field.check (predicate : String) (field : Field) (value : FieldValue) :
    Except ConstructionError Unit :=
  if field.kind.accepts value then .ok ()
  else .error (.wrongKind field.name predicate field.kind.expected value.found)

/-! ## Open atoms -/

mutual

/-- The atom of the schema that leaves every field open. -/
def Schema.any : Schema → Fresh Atom
  | ⟨predicate, fields⟩ => do return ⟨⟨predicate, fields⟩, ← openValues fields⟩

/-- The open values of fields, drawn in order. -/
def openValues : List Field → Fresh (List FieldValue)
  | [] => return []
  | ⟨_, kind⟩ :: fields => do
    let value ← kind.openValue
    return value :: (← openValues fields)

/-- The open value of one field: a fresh variable, an open atom or the constant. -/
def FieldKind.openValue : FieldKind → Fresh FieldValue
  | .atom schema => do return .atom (← schema.any)
  | .constant value => return .term value
  | .scalar _ => do return .term (← Term.fresh)
  | .any => do return .term (← Term.fresh)

end

/-! ## Values in order -/

/-- Deal values out to the fields that are not constants. -/
def dealValues (predicate : String) :
    List Field → List FieldValue → Except ConstructionError (List FieldValue)
  | [], _ => .ok []
  | ⟨_, .constant value⟩ :: fields, values => do
    return .term value :: (← dealValues predicate fields values)
  | _ :: _, [] => .ok []
  | field :: fields, value :: values => do
    field.check predicate value
    return value :: (← dealValues predicate fields values)

/-- Build an atom from the values of its written fields, in order. -/
def Atom.ofValues (schema : Schema) (values : List FieldValue) : Except ConstructionError Atom :=
  if values.length = schema.arity then do
    return ⟨schema, ← dealValues schema.predicate schema.fields values⟩
  else
    .error (.wrongValueCount schema.predicate schema.arity values.length)

/-! ## Field by field -/

/-- An atom in the making: the values set so far, or the first mistake. -/
structure AtomBuilder where
  schema : Schema
  slots : Except ConstructionError (List (Option FieldValue))

/-- Start an atom of the schema with no field set. -/
def Schema.atom (schema : Schema) : AtomBuilder :=
  ⟨schema, .ok (schema.fields.map fun _ => none)⟩

namespace AtomBuilder

/-- The slots with one of them set, or the reason why it cannot be. -/
def setSlot (schema : Schema) (slots : List (Option FieldValue)) (name : String)
    (value : FieldValue) : Except ConstructionError (List (Option FieldValue)) :=
  match schema.fields.zipIdx.find? (·.1.name = name) with
  | none => .error (.unknownField schema.predicate name)
  | some (field, index) =>
    if field.isConstant then .error (.constantField name schema.predicate)
    else do
      field.check schema.predicate value
      return slots.set index (some value)

/-- Set a field. -/
def set (builder : AtomBuilder) (name : String) (value : FieldValue) : AtomBuilder :=
  { builder with slots := builder.slots.bind (setSlot builder.schema · name value) }

/-- The values of the slots, open where nothing was set. -/
def fillSlots : List Field → List (Option FieldValue) → Fresh (List FieldValue)
  | field :: fields, slot :: slots => do
    let value ← match slot with
      | some value => pure value
      | none => field.kind.openValue
    return value :: (← fillSlots fields slots)
  | _, _ => return []

/-- Finish the atom. Nothing is drawn if a mistake was made. -/
def build (builder : AtomBuilder) : Fresh (Except ConstructionError Atom) :=
  match builder.slots with
  | .error mistake => return .error mistake
  | .ok slots => do return .ok ⟨builder.schema, ← fillSlots builder.schema.fields slots⟩

end AtomBuilder

end AnswerSet
