import AnswerSet.Answer
import AnswerSet.Json.Basic

/-!
# The solver's report

The solver reports a run as a JSON document: a result and a list of calls, each
with its witnesses, each with the atoms of a model and its costs. The document
may hold much else, which is passed over, but the parts that are read have to
have their form throughout, also where they are not used in the end.

Each part is a record with named fields. It is written as an object in which
each field occurs at most once, or as an array of the fields in order. From the
end of the array, fields may be left out that have a default.
-/

namespace AnswerSet

/-- A model as reported, unless its atoms are left out. -/
structure Witness where
  atoms : Option (List String)
  costs : List Int64
deriving DecidableEq, Repr

/-- The report of a run: its result, and for each call the witnesses. -/
structure Report where
  result : String
  calls : List (List Witness)
deriving DecidableEq, Repr

namespace Json

/-- The one value under a name, no value, or nothing if there are several. -/
def member? (members : List (String × Json)) (name : String) : Option (Option Json) :=
  match members.filter (·.1 = name) with
  | [] => some none
  | [(_, value)] => some (some value)
  | _ => none

/-- The values of the named fields of a record, of which the first `required` are in every array. -/
def fields? (required : Nat) (names : List String) : Json → Option (List (Option Json))
  | .object members => do
    let members ← members.mapM fun (name, value) => name.map (·, value)
    names.mapM (member? members)
  | .array items =>
    if required ≤ items.length && items.length ≤ names.length then
      some (items.map some ++ List.replicate (names.length - items.length) none)
    else none
  | _ => none

/-- The text of a string. -/
def text? : Json → Option String
  | .string text => text
  | _ => none

/-- The value of a 64-bit integer. -/
def word? : Json → Option Int64
  | .integer n => Text.word? n
  | _ => none

/-- The items of an array, each read in the same way. -/
def list? {α : Type} (item? : Json → Option α) : Json → Option (List α)
  | .array items => items.mapM item?
  | _ => none

/-- A list that is empty by default. -/
def listOrEmpty? {α : Type} (item? : Json → Option α) : Option Json → Option (List α)
  | none => some []
  | some value => value.list? item?

end Json

/-- The atoms of a witness, which may be missing or null. -/
def Witness.atoms? : Option Json → Option (Option (List String))
  | none => some none
  | some .null => some none
  | some value => (value.list? Json.text?).map some

/-- Read a witness. -/
def Witness.ofJson? (value : Json) : Option Witness := do
  match ← value.fields? 1 ["Value", "Costs"] with
  | [atoms, costs] => return ⟨← Witness.atoms? atoms, ← Json.listOrEmpty? Json.word? costs⟩
  | _ => none

/-- Read the witnesses of a call. -/
def Report.call? (value : Json) : Option (List Witness) := do
  match ← value.fields? 0 ["Witnesses"] with
  | [witnesses] => Json.listOrEmpty? Witness.ofJson? witnesses
  | _ => none

/-- Read a report. -/
def Report.ofJson? (value : Json) : Option Report := do
  match ← value.fields? 1 ["Result", "Call"] with
  | [some result, calls] =>
    return ⟨← result.text?, ← Json.listOrEmpty? Report.call? calls⟩
  | _ => none

/-- Read the text of a report. -/
def Report.read? (text : String) : Option Report := do
  Report.ofJson? (← Json.read? text)

end AnswerSet
