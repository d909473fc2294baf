import AnswerSet.Atom.Basic

/-!
# Remembered atoms

While a program is built, an atom can be remembered under a tag and used again
in later rules, where it brings the same variables. Entries are told apart by
predicate and tag. The empty tag names the default entry. Remembering an atom
again under the same key replaces the one before.
-/

namespace AnswerSet

/-- The key of a remembered atom. -/
structure BindingKey where
  predicate : String
  tag : String
deriving DecidableEq, Repr

/-- The tag of the default entry. -/
def defaultTag : String := "__default__"

/-- The tag under which an entry is kept. -/
def entryTag (tag : String) : String := if tag.isEmpty then defaultTag else tag

/-- Atoms by key, each key once, in the order in which the keys were first used. -/
structure Bindings where
  entries : List (BindingKey × Atom)

namespace Bindings

/-- No atoms. -/
def empty : Bindings := ⟨[]⟩

instance : Inhabited Bindings := ⟨empty⟩

/-- The number of entries. -/
def size (bindings : Bindings) : Nat := bindings.entries.length

/-- Replace the atom of a key, or add an entry for it. -/
def insert (key : BindingKey) (atom : Atom) : List (BindingKey × Atom) → List (BindingKey × Atom)
  | [] => [(key, atom)]
  | entry :: entries =>
    if entry.1 = key then (key, atom) :: entries else entry :: insert key atom entries

/-- Remember an atom under a tag. -/
def remember (bindings : Bindings) (tag : String) (atom : Atom) : Bindings :=
  ⟨insert ⟨atom.predicate, entryTag tag⟩ atom bindings.entries⟩

/-- The atom remembered for a schema under a tag. -/
def lookup (bindings : Bindings) (schema : Schema) (tag : String) :
    Except ConstructionError Atom :=
  let key : BindingKey := ⟨schema.predicate, entryTag tag⟩
  match bindings.entries.find? (·.1 = key) with
  | some (_, atom) => .ok atom
  | none => .error (.notRemembered key.predicate key.tag)

end Bindings

end AnswerSet
