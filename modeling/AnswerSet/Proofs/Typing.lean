import AnswerSet.Proofs.Decoding
import AnswerSet.Proofs.Nesting
import Mathlib.Logic.Relation

/-!
# What decoding gives

Decoding ends in one of two ways, whatever the text and whatever predicate it is
asked for. Either some part of the text is not what its place calls for, and the
error tells which. Or there is an atom of the schema that is typed all the way
down: every field holds a bound value of its kind, constants included.

The decoder checks the values once when it reads them and once more when it
builds the atom. The second check never fails (`FieldKind.accepts_of_read`), so
`DecodeError.unbuildable` does not occur. And since the fields of a built schema
have different names, every accessor finds the value it asks for.
-/

namespace AnswerSet

/-! ## Typed atoms -/

mutual

/-- Every field of the atom holds a bound value of its kind, at every depth. -/
def Atom.Typed : Atom → Prop
  | ⟨schema, values⟩ => typedValues schema.fields values

/-- There is one value for each field, and each is of its field's kind. -/
def typedValues : List Field → List FieldValue → Prop
  | [], [] => True
  | field :: fields, value :: values => value.HasKind field.kind ∧ typedValues fields values
  | _, _ => False

/-- The value is bound and of the kind, and an atom is typed itself. -/
def FieldValue.HasKind : FieldKind → FieldValue → Prop
  | .scalar kind, .term term => term.scalarKind? = some kind
  | .any, .term term => term.isBound = true
  | .atom schema, .atom atom => atom.schema = schema ∧ atom.Typed
  | .constant value, .term term => term = value
  | _, _ => False

end

theorem typedValues_iff {fields : List Field} {values : List FieldValue} :
    typedValues fields values
      ↔ List.Forall₂ (fun field value => value.HasKind field.kind) fields values := by
  induction fields generalizing values with
  | nil => cases values <;> simp [typedValues]
  | cons field fields ih =>
      cases values with
      | nil => simp [typedValues]
      | cons value values => rw [typedValues, ih, List.forall₂_cons]

theorem Atom.typed_iff {atom : Atom} :
    atom.Typed
      ↔ List.Forall₂ (fun field value => value.HasKind field.kind)
          atom.schema.fields atom.values := by
  cases atom with
  | mk schema values => rw [Atom.Typed, typedValues_iff]

theorem isBound_of_scalarKind? {term : Term} {kind : ScalarKind}
    (h : term.scalarKind? = some kind) : term.isBound = true := by
  rcases scalarKind?_cases h with ⟨n, rfl, _⟩ | ⟨s, rfl, _⟩ | ⟨b, rfl, _⟩ <;> rfl

mutual

theorem Atom.Typed.isGround : ∀ {atom : Atom}, atom.Typed → atom.isGround = true
  | ⟨schema, values⟩, h => by
      rw [Atom.isGround]
      exact groundFields_of_typedValues schema.fields values (by rwa [Atom.Typed] at h)

theorem groundFields_of_typedValues : ∀ (fields : List Field) (values : List FieldValue),
    typedValues fields values → groundFields fields values = true
  | [], [], _ => rfl
  | [], _ :: _, h => absurd h (by simp [typedValues])
  | _ :: _, [], h => absurd h (by simp [typedValues])
  | ⟨name, kind⟩ :: fields, value :: values, h => by
      rw [typedValues] at h
      rw [groundFields, groundFields_of_typedValues fields values h.2, Bool.and_true,
        Bool.or_eq_true]
      cases hk : kind.isConstant with
      | true => exact Or.inl hk
      | false => exact Or.inr (FieldValue.HasKind.isGround hk h.1)

theorem FieldValue.HasKind.isGround : ∀ {kind : FieldKind} {value : FieldValue},
    kind.isConstant = false → value.HasKind kind → value.isGround = true
  | .scalar _, .term _, _, h => isBound_of_scalarKind? (by rwa [FieldValue.HasKind] at h)
  | .any, .term _, _, h => by rwa [FieldValue.HasKind] at h
  | .atom _, .atom atom, _, h => by
      rw [FieldValue.HasKind] at h
      rw [FieldValue.isGround]
      exact Atom.Typed.isGround h.2
  | .constant _, _, hk, _ => absurd hk (by simp [FieldKind.isConstant])
  | .scalar _, .atom _, _, h => absurd h (by simp [FieldValue.HasKind])
  | .any, .atom _, _, h => absurd h (by simp [FieldValue.HasKind])
  | .atom _, .term _, _, h => absurd h (by simp [FieldValue.HasKind])

end

/-! ## What the decoder answers -/

/-- The error tells what is wrong with the text, with the fields that lead to the place. -/
def DecodeError.OfText : DecodeError → Prop
  | .otherPredicate _ _ => True
  | .wrongArgumentCount _ _ _ _ => True
  | .notAtom _ _ => True
  | .notScalar _ _ => True
  | .inField _ _ cause => cause.OfText
  | _ => False

/-- The outcome is a value with the property, or an error about the text. -/
def Yields {α : Type} (P : α → Prop) : Except DecodeError α → Prop
  | .ok a => P a
  | .error e => e.OfText

section Yields

variable {α β : Type} {P : α → Prop} {Q : β → Prop} {x : Except DecodeError α}

theorem Yields.bind {f : α → Except DecodeError β} (hx : Yields P x)
    (hf : ∀ a, x = .ok a → P a → Yields Q (f a)) : Yields Q (x.bind f) := by
  cases x with
  | error e => exact hx
  | ok a => exact hf a rfl hx

theorem Yields.inField {name predicate : String} (hx : Yields P x) :
    Yields P (x.mapError (.inField name predicate)) := by
  cases x with
  | error e => exact hx
  | ok a => exact hx

end Yields

theorem FieldKind.read_yields {kind : FieldKind} (hk : kind.isConstant = false)
    (ih : ∀ inner, kind = .atom inner → ∀ predicate cs,
      Yields (fun atom => atom.schema = inner ∧ atom.Typed) (inner.read predicate cs))
    (cs : List Char) : Yields (fun value => value.HasKind kind) (kind.read cs) := by
  cases kind with
  | scalar kind =>
      rw [FieldKind.read]
      cases hr : kind.read? cs with
      | none => trivial
      | some term =>
          show (FieldValue.term term).HasKind (.scalar kind)
          rw [FieldValue.HasKind]
          exact ScalarKind.read?_kind hr
  | any =>
      rw [FieldKind.read]
      show (FieldValue.term (readAny cs)).HasKind .any
      rw [FieldValue.HasKind]
      rcases readAny_cases cs with ⟨kind, hs⟩ | hs
      · exact isBound_of_scalarKind? hs
      · rw [hs]
        rfl
  | atom schema =>
      rw [FieldKind.read]
      split
      · trivial
      · refine (ih schema rfl schema.predicate cs).bind fun atom _ ha => ?_
        show (FieldValue.atom atom).HasKind (.atom schema)
        rwa [FieldValue.HasKind]
  | constant value => exact absurd hk (by simp [FieldKind.isConstant])

/-- As many arguments as there are written fields give a value of its kind each. -/
theorem readFields_yields (predicate : String) {fields : List Field}
    (ih : ∀ field ∈ fields, ∀ inner, field.kind = .atom inner → ∀ predicate cs,
      Yields (fun atom => atom.schema = inner ∧ atom.Typed) (inner.read predicate cs))
    {found : List (List Char)} (hlen : found.length = Schema.arity ⟨predicate, fields⟩) :
    Yields (fun values => typedValues fields (withConstants fields values))
      (readFields predicate fields found) := by
  induction fields using fields_induction generalizing found with
  | nil => exact trivial
  | constant name constant fields ihf =>
      -- a constant takes no argument and is put back among the values
      simp only [readFields_constant, withConstants_constant, typedValues, FieldValue.HasKind,
        true_and]
      exact ihf (fun f hf => ih f (List.mem_cons_of_mem _ hf)) hlen
  | written name kind fields hk ihf =>
      rw [arity_cons hk] at hlen
      cases found with
      | nil => exact absurd hlen (by simp)
      | cons cs found =>
          have hfirst := FieldKind.read_yields hk (ih ⟨name, kind⟩ List.mem_cons_self) cs
          have hrest := ihf (fun f hf => ih f (List.mem_cons_of_mem _ hf)) (Nat.succ_inj.mp hlen)
          rw [readFields_cons hk]
          refine hfirst.inField.bind fun value _ hkind => ?_
          refine hrest.bind fun values _ htyped => ?_
          show typedValues (⟨name, kind⟩ :: fields) (withConstants _ (value :: values))
          rw [withConstants_cons hk, typedValues]
          exact ⟨hkind, htyped⟩

/-- **Every text either decodes to a typed atom of the schema or is told what is wrong with it.** -/
theorem Schema.read_yields {schema : Schema} (hb : schema.Built) (predicate : String)
    (cs : List Char) :
    Yields (fun atom => atom.schema = schema ∧ atom.Typed) (schema.read predicate cs) := by
  induction hb generalizing predicate cs with
  | @intro name fields schema hbuild _ ih =>
      obtain ⟨rfl, _, _⟩ := Schema.build_eq_ok hbuild
      rw [Schema.read_eq]
      cases isAtomOf predicate.toList cs with
      | false => trivial
      | true =>
          rw [Bool.not_true, if_neg Bool.false_ne_true]
          -- of what is found, only the number matters
          generalize arguments predicate.toList cs = found
          by_cases hlen : found.length = Schema.arity ⟨name, fields⟩
          · rw [if_neg (not_not_intro hlen)]
            refine (readFields_yields name ih hlen).bind fun values hread htyped => ?_
            obtain ⟨hl, hdeal⟩ := dealValues_of_readFields hlen hread
            rw [Atom.ofValues_eq_ok_iff.mpr ⟨hl, _, hdeal, rfl⟩]
            refine ⟨rfl, ?_⟩
            rw [Atom.Typed]
            exact htyped
          · rw [if_pos hlen]
            trivial

/-! ## Fields by name -/

theorem Schema.Built.fieldIndex?_eq {schema : Schema} (hb : schema.Built) {i : Nat}
    (hi : i < schema.fields.length) : schema.fieldIndex? schema.fields[i].name = some i := by
  refine List.findIdx?_eq_some_iff_getElem.mpr ⟨hi, by simp, fun j hj he => ?_⟩
  have hij := hb.eq_of_name_eq (of_decide_eq_true he)
  omega

section Accessors

variable {atom : Atom} {name : String}

/-- Every field of a typed atom is found by its name and holds a value of its kind. -/
theorem Atom.Typed.get?_field (ht : atom.Typed) (hb : atom.schema.Built) {field : Field}
    (hf : field ∈ atom.schema.fields) :
    ∃ value, atom.get? field.name = some value ∧ value.HasKind field.kind := by
  obtain ⟨i, hi, rfl⟩ := List.mem_iff_getElem.mp hf
  have hall := Atom.typed_iff.mp ht
  have hv : i < atom.values.length := by rwa [← hall.length_eq]
  refine ⟨atom.values[i], ?_, hall.get hi hv⟩
  rw [Atom.get?, hb.fieldIndex?_eq hi, Option.bind_some, List.getElem?_eq_getElem hv]

/-- What a name leads to is the value of a field. -/
theorem Atom.Typed.exists_field (ht : atom.Typed) {value : FieldValue}
    (h : atom.get? name = some value) :
    ∃ field ∈ atom.schema.fields, value.HasKind field.kind := by
  obtain ⟨i, hi, hv⟩ := Option.bind_eq_some_iff.mp h
  obtain ⟨hlt, _⟩ := List.findIdx?_eq_some_iff_getElem.mp hi
  obtain ⟨hlt', rfl⟩ := List.getElem?_eq_some_iff.mp hv
  exact ⟨_, List.getElem_mem hlt, (Atom.typed_iff.mp ht).get hlt hlt'⟩

theorem Atom.scalar_eq_ok {α : Type} {kind : ScalarKind} {value? : Term → Option α} {term : Term}
    {a : α} (h : atom.get? name = some (.term term)) (ha : value? term = some a) :
    atom.scalar name kind value? = .ok a := by
  have hterm : atom.term name = .ok term := by
    unfold Atom.term
    rw [h]
  simp only [Atom.scalar, hterm, bind, Except.bind, ha]
  rfl

theorem Atom.Typed.get?_scalar (ht : atom.Typed) (hb : atom.schema.Built) {field : Field}
    (hf : field ∈ atom.schema.fields) {kind : ScalarKind} (hk : field.kind = .scalar kind) :
    ∃ term, atom.get? field.name = some (.term term) ∧ term.scalarKind? = some kind := by
  obtain ⟨value, hg, hv⟩ := ht.get?_field hb hf
  rw [hk] at hv
  cases value with
  | term term => exact ⟨term, hg, by rwa [FieldValue.HasKind] at hv⟩
  | atom inner => exact absurd hv (by simp [FieldValue.HasKind])

theorem Atom.Typed.nested_field (ht : atom.Typed) (hb : atom.schema.Built) {field : Field}
    (hf : field ∈ atom.schema.fields) {schema : Schema} (hk : field.kind = .atom schema) :
    ∃ inner, atom.nested field.name = .ok inner ∧ inner.schema = schema := by
  obtain ⟨value, hg, hv⟩ := ht.get?_field hb hf
  rw [hk] at hv
  cases value with
  | term term => exact absurd hv (by simp [FieldValue.HasKind])
  | atom inner =>
      rw [FieldValue.HasKind] at hv
      refine ⟨inner, ?_, hv.1⟩
      unfold Atom.nested
      rw [hg]

/-- An atom that is reached through a nested field is as good as the one around it. -/
theorem Atom.Typed.of_nested (ht : atom.Typed) (hb : atom.schema.Built) {inner : Atom}
    (h : atom.nested name = .ok inner) : inner.schema.Built ∧ inner.Typed := by
  unfold Atom.nested at h
  split at h
  · rename_i found hg
    injection h with h
    subst h
    obtain ⟨field, hf, hv⟩ := ht.exists_field hg
    cases hk : field.kind with
    | atom schema =>
        rw [hk, FieldValue.HasKind] at hv
        rw [hv.1]
        exact ⟨hb.inner hf hk, hv.2⟩
    | scalar kind => rw [hk] at hv; exact absurd hv (by simp [FieldValue.HasKind])
    | any => rw [hk] at hv; exact absurd hv (by simp [FieldValue.HasKind])
    | constant value => rw [hk] at hv; exact absurd hv (by simp [FieldValue.HasKind])
  · exact absurd h (by simp)
  · exact absurd h (by simp)

end Accessors

/-! ## What is cut off -/

/-- The bytes of `s` from `first` up to `last` are the text `inner`: both ends lie within `s`, and
neither of them splits a character. -/
structure IsByteSlice (s : String) (first last : Nat) (inner : String) : Prop where
  ordered : first ≤ last
  within : last ≤ s.utf8ByteSize
  validFirst : String.Pos.Raw.IsValid s ⟨first⟩
  validLast : String.Pos.Raw.IsValid s ⟨last⟩
  bytes : s.toByteArray.extract first last = inner.toByteArray

theorem isByteSlice_append (a inner b : String) :
    IsByteSlice (a ++ inner ++ b) a.utf8ByteSize (a.utf8ByteSize + inner.utf8ByteSize) inner := by
  refine ⟨Nat.le_add_right _ _, ?_, ?_, ?_, ?_⟩
  · rw [String.utf8ByteSize_append, String.utf8ByteSize_append]
    exact Nat.le_add_right _ _
  · exact String.Pos.Raw.isValid_iff_exists_append.mpr
      ⟨a, inner ++ b, String.append_assoc, rfl⟩
  · refine String.Pos.Raw.isValid_iff_exists_append.mpr ⟨a ++ inner, b, rfl, ?_⟩
    rw [String.rawEndPos, String.utf8ByteSize_append]
  · have hshift : (a.toByteArray ++ (inner.toByteArray ++ b.toByteArray)).extract
        (a.toByteArray.size + 0) (a.toByteArray.size + inner.toByteArray.size)
          = (inner.toByteArray ++ b.toByteArray).extract 0 inner.toByteArray.size :=
      ByteArray.extract_append_size_add
    rw [ByteArray.extract_append_eq_left rfl, String.size_toByteArray, String.size_toByteArray,
      Nat.add_zero] at hshift
    rw [String.toByteArray_append, String.toByteArray_append, ByteArray.append_assoc]
    exact hshift

/-- A text between two characters of one byte is cut off next to them. -/
theorem isByteSlice_between {s : String} {first last : Char} {inner : List Char}
    (hs : s.toList = first :: (inner ++ [last])) (hf : first.utf8Size = 1)
    (hl : last.utf8Size = 1) : IsByteSlice s 1 (s.utf8ByteSize - 1) (.ofList inner) := by
  have he : s = String.singleton first ++ .ofList inner ++ String.singleton last := by
    rw [← String.toList_inj, hs]
    simp
  have hfirst : (String.singleton first).utf8ByteSize = 1 := by
    rw [String.utf8ByteSize_singleton, hf]
  have hlast : (String.singleton last).utf8ByteSize = 1 := by rw [String.utf8ByteSize_singleton, hl]
  have hslice := isByteSlice_append (String.singleton first) (.ofList inner) (String.singleton last)
  have hsize : s.utf8ByteSize - 1 = 1 + (String.ofList inner).utf8ByteSize := by
    rw [he, String.utf8ByteSize_append, String.utf8ByteSize_append, hfirst, hlast]
    omega
  rw [hfirst, ← he, ← hsize] at hslice
  exact hslice

theorem isByteSlice_dropParens (s : String) : dropParens s.toList = s.toList
    ∨ IsByteSlice s 1 (s.utf8ByteSize - 1) (.ofList (dropParens s.toList)) := by
  rcases dropParens_cases s.toList with h | h
  · exact Or.inl h
  · exact Or.inr (isByteSlice_between h (by decide) (by decide))

theorem isByteSlice_unquote {s : String} {inner : List Char}
    (h : Text.unquote? s.toList = some inner) :
    IsByteSlice s 1 (s.utf8ByteSize - 1) (.ofList inner) := by
  unfold Text.unquote? at h
  split at h
  · rename_i rest hs
    split at h
    · rename_i hlast
      injection h with h
      have hwhole : s.toList = '"' :: (inner ++ ['"']) := by
        rw [hs, ← h, List.dropLast_append_getLast? '"' hlast]
      exact isByteSlice_between hwhole (by decide) (by decide)
    · exact absurd h (by simp)
  · exact absurd h (by simp)

/-! ## The whole of it -/

/-- The atom itself, and those that are reached from it through nested fields. -/
def Atom.Reaches : Atom → Atom → Prop :=
  Relation.ReflTransGen fun outer inner => ∃ name, outer.nested name = .ok inner

/-- What can be relied on in an atom: it has no variable in it and a value for every field, and each
field that is not a wildcard holds a value of its kind, which its accessor finds. -/
structure Atom.Reliable (atom : Atom) : Prop where
  ground : atom.isGround = true
  length : atom.values.length = atom.schema.fields.length
  constant : ∀ field ∈ atom.schema.fields, ∀ value, field.kind = .constant value →
    atom.get? field.name = some (.term value)
  int : ∀ field ∈ atom.schema.fields, field.kind = .scalar .integer →
    ∃ n, atom.get? field.name = some (.term (.int n)) ∧ atom.int field.name = .ok n
  string : ∀ field ∈ atom.schema.fields, field.kind = .scalar .string →
    ∃ s, atom.get? field.name = some (.term (.str s)) ∧ atom.string field.name = .ok s
  boolean : ∀ field ∈ atom.schema.fields, field.kind = .scalar .boolean →
    ∃ b, atom.get? field.name = some (.term (.bool b)) ∧ atom.boolean field.name = .ok b
  nested : ∀ field ∈ atom.schema.fields, ∀ schema, field.kind = .atom schema →
    ∃ inner, atom.nested field.name = .ok inner ∧ inner.schema = schema

theorem Atom.Typed.reliable {atom : Atom} (ht : atom.Typed) (hb : atom.schema.Built) :
    atom.Reliable where
  ground := ht.isGround
  length := (Atom.typed_iff.mp ht).length_eq.symm
  constant := fun field hf value hk => by
    obtain ⟨found, hg, hv⟩ := ht.get?_field hb hf
    rw [hk] at hv
    cases found with
    | term term =>
        rw [FieldValue.HasKind] at hv
        rw [hg, hv]
    | atom inner => exact absurd hv (by simp [FieldValue.HasKind])
  int := fun field hf hk => by
    obtain ⟨term, hg, hs⟩ := ht.get?_scalar hb hf hk
    obtain ⟨n, rfl, _⟩ | ⟨_, _, hne⟩ | ⟨_, _, hne⟩ := scalarKind?_cases hs
    · exact ⟨n, hg, Atom.scalar_eq_ok hg rfl⟩
    · exact absurd hne (by decide)
    · exact absurd hne (by decide)
  string := fun field hf hk => by
    obtain ⟨term, hg, hs⟩ := ht.get?_scalar hb hf hk
    obtain ⟨_, _, hne⟩ | ⟨s, rfl, _⟩ | ⟨_, _, hne⟩ := scalarKind?_cases hs
    · exact absurd hne (by decide)
    · exact ⟨s, hg, Atom.scalar_eq_ok hg rfl⟩
    · exact absurd hne (by decide)
  boolean := fun field hf hk => by
    obtain ⟨term, hg, hs⟩ := ht.get?_scalar hb hf hk
    obtain ⟨_, _, hne⟩ | ⟨_, _, hne⟩ | ⟨b, rfl, _⟩ := scalarKind?_cases hs
    · exact absurd hne (by decide)
    · exact absurd hne (by decide)
    · exact ⟨b, hg, Atom.scalar_eq_ok hg rfl⟩
  nested := fun _ hf _ hk => ht.nested_field hb hf hk

theorem Atom.Typed.reliable_of_reaches {atom inner : Atom} (ht : atom.Typed)
    (hb : atom.schema.Built) (h : atom.Reaches inner) : inner.Reliable := by
  have hinner : inner.schema.Built ∧ inner.Typed := by
    induction h with
    | refl => exact ⟨hb, ht⟩
    | tail _ hstep ih =>
        obtain ⟨name, hn⟩ := hstep
        exact ih.2.of_nested ih.1 hn
  exact hinner.2.reliable hinner.1

/--
**Decoding is total and what it gives can be relied on.** By a built schema, every
text either decodes, under whatever predicate, to an atom of the schema that is
reliable together with all atoms nested in it, or it is refused with an error
about the text. No cut that is made on the way leaves the text or splits a
character.
-/
theorem Schema.decode_total {schema : Schema} (hb : schema.Built) (predicate text : String) :
    (match schema.decode predicate text with
      | .ok atom => atom.schema = schema ∧ ∀ inner, atom.Reaches inner → inner.Reliable
      | .error e => e.OfText)
    ∧ (∀ s : String, dropParens s.toList = s.toList
        ∨ IsByteSlice s 1 (s.utf8ByteSize - 1) (.ofList (dropParens s.toList)))
    ∧ ∀ (s : String) (inner : List Char), Text.unquote? s.toList = some inner →
        IsByteSlice s 1 (s.utf8ByteSize - 1) (.ofList inner) := by
  refine ⟨?_, isByteSlice_dropParens, fun s inner h => isByteSlice_unquote h⟩
  have hyields := Schema.read_yields hb predicate text.toList
  unfold Schema.decode
  cases hr : schema.read predicate text.toList with
  | error e => rw [hr] at hyields; exact hyields
  | ok atom =>
      rw [hr] at hyields
      obtain ⟨hs, ht⟩ := hyields
      refine ⟨hs, fun inner hreach => ht.reliable_of_reaches ?_ hreach⟩
      rw [hs]
      exact hb

def personSchema : Schema := ⟨"person", [⟨"name", .scalar .string⟩, ⟨"age", .scalar .integer⟩]⟩

/-- A ticket with a constant and a person. -/
def ticketSchema : Schema :=
  ⟨"ticket", [⟨"open", .scalar .boolean⟩, ⟨"unit", .constant (.int 7)⟩,
    ⟨"owner", .atom personSchema⟩]⟩

def ticketOwner : Atom := ⟨personSchema, [.term (.str "é)"), .term (.int (-4))]⟩

def ticket : Atom := ⟨ticketSchema, [.term (.bool true), .term (.int 7), .atom ticketOwner]⟩

theorem read_ticketOwner :
    personSchema.read "person" "person(\"é)\",-4)".toList = .ok ticketOwner := by
  have hatom : isAtomOf "person".toList "person(\"é)\",-4)".toList = true := by decide
  have hargs : arguments "person".toList "person(\"é)\",-4)".toList
      = ["\"é)\"".toList, "-4".toList] := by decide
  have hname : ScalarKind.string.read? "\"é)\"".toList = some (.str "é)") := by decide
  have hage : ScalarKind.integer.read? "-4".toList = some (.int (-4)) := by decide
  have hread : readFields personSchema.predicate personSchema.fields
      ["\"é)\"".toList, "-4".toList] = .ok [.term (.str "é)"), .term (.int (-4))] :=
    (readFields_cons_eq_ok_iff rfl).mpr ⟨_, _, FieldKind.read_scalar hname,
      (readFields_cons_eq_ok_iff rfl).mpr ⟨_, _, FieldKind.read_scalar hage, rfl, rfl⟩, rfl⟩
  exact Schema.read_of_arguments hatom hargs rfl hread rfl

theorem decode_ticket :
    ticketSchema.decode "ticket" " ticket(true, person(\"é)\",-4))." = .ok ticket := by
  have hatom : isAtomOf "ticket".toList " ticket(true, person(\"é)\",-4)).".toList = true := by
    decide
  have hargs : arguments "ticket".toList " ticket(true, person(\"é)\",-4)).".toList
      = ["true".toList, "person(\"é)\",-4)".toList] := by decide
  have hopen : ScalarKind.boolean.read? "true".toList = some (.bool true) := by decide
  have hplain : isPlainValue "person(\"é)\",-4)".toList = false := by decide
  have howner : readFields ticketSchema.predicate [⟨"owner", .atom personSchema⟩]
      ["person(\"é)\",-4)".toList] = .ok [.atom ticketOwner] :=
    (readFields_cons_eq_ok_iff rfl).mpr
      ⟨_, _, FieldKind.read_atom hplain read_ticketOwner, rfl, rfl⟩
  have hread : readFields ticketSchema.predicate ticketSchema.fields
      ["true".toList, "person(\"é)\",-4)".toList]
        = .ok [.term (.bool true), .atom ticketOwner] := by
    refine (readFields_cons_eq_ok_iff rfl).mpr ⟨_, _, FieldKind.read_scalar hopen, ?_, rfl⟩
    rw [readFields_constant]
    exact howner
  exact Schema.read_of_arguments hatom hargs rfl hread rfl

/-- The ticket is reliable, and so is its owner. -/
theorem Schema.decode_total_ticket :
    ticketSchema.Built
      ∧ ticketSchema.decode "ticket" " ticket(true, person(\"é)\",-4))." = .ok ticket
      ∧ ∀ inner, ticket.Reaches inner → inner.Reliable := by
  have hb : ticketSchema.Built := by decide
  have h := Schema.decode_total hb "ticket" " ticket(true, person(\"é)\",-4))."
  rw [decode_ticket] at h
  exact ⟨hb, decode_ticket, h.1.2⟩

end AnswerSet
