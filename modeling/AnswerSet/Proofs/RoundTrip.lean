import AnswerSet.Proofs.Cutting
import AnswerSet.Proofs.Decoding

/-!
# Writing an atom and reading it back

An atom conforms to its schema when every field holds a value of its kind, all
the way down. A wildcard field may hold a plain value or a name, which are the
values that reading a wildcard can tell apart.

The induction is on how the schema was built. For one schema, the texts of the
values form a row of steady arguments, so the decoder finds exactly these texts;
each of them reads back as its value, by the facts about plain values or by the
induction hypothesis for the schema of a nested field; and the constants are put
back in place.
-/

namespace AnswerSet

open Scan

/-! ## Conforming atoms -/

/-- Reading a wildcard tells the term apart: it is a plain value or a name. -/
def Term.IsRecoverable (term : Term) : Prop :=
  (∃ kind, term.scalarKind? = some kind)
    ∨ ∃ name, term = .symbol name ∧ isPredicateName name = true ∧ name ≠ "true" ∧ name ≠ "false"

mutual

/-- Every field of the atom holds a value of its kind, at every depth. -/
def Atom.Conforms : Atom → Prop
  | ⟨schema, values⟩ => conformingValues schema.fields values

/-- There is one value for each field, and each is of its field's kind. -/
def conformingValues : List Field → List FieldValue → Prop
  | [], [] => True
  | field :: fields, value :: values => value.Fits field.kind ∧ conformingValues fields values
  | _, _ => False

/-- The value is of the kind, down to the constants of nested atoms. -/
def FieldValue.Fits : FieldKind → FieldValue → Prop
  | .scalar kind, .term term => term.scalarKind? = some kind
  | .any, .term term => term.IsRecoverable
  | .atom schema, .atom atom => atom.schema = schema ∧ atom.Conforms
  | .constant value, .term term => term = value
  | _, _ => False

end

/-! ## One value -/

section Value

variable {comma : String}

/-- Everything that writing and reading need to know about the text of one value. -/
structure ReadsBack (kind : FieldKind) (value : FieldValue) (text : String) : Prop where
  read : kind.read text.toList = .ok value
  steady : Steady text.toList
  trimmed : Text.trim text.toList = text.toList
  nonempty : text ≠ ""

theorem ReadsBack.isConstant {kind : FieldKind} {value : FieldValue} {text : String}
    (h : ReadsBack kind value text) : kind.isConstant = false := by
  cases kind with
  | constant term => exact absurd h.read (by simp [FieldKind.read])
  | scalar kind => rfl
  | any => rfl
  | atom schema => rfl

/-- By the schema, a text reads as the atom, whatever blanks and full stop are around it. -/
structure AtomReads (schema : Schema) (text : String) (atom : Atom) : Prop where
  steady : Steady text.toList
  read : ∀ before stop after, Text.Blank before → IsStop stop → Text.Blank after →
    schema.read schema.predicate (before ++ (text.toList ++ stop) ++ after) = .ok atom

theorem AtomReads.bare {schema : Schema} {text : String} {atom : Atom}
    (h : AtomReads schema text atom) : schema.read schema.predicate text.toList = .ok atom := by
  have hr := h.read [] [] [] Text.blank_nil (Or.inl rfl) Text.blank_nil
  rwa [List.nil_append, List.append_nil, List.append_nil] at hr

theorem readsBack_scalar {kind : ScalarKind} {term : Term} (h : term.scalarKind? = some kind) :
    ReadsBack (.scalar kind) (.term term) term.text where
  read := by
    rw [FieldKind.read, ScalarKind.read?_text h]
  steady := steady_scalar h
  trimmed := trim_scalar h
  nonempty := fun he => text_ne_nil_of_scalar h (by rw [he]; rfl)

theorem readsBack_any {term : Term} (h : term.IsRecoverable) :
    ReadsBack .any (.term term) term.text := by
  rcases h with ⟨kind, hk⟩ | ⟨name, rfl, hn, ht, hf⟩
  · have hs := readsBack_scalar hk
    exact ⟨by rw [FieldKind.read, readAny_text hk], hs.steady, hs.trimmed, hs.nonempty⟩
  · refine ⟨?_, steady_plain (plain_name hn), trim_plain (plain_name hn), ?_⟩
    · show Except.ok (FieldValue.term (readAny name.toList)) = _
      rw [readAny_name hn ht hf]
    · rintro he
      have he' : name = "" := he
      rw [he'] at hn
      exact absurd hn (by decide)

/-- The text of an atom is no plain value. -/
theorem isPlainValue_application {predicate : String} (hn : isPredicateName predicate = true)
    (texts : List String) : isPlainValue (application comma predicate texts).toList = false := by
  obtain ⟨c, cs, hp, hlower, _⟩ := exists_of_isPredicateName hn
  obtain ⟨rest, he, _⟩ := exists_application comma predicate texts
  obtain ⟨hquote, hword⟩ := isPlainValue_lower hlower (cs ++ rest)
  rw [he, hp, List.cons_append, isPlainValue, hquote, hword]
  rfl

/-- Nor is it empty: it starts with the predicate. -/
theorem application_ne_empty {predicate : String} (hn : isPredicateName predicate = true)
    (texts : List String) : application comma predicate texts ≠ "" := by
  obtain ⟨c, cs, hp, _⟩ := exists_of_isPredicateName hn
  obtain ⟨rest, he, _⟩ := exists_application comma predicate texts
  intro hempty
  rw [hempty, hp] at he
  exact absurd he (by simp)

/-- The text of an atom reads back in a nested field if it reads as that atom. -/
theorem readsBack_atom {schema : Schema} (hn : isPredicateName schema.predicate = true)
    {texts : List String} {atom : Atom}
    (h : AtomReads schema (application comma schema.predicate texts) atom) :
    ReadsBack (.atom schema) (.atom atom) (application comma schema.predicate texts) where
  read := FieldKind.read_atom (isPlainValue_application hn texts) h.bare
  steady := h.steady
  trimmed := trim_application hn
  nonempty := application_ne_empty hn texts

/-- A wildcard takes any text that keeps its place among the arguments. -/
theorem readsBack_wildcard {text : String} (hs : Steady text.toList)
    (ht : Text.trim text.toList = text.toList) (hne : text ≠ "") :
    ReadsBack .any (.term (readAny text.toList)) text :=
  ⟨by rw [FieldKind.read], hs, ht, hne⟩

end Value

/-! ## All fields -/

/--
The values of the fields read back from the texts, one text for each field that
is not a constant. A constant has no text, and its value is the schema's.
-/
inductive LaidOut : List Field → List FieldValue → List String → Prop
  | nil : LaidOut [] [] []
  | constant {name : String} {value : Term} {fields : List Field} {values : List FieldValue}
      {texts : List String} :
      LaidOut fields values texts →
      LaidOut (⟨name, .constant value⟩ :: fields) (.term value :: values) texts
  | written {name : String} {kind : FieldKind} {value : FieldValue} {text : String}
      {fields : List Field} {values : List FieldValue} {texts : List String} :
      ReadsBack kind value text → LaidOut fields values texts →
      LaidOut (⟨name, kind⟩ :: fields) (value :: values) (text :: texts)

section LaidOut

variable {fields : List Field} {values : List FieldValue} {texts : List String}

theorem LaidOut.of_mem (h : LaidOut fields values texts) {text : String} (ht : text ∈ texts) :
    ∃ kind value, ReadsBack kind value text := by
  induction h with
  | nil => exact absurd ht (by simp)
  | constant _ ih => exact ih ht
  | written hback _ ih =>
      rcases List.mem_cons.mp ht with rfl | ht
      · exact ⟨_, _, hback⟩
      · exact ih ht

/-- Each text is found as an argument. -/
theorem LaidOut.isArgument (h : LaidOut fields values texts) : ∀ text ∈ texts, IsArgument text := by
  intro text ht
  obtain ⟨kind, value, hback⟩ := h.of_mem ht
  exact isArgument_of_steady hback.steady hback.trimmed hback.nonempty

/-- The texts read as values, and with these the constants return to their places. -/
theorem LaidOut.read (predicate : String) (h : LaidOut fields values texts) :
    ∃ written, readFields predicate fields (texts.map String.toList) = .ok written
      ∧ dealValues predicate fields written = .ok values
      ∧ written.length = texts.length
      ∧ texts.length = Schema.arity ⟨predicate, fields⟩ := by
  induction h with
  | nil => exact ⟨[], rfl, rfl, rfl, rfl⟩
  | @constant name value fields values texts _ ih =>
      obtain ⟨written, hread, hdeal, hlen, harity⟩ := ih
      refine ⟨written, ?_, ?_, hlen, harity⟩
      · rw [readFields_constant]
        exact hread
      · exact dealValues_constant_eq_ok_iff.mpr ⟨values, hdeal, rfl⟩
  | @written name kind value text fields values texts hback _ ih =>
      obtain ⟨written, hread, hdeal, hlen, harity⟩ := ih
      have hk := hback.isConstant
      have haccepts := FieldKind.accepts_of_read hback.read
      refine ⟨value :: written, ?_, ?_, ?_, ?_⟩
      · exact (readFields_cons_eq_ok_iff hk).mpr ⟨value, written, hback.read, hread, rfl⟩
      · exact (dealValues_cons_eq_ok_iff hk).mpr ⟨haccepts, values, hdeal, rfl⟩
      · rw [List.length_cons, List.length_cons, hlen]
      · rw [List.length_cons, arity_cons hk, harity]

/-- **An application of texts that read back reads as the atom of their values.** -/
theorem LaidOut.atomReads {comma : String} (hc : Spaced comma) {schema : Schema}
    (hn : isPredicateName schema.predicate = true) (h : LaidOut schema.fields values texts) :
    AtomReads schema (application comma schema.predicate texts) ⟨schema, values⟩ := by
  refine ⟨steady_application hn hc fun text ht => (h.isArgument text ht).steady,
    fun before stop after hbf hs haf => ?_⟩
  have hargs := arguments_of_isArgument hn hc h.isArgument hs hbf haf
  obtain ⟨written, hread, hdeal, hlen, harity⟩ := h.read schema.predicate
  refine Schema.read_of_arguments (isAtomOf_application hn hs hbf haf) hargs ?_ hread
    (Atom.ofValues_eq_ok_iff.mpr ⟨hlen.trans harity, values, hdeal, rfl⟩)
  rw [List.length_map]
  exact harity

end LaidOut

/-! ## Conforming values -/

/-- Conforming atoms of the schema read back. -/
def AtomReadsBack (comma : String) (schema : Schema) : Prop :=
  ∀ atom : Atom, atom.schema = schema → atom.Conforms →
    AtomReads schema (atom.spelled comma) atom

section Conforming

variable {comma : String}

theorem readsBack_value {kind : FieldKind} (hk : kind.isConstant = false)
    (ih : ∀ inner, kind = .atom inner → inner.Built ∧ AtomReadsBack comma inner)
    {value : FieldValue} (h : value.Fits kind) : ReadsBack kind value (value.spelled comma) := by
  cases kind with
  | constant value => exact absurd hk (by simp [FieldKind.isConstant])
  | scalar kind =>
      cases value with
      | atom atom => exact absurd h (by simp [FieldValue.Fits])
      | term term => exact readsBack_scalar h
  | any =>
      cases value with
      | atom atom => exact absurd h (by simp [FieldValue.Fits])
      | term term => exact readsBack_any h
  | atom schema =>
      obtain ⟨hb, hr⟩ := ih schema rfl
      cases value with
      | term term => exact absurd h (by simp [FieldValue.Fits])
      | atom atom =>
          rw [FieldValue.Fits] at h
          obtain ⟨rfl, hconf⟩ := h
          have hreads := hr atom rfl hconf
          rw [Atom.spelled_eq] at hreads
          rw [FieldValue.spelled, Atom.spelled_eq]
          exact readsBack_atom hb.name hreads

/-- All values that are written read back from their texts. -/
theorem laidOut_spelled {fields : List Field}
    (ih : ∀ field ∈ fields, ∀ inner, field.kind = .atom inner →
      inner.Built ∧ AtomReadsBack comma inner)
    {values : List FieldValue} (h : conformingValues fields values) :
    LaidOut fields values (spelledFields comma fields values) := by
  induction fields generalizing values with
  | nil =>
      cases values with
      | nil => exact .nil
      | cons value values => exact absurd h (by simp [conformingValues])
  | cons field fields ihf =>
      cases values with
      | nil => exact absurd h (by simp [conformingValues])
      | cons value values =>
          obtain ⟨name, kind⟩ := field
          rw [conformingValues] at h
          have hrest := ihf (fun f hf => ih f (List.mem_cons_of_mem _ hf)) h.2
          cases hk : kind.isConstant with
          | true =>
              -- the value is the constant, which is neither written nor read
              obtain ⟨constant, rfl⟩ := FieldKind.exists_of_isConstant hk
              cases value with
              | atom atom => exact absurd h.1 (by simp [FieldValue.Fits])
              | term term =>
                  have ht : term = constant := by simpa [FieldValue.Fits] using h.1
                  subst ht
                  rw [spelledFields_constant]
                  exact .constant hrest
          | false =>
              -- the value is written, found as the next argument and read by its own field
              rw [spelledFields_written hk]
              exact .written (readsBack_value hk (ih ⟨name, kind⟩ List.mem_cons_self) h.1) hrest

end Conforming

/-! ## Whole atoms -/

theorem atomReadsBack {comma : String} (hc : Spaced comma) {schema : Schema}
    (hb : schema.Built) : AtomReadsBack comma schema := by
  induction hb with
  | @intro predicate fields schema hbuild hnested ih =>
      obtain ⟨rfl, hn, _⟩ := Schema.build_eq_ok hbuild
      rintro ⟨_, values⟩ rfl hconf
      rw [Atom.Conforms] at hconf
      exact (laidOut_spelled
        (fun f hf inner hi => ⟨hnested f hf inner hi, ih f hf inner hi⟩) hconf).atomReads hc hn

/--
**Encode, then decode.** A conforming atom of a built schema reads back exactly,
at every depth and whatever its strings contain, from the text of a program as
well as from the solver's, with blanks around it and a full stop behind it or
without.
-/
theorem Atom.decode_of_conforms {atom : Atom} (hb : atom.schema.Built) (hconf : atom.Conforms)
    {text before stop after : String} (ht : text = atom.text ∨ text = atom.solverText)
    (hbf : Text.Blank before.toList) (hs : stop = "" ∨ stop = ".")
    (haf : Text.Blank after.toList) :
    atom.schema.decode atom.schema.predicate (before ++ (text ++ stop) ++ after) = .ok atom := by
  have hstop : IsStop stop.toList := by
    rcases hs with rfl | rfl
    · exact Or.inl rfl
    · exact Or.inr rfl
  unfold Schema.decode
  rw [String.toList_append, String.toList_append, String.toList_append]
  rcases ht with rfl | rfl
  · exact (atomReadsBack spaced_program hb atom rfl hconf).2 _ _ _ hbf hstop haf
  · exact (atomReadsBack spaced_solver hb atom rfl hconf).2 _ _ _ hbf hstop haf

/-- A schema with a string, a constant and a nested atom of two fields. -/
def parcelSchema : Schema :=
  ⟨"parcel", [⟨"label", .scalar .string⟩, ⟨"unit", .constant (.symbol "kg")⟩,
    ⟨"target", .atom ⟨"node'", [⟨"id", .any⟩, ⟨"weight", .scalar .integer⟩]⟩⟩]⟩

/-- An atom whose label has everything in it that needs care. -/
def parcel : Atom :=
  ⟨parcelSchema, [.term (.str "a\",) (\\\n"), .term (.symbol "kg"),
    .atom ⟨⟨"node'", [⟨"id", .any⟩, ⟨"weight", .scalar .integer⟩]⟩,
      [.term (.symbol "x"), .term (.int (-7))]⟩]⟩

theorem parcel_conforms : parcel.Conforms := by
  refine ⟨rfl, rfl, ⟨rfl, ?_, rfl, trivial⟩, trivial⟩
  exact Or.inr ⟨"x", rfl, by decide, by decide, by decide⟩

/-- The parcel reads back from the solver's text, with blanks and a full stop. -/
theorem Atom.decode_parcel :
    parcel.schema.Built ∧ parcel.Conforms ∧
      parcelSchema.decode "parcel" (" \n" ++ (parcel.solverText ++ ".") ++ "\t") = .ok parcel :=
  ⟨by decide, parcel_conforms,
    Atom.decode_of_conforms (by decide) parcel_conforms (Or.inr rfl)
      (by decide) (Or.inr rfl) (by decide)⟩

end AnswerSet
