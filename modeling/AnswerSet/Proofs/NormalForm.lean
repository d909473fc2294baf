import AnswerSet.Proofs.Nesting
import AnswerSet.Proofs.RoundTrip

/-!
# Reading any text twice

Text that decodes need not be well formed. A string may be left open, a
parenthesis may be missing or be one too many, a wildcard may take in whatever
stands there. What comes out is nevertheless fixed by what is written for it:
the text of the atom decodes to the same atom.

A wildcard that read no plain value is written as the very text it was read from,
so nothing is known about its shape. All that can be said is that what is written
for a value can stand where the value was found (`Follows`). At the top level that
keeps the cuts between the arguments. One level down it keeps the cuts of the
inner text where the outer text has none, and that is what carries the induction
over nested schemas.
-/

namespace AnswerSet

open Scan

/-! ## One value -/

/-- What is written for a value can stand where the value was read. -/
structure Rewrites (comma : String) (cs : List Char) (value : FieldValue) : Prop where
  follows : Follows cs (value.spelled comma).toList
  trimmed : Text.trim (value.spelled comma).toList = (value.spelled comma).toList
  nonempty : cs ≠ [] → value.spelled comma ≠ ""

/-- Whatever decodes by the schema decodes again from the atom's text, and to the same atom. -/
def Rereads (comma : String) (schema : Schema) : Prop :=
  ∀ cs atom, schema.read schema.predicate cs = .ok atom →
    schema.read schema.predicate (atom.spelled comma).toList = .ok atom
      ∧ Follows cs (atom.spelled comma).toList

section Value

variable {comma : String} {cs : List Char} {value : FieldValue}

theorem ReadsBack.rewrites {kind : FieldKind} (h : ReadsBack kind value (value.spelled comma)) :
    Rewrites comma cs value :=
  ⟨follows_steady cs h.steady, h.trimmed, fun _ => h.nonempty⟩

/-- A plain value is written as a steady text. -/
theorem rereads_scalar {kind : ScalarKind}
    (h : (FieldKind.scalar kind).read cs = .ok value) :
    (FieldKind.scalar kind).read (value.spelled comma).toList = .ok value
      ∧ Rewrites comma cs value := by
  obtain ⟨term, hr, rfl⟩ := FieldKind.read_scalar_eq_ok h
  have hback : ReadsBack _ _ (FieldValue.spelled comma (.term term)) :=
    readsBack_scalar (ScalarKind.read?_kind hr)
  exact ⟨hback.read, hback.rewrites⟩

/-- A symbol is written as it was read, so there is nothing to show about its shape. -/
theorem rereads_any (ht : Text.trim cs = cs) (h : FieldKind.any.read cs = .ok value) :
    FieldKind.any.read (value.spelled comma).toList = .ok value ∧ Rewrites comma cs value := by
  rw [FieldKind.read] at h
  injection h with h
  subst h
  rcases readAny_cases cs with ⟨kind, hk⟩ | hsymbol
  · have hback : ReadsBack _ _ (FieldValue.spelled comma (.term (readAny cs))) :=
      readsBack_any (Or.inl ⟨kind, hk⟩)
    exact ⟨hback.read, hback.rewrites⟩
  · have htext : (FieldValue.spelled comma (.term (readAny cs))).toList = cs := by
      rw [hsymbol]
      exact String.toList_ofList
    refine ⟨by rw [htext, FieldKind.read], ?_, by rw [htext, ht], fun hne he => hne ?_⟩
    · rw [htext]
      exact follows_refl cs
    · rw [← htext, he]
      rfl

theorem rereads_atom {schema : Schema} (hb : schema.Built) (ih : Rereads comma schema)
    (h : (FieldKind.atom schema).read cs = .ok value) :
    (FieldKind.atom schema).read (value.spelled comma).toList = .ok value
      ∧ Rewrites comma cs value := by
  -- the inner text was read by the nested schema, to which the hypothesis applies
  obtain ⟨atom, hread, rfl⟩ := FieldKind.read_atom_eq_ok h
  obtain ⟨hagain, hfollows⟩ := ih cs atom hread
  have hn : isPredicateName atom.schema.predicate = true := by
    rw [schema_of_read hread]
    exact hb.name
  refine ⟨?_, hfollows, ?_, fun _ => ?_⟩
  · have hplain : isPlainValue (atom.spelled comma).toList = false := by
      rw [Atom.spelled_eq]
      exact isPlainValue_application hn _
    exact FieldKind.read_atom hplain hagain
  · rw [FieldValue.spelled, Atom.spelled_eq]
    exact trim_application hn
  · rw [FieldValue.spelled, Atom.spelled_eq]
    exact application_ne_empty hn _

/-- **Reading a value, writing it and reading it again.** -/
theorem rereads_value {kind : FieldKind}
    (ih : ∀ inner, kind = .atom inner → inner.Built ∧ Rereads comma inner)
    (ht : Text.trim cs = cs) (h : kind.read cs = .ok value) :
    kind.read (value.spelled comma).toList = .ok value ∧ Rewrites comma cs value := by
  cases kind with
  | scalar kind => exact rereads_scalar h
  | any => exact rereads_any ht h
  | atom schema =>
      obtain ⟨hb, hr⟩ := ih schema rfl
      exact rereads_atom hb hr h
  | constant term =>
      rw [FieldKind.read] at h
      exact absurd h (by simp)

end Value

/-! ## All fields -/

/-- As many values as arguments are read, and dealing them out adds the constants only. -/
theorem readFields_reread (predicate : String) {comma : String} {fields : List Field}
    (ih : ∀ field ∈ fields, ∀ inner, field.kind = .atom inner →
      inner.Built ∧ Rereads comma inner)
    {found : List (List Char)} {values dealt : List FieldValue}
    (hlen : found.length = Schema.arity ⟨predicate, fields⟩)
    (ht : ∀ cs ∈ found, Text.trim cs = cs)
    (hread : readFields predicate fields found = .ok values)
    (hdeal : dealValues predicate fields values = .ok dealt) :
    writtenValues fields dealt = values
      ∧ readFields predicate fields (values.map fun value => (value.spelled comma).toList)
          = .ok values
      ∧ List.Forall₂ (Rewrites comma) found values := by
  induction fields using fields_induction generalizing found values dealt with
  | nil =>
      rw [List.length_eq_zero_iff.mp hlen] at hread ⊢
      injection hread with hread
      subst hread
      exact ⟨by cases dealt <;> rfl, rfl, .nil⟩
  | constant name constant fields ihf =>
      -- a constant takes no argument and adds no text
      rw [readFields_constant] at hread
      obtain ⟨rest, hrest, rfl⟩ := dealValues_constant_eq_ok_iff.mp hdeal
      obtain ⟨hw, hagain, hall⟩ :=
        ihf (fun f hf => ih f (List.mem_cons_of_mem _ hf)) hlen ht hread hrest
      refine ⟨hw, ?_, hall⟩
      rw [readFields_constant]
      exact hagain
  | written name kind fields hk ihf =>
      rw [arity_cons hk] at hlen
      cases found with
      | nil => exact absurd hlen (by simp)
      | cons cs found =>
          obtain ⟨value, values, hv, hothers, rfl⟩ := (readFields_cons_eq_ok_iff hk).mp hread
          obtain ⟨_, rest, hrest, rfl⟩ := (dealValues_cons_eq_ok_iff hk).mp hdeal
          obtain ⟨hagain, hrew⟩ := rereads_value (ih ⟨name, kind⟩ List.mem_cons_self)
            (ht cs List.mem_cons_self) hv
          obtain ⟨hw, hreread, hall⟩ := ihf (fun f hf => ih f (List.mem_cons_of_mem _ hf))
            (Nat.succ_inj.mp hlen) (fun p hp => ht p (List.mem_cons_of_mem _ hp)) hothers hrest
          refine ⟨?_, ?_, .cons hrew hall⟩
          · rw [writtenValues, Field.isConstant, hk, if_neg Bool.false_ne_true, hw]
          · exact (readFields_cons_eq_ok_iff hk).mpr ⟨value, values, hagain, hreread, rfl⟩

section Texts

variable {comma : String} {found : List (List Char)} {values : List FieldValue}

theorem trimmed_of_rewrites (h : List.Forall₂ (Rewrites comma) found values) :
    ∀ text ∈ values.map (·.spelled comma), Text.trim text.toList = text.toList := by
  induction h with
  | nil => simp
  | cons hr _ ih =>
      intro text ht
      rw [List.map_cons] at ht
      rcases List.mem_cons.mp ht with rfl | ht
      · exact hr.trimmed
      · exact ih text ht

/-- A single text is not empty, for a single argument is not. -/
theorem ne_empty_of_rewrites (h : List.Forall₂ (Rewrites comma) found values)
    (hne : found ≠ [[]]) : values.map (·.spelled comma) ≠ [""] := by
  intro he
  obtain ⟨value, rfl, htext⟩ := List.map_eq_singleton_iff.mp he
  obtain ⟨p, rest, hr, hrest, rfl⟩ := List.forall₂_cons_right_iff.mp h
  rw [List.forall₂_nil_right_iff.mp hrest] at hne
  exact hr.nonempty (fun hp => hne (by rw [hp])) htext

end Texts

/-! ## Whole atoms -/

theorem rereads {comma : String} (hc : Spaced comma) {schema : Schema} (hb : schema.Built) :
    Rereads comma schema := by
  induction hb with
  | @intro predicate fields schema hbuild hnested ih =>
      obtain ⟨rfl, hn, _⟩ := Schema.build_eq_ok hbuild
      intro cs atom hread
      obtain ⟨hatom, hlen, values, hvalues, hof⟩ := Schema.read_eq_ok_iff.mp hread
      obtain ⟨hcount, dealt, hdeal, rfl⟩ := Atom.ofValues_eq_ok_iff.mp hof
      obtain ⟨hw, hagain, hall⟩ := readFields_reread predicate
        (fun f hf inner hi => ⟨hnested f hf inner hi, ih f hf inner hi⟩) hlen
        (fun _ hp => trim_of_mem_arguments hp) hvalues hdeal
      have hspelled : Atom.spelled comma ⟨⟨predicate, fields⟩, dealt⟩
          = application comma predicate (values.map (·.spelled comma)) := by
        rw [Atom.spelled_eq]
        exact congrArg (fun vs => application comma predicate (vs.map (·.spelled comma))) hw
      have hmap : (values.map (·.spelled comma)).map String.toList
          = values.map fun value => (value.spelled comma).toList := List.map_map
      have hfollows : List.Forall₂ Follows (arguments predicate.toList cs)
          ((values.map (·.spelled comma)).map String.toList) := by
        rw [hmap, List.forall₂_map_right_iff]
        exact hall.imp fun _ _ hr => hr.follows
      -- the cuts that were made in `cs` are the cuts between the new texts
      have hrow := (row_arguments predicate.toList cs).of_forall₂ hfollows
        (fun _ _ hpq hp => hpq.closed hp) fun _ _ hpq hp => hpq.uncut hp
      have hargs := arguments_bare hn hc (ne_empty_of_rewrites hall arguments_ne_singleton)
        (trimmed_of_rewrites hall) hrow
      rw [hmap] at hargs
      rw [hspelled]
      refine ⟨Schema.read_eq_ok_iff.mpr ⟨isAtomOf_bare hn, ?_, values, ?_, hof⟩,
        follows_application hn hc hatom hfollows⟩
      · rw [hargs, List.length_map]
        exact hcount
      · rw [hargs]
        exact hagain

/--
**Decode, then encode.** Whatever text decodes by a built schema, well formed or
not, the text of the resulting atom decodes to the same atom.
-/
theorem Schema.decode_text_of_decode {schema : Schema} (hb : schema.Built) {text : String}
    {atom : Atom} (h : schema.decode schema.predicate text = .ok atom) :
    schema.decode schema.predicate atom.text = .ok atom :=
  (rereads spaced_program hb text.toList atom h).1

/-- A schema of one wildcard. -/
def itemSchema : Schema := ⟨"q", [⟨"item", .any⟩]⟩

/-- A wildcard next to a nested atom. -/
def looseSchema : Schema := ⟨"p", [⟨"head", .any⟩, ⟨"rest", .atom itemSchema⟩]⟩

/-- The item of `q("b`, an open string behind a parenthesis that is not closed. -/
def itemAtom : Atom := ⟨itemSchema, [.term (.symbol "(\"b")]⟩

/-- What `p(a)),q("b` is read as: both wildcards keep a parenthesis. -/
def looseAtom : Atom := ⟨looseSchema, [.term (.symbol "(a))"), .atom itemAtom]⟩

theorem read_itemAtom : itemSchema.read "q" "q(\"b".toList = .ok itemAtom :=
  Schema.read_eq_ok_iff.mpr ⟨by decide, by decide, _,
    (readFields_cons_eq_ok_iff rfl).mpr ⟨_, _, rfl, rfl, rfl⟩, rfl⟩

theorem decode_looseAtom : looseSchema.decode "p" "p(a)),q(\"b" = .ok looseAtom := by
  have hitem : (FieldKind.atom itemSchema).read "q(\"b".toList = .ok (.atom itemAtom) := by
    rw [FieldKind.read, show isPlainValue "q(\"b".toList = false by decide]
    exact congrArg (Except.map FieldValue.atom) read_itemAtom
  exact Schema.read_eq_ok_iff.mpr ⟨by decide, by decide, _,
    (readFields_cons_eq_ok_iff rfl).mpr ⟨_, _, rfl,
      (readFields_cons_eq_ok_iff rfl).mpr ⟨_, _, hitem, rfl, rfl⟩, rfl⟩, rfl⟩

/-- Too many closing parentheses, an open string, and no parenthesis at the end. -/
theorem Schema.decode_text_looseAtom :
    looseSchema.Built ∧ looseSchema.decode "p" "p(a)),q(\"b" = .ok looseAtom
      ∧ looseSchema.decode "p" looseAtom.text = .ok looseAtom :=
  have hb : looseSchema.Built := by decide
  ⟨hb, decode_looseAtom, Schema.decode_text_of_decode hb decode_looseAtom⟩

end AnswerSet
