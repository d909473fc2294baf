import AnswerSet.Proofs.Construction

/-!
# The shape of an atom

An atom is a schema and a list of values, and nothing in its type ties the two
together. What ties them together is that every way to an atom goes through its
schema. `Atom.Obtained` lists the ways: an atom is left open, set field by field,
given all values in order, decoded, or taken out of a nested field of another one.

Taking atoms out adds nothing. The values of an atom that are atoms were made
before it, by the same ways (`Atom.Constructed.inner`), so the last way can be
left out of account. For each of the others it is enough to look at the values of
one atom: each suits the kind of its field (`Atom.Constructed.suits`), and the kinds
are compared with no more than the predicate of a nested atom, so nothing has to
be known about the atoms inside.

From this the rest follows: names lead to the values beside them, the text has one
argument for each written field, and an accessor fails on a field of its kind only
if the field was left open.
-/

namespace AnswerSet

/-! ## All atoms that can be obtained -/

/--
The atoms that can be obtained with built schemas: left open, set field by field,
given all values in order, decoded, or taken out of a nested field. The atoms among
the values that are set or given were obtained in these ways as well.
-/
inductive Atom.Obtained : Atom → Prop
  | any {schema : Schema} (n : Nat) : schema.Built → Obtained (schema.any.run n).1
  | build {schema : Schema} {settings : List (String × FieldValue)} {n : Nat} {atom : Atom} :
      schema.Built →
      (∀ setting ∈ settings, ∀ inner, setting.2 = .atom inner → Obtained inner) →
      (((schema.atom.setAll settings).build).run n).1 = .ok atom →
      Obtained atom
  | ofValues {schema : Schema} {values : List FieldValue} {atom : Atom} :
      schema.Built →
      (∀ value ∈ values, ∀ inner, value = .atom inner → Obtained inner) →
      Atom.ofValues schema values = .ok atom →
      Obtained atom
  | decode {schema : Schema} {predicate text : String} {atom : Atom} :
      schema.Built → schema.decode predicate text = .ok atom → Obtained atom
  | nested {atom inner : Atom} {name : String} :
      Obtained atom → atom.nested name = .ok inner → Obtained inner

/-! ### Atoms inside of atoms -/

/-- Every value that was read was read for some field. -/
theorem exists_read_of_mem {predicate : String} {fields : List Field} {found : List (List Char)}
    {values : List FieldValue} (h : readFields predicate fields found = .ok values)
    {value : FieldValue} (hv : value ∈ values) :
    ∃ field ∈ fields, ∃ cs, field.kind.read cs = .ok value := by
  rw [readFields_eq_mapM] at h
  obtain ⟨⟨field, cs⟩, hm, hread⟩ := exists_of_mem_mapM h hv
  exact ⟨field, List.mem_of_mem_filter (List.of_mem_zip hm).1, cs, Except.mapError_eq_ok.mp hread⟩

theorem FieldKind.read_eq_ok_atom {kind : FieldKind} {cs : List Char} {inner : Atom}
    (h : kind.read cs = .ok (.atom inner)) :
    ∃ schema, kind = .atom schema ∧ schema.read schema.predicate cs = .ok inner := by
  cases kind with
  | atom schema =>
      obtain ⟨atom, hread, he⟩ := FieldKind.read_atom_eq_ok h
      injection he with he
      exact ⟨schema, rfl, by rw [he]; exact hread⟩
  | scalar kind =>
      obtain ⟨term, _, he⟩ := FieldKind.read_scalar_eq_ok h
      exact absurd he (by simp)
  | any =>
      rw [FieldKind.read] at h
      exact absurd h (by simp)
  | constant value =>
      rw [FieldKind.read] at h
      exact absurd h (by simp)

/-- The value is no atom, or an atom that was made with built schemas. -/
def FieldValue.Made (value : FieldValue) : Prop :=
  ∀ inner, value = .atom inner → inner.Constructed Schema.Built

theorem FieldValue.made_term (term : Term) : (FieldValue.term term).Made := by
  intro inner he
  exact absurd he (by simp)

theorem FieldKind.made_openValue {kind : FieldKind}
    (hb : ∀ inner, kind = .atom inner → inner.Built) (n : Nat) :
    (kind.openValue.run n).1.Made := by
  cases kind with
  | atom schema =>
      intro inner he
      rw [run_openValue_atom] at he
      injection he with he
      rw [← he]
      exact .any n (hb schema rfl)
  | scalar kind => exact FieldValue.made_term _
  | any => exact FieldValue.made_term _
  | constant value => exact FieldValue.made_term _

theorem made_of_read {predicate : String} {schema : Schema} (hb : schema.Built)
    {found : List (List Char)} {values : List FieldValue}
    (h : readFields predicate schema.fields found = .ok values) :
    ∀ value ∈ values, value.Made := by
  rintro value hv inner rfl
  obtain ⟨field, hf, cs, hread⟩ := exists_read_of_mem h hv
  obtain ⟨declared, hk, hread⟩ := FieldKind.read_eq_ok_atom hread
  have hdecode : declared.decode declared.predicate (.ofList cs) = .ok inner := by
    rw [Schema.decode, String.toList_ofList]
    exact hread
  exact .decode (hb.inner hf hk) hdecode

/-! ### What stands in a field -/

namespace Atom

section Holds

variable {P : Field → FieldValue → Prop}

theorem forall₂_of_ofValues {schema : Schema} {values : List FieldValue} {atom : Atom}
    (hconst : ∀ field value, field.kind = .constant value → P field (.term value))
    (hchecked : ∀ field value, field.isConstant = false → field.kind.accepts value = true →
      value.Made → P field value)
    (hmade : ∀ value ∈ values, value.Made) (h : Atom.ofValues schema values = .ok atom) :
    atom.schema = schema ∧ List.Forall₂ P schema.fields atom.values := by
  obtain ⟨hlen, dealt, hdeal, rfl⟩ := Atom.ofValues_eq_ok_iff.mp h
  refine ⟨rfl, forall₂_of_dealValues (fun field _ value hk => hconst field value hk) ?_ hlen hdeal⟩
  exact fun field _ value hm hk haccepts => hchecked field value hk haccepts (hmade value hm)

/--
**A field holds one of three things**: an open value, its constant, or a value that
was checked against its kind. What is true of these is true of all fields of an
atom, in whatever way it was made. In the last case the value was made before.
-/
theorem Constructed.forall₂ {atom : Atom} (h : atom.Constructed Schema.Built)
    (hopen : ∀ schema : Schema, schema.Built → ∀ field ∈ schema.fields, ∀ n,
      P field (field.kind.openValue.run n).1)
    (hconst : ∀ field value, field.kind = .constant value → P field (.term value))
    (hchecked : ∀ field value, field.isConstant = false → field.kind.accepts value = true →
      value.Made → P field value) :
    atom.schema.Built ∧ List.Forall₂ P atom.schema.fields atom.values := by
  cases h with
  | @any schema n hb =>
      obtain ⟨predicate, fields⟩ := schema
      rw [run_any]
      exact ⟨hb, forall₂_openValues (hopen _ hb) n⟩
  | build hb hinner hbuild =>
      obtain ⟨rfl, hvalues⟩ := AtomBuilder.forall₂_of_build (hopen _ hb)
        (fun field _ setting hm hk haccepts =>
          hchecked field setting.2 hk haccepts (hinner setting hm)) hbuild
      exact ⟨hb, hvalues⟩
  | ofValues hb hinner hof =>
      obtain ⟨rfl, hvalues⟩ := forall₂_of_ofValues hconst hchecked hinner hof
      exact ⟨hb, hvalues⟩
  | decode hb hdecode =>
      obtain ⟨_, _, values, hread, hof⟩ := Schema.read_eq_ok_iff.mp hdecode
      obtain ⟨rfl, hvalues⟩ := forall₂_of_ofValues hconst hchecked (made_of_read hb hread) hof
      exact ⟨hb, hvalues⟩

end Holds

theorem forall_of_forall₂ {α β : Type} {Q : β → Prop} {xs : List α} {ys : List β}
    (h : List.Forall₂ (fun _ y => Q y) xs ys) : ∀ y ∈ ys, Q y := by
  induction h with
  | nil => simp
  | cons hy _ ih => exact List.forall_mem_cons.mpr ⟨hy, ih⟩

/-- **The atoms in an atom were made before it.** -/
theorem Constructed.inner {atom inner : Atom} (h : atom.Constructed Schema.Built)
    (hm : .atom inner ∈ atom.values) : inner.Constructed Schema.Built := by
  obtain ⟨_, hall⟩ := h.forall₂ (P := fun _ value => value.Made)
    (fun schema hb field hf n => FieldKind.made_openValue (fun _ hk => hb.inner hf hk) n)
    (fun _ value _ => FieldValue.made_term value) (fun _ _ _ _ hmade => hmade)
  exact forall_of_forall₂ hall _ hm inner rfl

theorem get?_of_nested {atom inner : Atom} {name : String} (h : atom.nested name = .ok inner) :
    atom.get? name = some (.atom inner) := by
  unfold nested at h
  split at h
  · rename_i found hg
    injection h with h
    rw [hg, h]
  · exact absurd h (by simp)
  · exact absurd h (by simp)

theorem mem_of_get? {atom : Atom} {name : String} {value : FieldValue}
    (h : atom.get? name = some value) : value ∈ atom.values := by
  obtain ⟨i, _, hv⟩ := Option.bind_eq_some_iff.mp h
  exact List.mem_of_getElem? hv

/-- Taking atoms out of nested fields adds nothing to what can be made. -/
theorem Obtained.constructed {atom : Atom} (h : atom.Obtained) :
    atom.Constructed Schema.Built := by
  induction h with
  | any n hb => exact .any n hb
  | build hb _ hbuild ih => exact .build hb ih hbuild
  | ofValues hb _ hof ih => exact .ofValues hb ih hof
  | decode hb hdecode => exact .decode hb hdecode
  | nested _ hnested ih => exact ih.inner (mem_of_get? (get?_of_nested hnested))

end Atom

/-! ## Values that fit their fields -/

/-- What may stand in a field of the kind: the constant, an unbound term, or a value of the kind. Of
a nested atom only the predicate is declared. -/
inductive FieldValue.Suits : FieldKind → FieldValue → Prop
  | constant {value : Term} : Suits (.constant value) (.term value)
  | unbound {kind : FieldKind} {v : Variable} : kind.isConstant = false →
      Suits kind (.term (.unbound v))
  | scalar {kind : ScalarKind} {term : Term} : term.scalarKind? = some kind →
      Suits (.scalar kind) (.term term)
  | atom {schema : Schema} {inner : Atom} : inner.predicate = schema.predicate →
      Suits (.atom schema) (.atom inner)
  | any {value : FieldValue} : Suits .any value

namespace FieldKind

theorem suits_of_accepts {kind : FieldKind} {value : FieldValue} (hk : kind.isConstant = false)
    (h : kind.accepts value = true) : value.Suits kind := by
  unfold accepts at h
  split at h
  · exact .unbound hk
  · exact .any
  · exact .scalar (of_decide_eq_true h)
  · exact .atom (of_decide_eq_true h)
  · exact absurd h Bool.false_ne_true

theorem suits_openValue (kind : FieldKind) (n : Nat) : (kind.openValue.run n).1.Suits kind := by
  cases kind with
  | atom schema =>
      rw [run_openValue_atom]
      refine .atom ?_
      obtain ⟨predicate, fields⟩ := schema
      rw [run_any]
      rfl
  | scalar kind => exact .unbound rfl
  | any => exact .unbound rfl
  | constant value => exact .constant

end FieldKind

/-- **Every value suits its field.** -/
theorem Atom.Constructed.suits {atom : Atom} (h : atom.Constructed Schema.Built) :
    atom.schema.Built
      ∧ List.Forall₂ (fun field value => value.Suits field.kind)
          atom.schema.fields atom.values := by
  refine h.forall₂ (fun _ _ field _ n => field.kind.suits_openValue n) ?_ ?_
  · intro field value hk
    rw [hk]
    exact .constant
  · exact fun _ _ hk haccepts _ => FieldKind.suits_of_accepts hk haccepts

/-! ## What follows for an atom -/

theorem length_writtenValues {fields : List Field} {values : List FieldValue}
    (h : fields.length = values.length) :
    (writtenValues fields values).length = (fields.filter (!·.isConstant)).length := by
  induction fields generalizing values with
  | nil => simp [writtenValues]
  | cons field fields ih =>
      cases values with
      | nil => exact absurd h (by simp)
      | cons value values =>
          have hrest := ih (Nat.succ_inj.mp h)
          rw [writtenValues]
          cases hk : field.isConstant with
          | true => simpa [hk] using hrest
          | false => simpa [hk] using hrest

theorem application_eq (comma predicate : String) (arguments : List String) :
    application comma predicate arguments = if arguments.length = 0 then predicate
      else predicate ++ "(" ++ comma.intercalate arguments ++ ")" := by
  cases arguments with
  | nil => rfl
  | cons argument arguments => rfl

/-- A name that no field has leads nowhere. -/
theorem Schema.fieldIndex?_eq_none {schema : Schema} {name : String}
    (h : ∀ field ∈ schema.fields, field.name ≠ name) : schema.fieldIndex? name = none :=
  List.findIdx?_eq_none_iff.mpr fun field hf => by simpa using h field hf

/-- The outcome of an accessor is the value, which it finds exactly if the value is bound. -/
def FindsIfBound {α : Type} (outcome : Except DecodeError α) (term : α → Term)
    (value : FieldValue) : Prop :=
  (∀ a, outcome = .ok a ↔ value = .term (term a))
    ∧ ((∃ a, outcome = .ok a) ↔ ∃ t, value = .term t ∧ t.isBound = true)

section Accessors

variable {atom : Atom} {name : String} {value : FieldValue}

theorem Atom.scalar_eq_ok_iff {α : Type} {kind : ScalarKind} {value? : Term → Option α} {t : Term}
    (h : atom.get? name = some (.term t)) {a : α} :
    atom.scalar name kind value? = .ok a ↔ value? t = some a := by
  have hterm : atom.term name = .ok t := by
    unfold Atom.term
    rw [h]
  simp only [Atom.scalar, hterm, bind, Except.bind]
  cases value? t with
  | none => simp [throw, throwThe, MonadExceptOf.throw]
  | some b => simp [pure, Except.pure]

/-- In a field of a scalar kind there is a term, and it is bound if it is of the kind. -/
theorem FieldValue.Suits.exists_term {kind : ScalarKind} (h : value.Suits (.scalar kind)) :
    ∃ t, value = .term t ∧ (t.isBound = true ↔ t.scalarKind? = some kind) := by
  cases h with
  | unbound _ => exact ⟨_, rfl, by simp [Term.isBound, Term.scalarKind?]⟩
  | scalar hs => exact ⟨_, rfl, iff_of_true (isBound_of_scalarKind? hs) hs⟩

theorem FieldValue.Suits.findsIfBound {α : Type} {kind : ScalarKind} {value? : Term → Option α}
    {term : α → Term} (hvalue : ∀ t a, value? t = some a ↔ t = term a)
    (hkind : ∀ t : Term, t.scalarKind? = some kind ↔ ∃ a, t = term a)
    (hf : value.Suits (.scalar kind)) (h : atom.get? name = some value) :
    FindsIfBound (atom.scalar name kind value?) term value := by
  obtain ⟨t, rfl, hbound⟩ := hf.exists_term
  have hok : ∀ a, atom.scalar name kind value? = .ok a ↔ t = term a := fun a =>
    (Atom.scalar_eq_ok_iff h).trans (hvalue t a)
  refine ⟨fun a => by rw [hok, FieldValue.term.injEq], ?_⟩
  rw [exists_congr hok, ← hkind, ← hbound]
  simp

theorem Atom.nested_eq_ok_iff {inner : Atom} :
    atom.nested name = .ok inner ↔ atom.get? name = some (.atom inner) := by
  constructor
  · exact Atom.get?_of_nested
  · intro h
    unfold Atom.nested
    rw [h]

end Accessors

/-- What a field of an atom and the value beside it have to do with one another: the value suits
the field, its name leads to the value, and the accessors of its kind find it. -/
structure Atom.FieldShaped (atom : Atom) (field : Field) (value : FieldValue) : Prop where
  suits : value.Suits field.kind
  get : atom.get? field.name = some value
  int : field.kind = .scalar .integer → FindsIfBound (atom.int field.name) .int value
  string : field.kind = .scalar .string → FindsIfBound (atom.string field.name) .str value
  boolean : field.kind = .scalar .boolean → FindsIfBound (atom.boolean field.name) .bool value
  nested : ∀ inner, atom.nested field.name = .ok inner ↔ value = .atom inner

/-- What its schema dictates to an atom: the values stand beside the fields, one for each, the names
tell the fields apart, and the text is the predicate and, if there are written fields, a pair of
parentheses around their texts, in their order. -/
structure Atom.Shaped (atom : Atom) : Prop where
  fields : List.Forall₂ atom.FieldShaped atom.schema.fields atom.values
  names : (atom.schema.fields.map (·.name)).Nodup
  others : ∀ name, name ∉ atom.schema.fields.map (·.name) → atom.get? name = none
  text : atom.text =
    if atom.schema.arity = 0 then atom.predicate
    else atom.predicate ++ "(" ++ ", ".intercalate
      ((writtenValues atom.schema.fields atom.values).map FieldValue.text) ++ ")"
  arity : (writtenValues atom.schema.fields atom.values).length = atom.schema.arity

namespace Atom

variable {atom : Atom}

theorem fieldShaped_of_suits {field : Field} {value : FieldValue}
    (hg : atom.get? field.name = some value) (hf : value.Suits field.kind) :
    atom.FieldShaped field value where
  suits := hf
  get := hg
  int := fun hk => by
    rw [hk] at hf
    refine hf.findsIfBound (fun t a => ?_) (fun t => ?_) hg
    · cases t <;> simp [Term.int?]
    · cases t <;> simp [Term.scalarKind?]
  string := fun hk => by
    rw [hk] at hf
    refine hf.findsIfBound (fun t a => ?_) (fun t => ?_) hg
    · cases t <;> simp [Term.str?]
    · cases t <;> simp [Term.scalarKind?]
  boolean := fun hk => by
    rw [hk] at hf
    refine hf.findsIfBound (fun t a => ?_) (fun t => ?_) hg
    · cases t <;> simp [Term.bool?]
    · cases t <;> simp [Term.scalarKind?]
  nested := fun inner => by rw [nested_eq_ok_iff, hg, Option.some.injEq]

theorem shaped_of_suits (hb : atom.schema.Built)
    (h : List.Forall₂ (fun field value => value.Suits field.kind) atom.schema.fields atom.values) :
    atom.Shaped where
  fields := by
    refine List.forall₂_iff_get.mpr ⟨h.length_eq, fun i hi hv => ?_⟩
    refine fieldShaped_of_suits ?_ (h.get hi hv)
    rw [List.get_eq_getElem, List.get_eq_getElem, get?, hb.fieldIndex?_eq hi, Option.bind_some,
      List.getElem?_eq_getElem hv]
  names := hb.names_nodup
  others := fun name hn => by
    have hnone : atom.schema.fieldIndex? name = none :=
      Schema.fieldIndex?_eq_none fun field hf he => hn (List.mem_map.mpr ⟨field, hf, he⟩)
    rw [get?, hnone, Option.bind_none]
  text := by
    have hlen := length_writtenValues h.length_eq
    rw [text, spelled_eq, application_eq, List.length_map, hlen]
    rfl
  arity := length_writtenValues h.length_eq

/--
**Every atom keeps the shape that its schema dictates**, in whatever way it was
obtained, and through however many atoms that it was obtained from.
-/
theorem obtained_shaped (h : atom.Obtained) : atom.Shaped := by
  obtain ⟨hb, hsuits⟩ := h.constructed.suits
  exact shaped_of_suits hb hsuits

end Atom

/-- A ticket that leaves open whether it is, for the owner of another ticket. -/
def reissuedTicket : Atom :=
  ⟨ticketSchema, [.term (.unbound (.numbered 3)), .term (.int 7), .atom ticketOwner]⟩

/-- The owner is taken out of a ticket that was decoded, and put into one that is built. -/
theorem Atom.obtained_shaped_reissuedTicket :
    reissuedTicket.Obtained ∧ reissuedTicket.Shaped := by
  have hb : ticketSchema.Built := by decide
  have hticket : ticket.Obtained := .decode hb decode_ticket
  have hnested : ticket.nested "owner" = .ok ticketOwner := rfl
  have howner : ticketOwner.Obtained := .nested hticket hnested
  have hbuild : (((ticketSchema.atom.setAll [("owner", .atom ticketOwner)]).build).run 3).1
      = .ok reissuedTicket := rfl
  have hreissued : reissuedTicket.Obtained := by
    refine .build hb (fun setting hm inner he => ?_) hbuild
    rw [List.mem_singleton.mp hm] at he
    injection he with he
    rwa [← he]
  exact ⟨hreissued, Atom.obtained_shaped hreissued⟩

end AnswerSet
