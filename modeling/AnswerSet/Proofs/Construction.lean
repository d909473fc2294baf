import AnswerSet.Proofs.Typing

/-!
# What the constructors let into a nested field

An atom is made by leaving every field open, field by field, from values in order,
or by decoding. Each way fills the fields one by one, and what a field is filled
with is one of four things: an open value, the constant, a value that was checked
against the kind, or a value that was read. The first part of this file says so
once for each way and for any property of fields and values.

The second part follows nested fields down. The check of a given atom looks at its
predicate and not at its schema. So what holds of all atoms is that nested fields
have the declared predicate (`nests_of_constructed`). Whether they also have the
declared **schema** depends on the schemas in use: it does exactly if none of them
shares its predicate with a declared one (`constructed_nests_iff`).
-/

namespace AnswerSet

/-! ## Values in order -/

section Deal

variable {predicate : String} {P : Field → FieldValue → Prop}

/-- Dealt values are the constants and the given values, which were checked. -/
theorem forall₂_of_dealValues {fields : List Field} {values dealt : List FieldValue}
    (hconst : ∀ field ∈ fields, ∀ value, field.kind = .constant value → P field (.term value))
    (hgiven : ∀ field ∈ fields, ∀ value ∈ values, field.isConstant = false →
      field.kind.accepts value = true → P field value)
    (hlen : values.length = Schema.arity ⟨predicate, fields⟩)
    (h : dealValues predicate fields values = .ok dealt) : List.Forall₂ P fields dealt := by
  induction fields using fields_induction generalizing values dealt with
  | nil =>
      rw [dealValues] at h
      injection h with h
      rw [← h]
      exact .nil
  | constant name constant fields ih =>
      obtain ⟨rest, hrest, rfl⟩ := dealValues_constant_eq_ok_iff.mp h
      refine .cons (hconst _ List.mem_cons_self constant rfl) ?_
      exact ih (fun f hf => hconst f (List.mem_cons_of_mem _ hf))
        (fun f hf => hgiven f (List.mem_cons_of_mem _ hf)) hlen hrest
  | written name kind fields hk ih =>
      rw [arity_cons hk] at hlen
      cases values with
      | nil => exact absurd hlen (by simp)
      | cons value values =>
          obtain ⟨haccepts, rest, hrest, rfl⟩ := (dealValues_cons_eq_ok_iff hk).mp h
          refine .cons (hgiven _ List.mem_cons_self value List.mem_cons_self hk haccepts) ?_
          refine ih (fun f hf => hconst f (List.mem_cons_of_mem _ hf)) (fun f hf v hv => ?_)
            (Nat.succ_inj.mp hlen) hrest
          exact hgiven f (List.mem_cons_of_mem _ hf) v (List.mem_cons_of_mem _ hv)

end Deal

/-! ## Field by field -/

namespace AtomBuilder

def setAll (builder : AtomBuilder) (settings : List (String × FieldValue)) : AtomBuilder :=
  settings.foldl (fun b setting => b.set setting.1 setting.2) builder

section Slots

variable {schema : Schema} {slots slots' : List (Option FieldValue)} {name : String}
  {value : FieldValue}

/-- **Setting a slot** takes a field of that name which is not a constant and accepts the value, and
changes the slot of that field only. -/
theorem setSlot_eq_ok (h : setSlot schema slots name value = .ok slots') :
    ∃ (i : Nat) (hi : i < schema.fields.length), schema.fields[i].name = name
      ∧ schema.fields[i].isConstant = false ∧ schema.fields[i].kind.accepts value = true
      ∧ slots' = slots.set i (some value) := by
  unfold setSlot at h
  split at h
  · exact absurd h (by simp)
  rename_i field i hfind
  split at h
  · exact absurd h (by simp)
  rename_i hk
  obtain ⟨u, hcheck, he⟩ := Except.bind_eq_ok.mp h
  injection he with he
  have hmem : schema.fields[i]? = some field :=
    List.mem_zipIdx_iff_getElem?.mp (List.mem_of_find?_eq_some hfind)
  obtain ⟨hi, rfl⟩ := List.getElem?_eq_some_iff.mp hmem
  have hname : schema.fields[i].name = name := by
    have hp := List.find?_some hfind
    simpa using hp
  exact ⟨i, hi, hname, by simpa using hk, Field.check_eq_ok_iff.mp hcheck, he.symm⟩

theorem forall₂_set {α β : Type} {R : α → β → Prop} {xs : List α} {ys : List β}
    (h : List.Forall₂ R xs ys) {i : Nat} (hi : i < xs.length) {y : β} (hr : R xs[i] y) :
    List.Forall₂ R xs (ys.set i y) := by
  induction h generalizing i with
  | nil => exact absurd hi (by simp)
  | cons hx hrest ih =>
      cases i with
      | zero => exact .cons hr hrest
      | succ i => exact .cons hx (ih (Nat.lt_of_succ_lt_succ hi) hr)

end Slots

section Build

variable {P : Field → FieldValue → Prop} {builder : AtomBuilder}

/-- Every slot that was set holds a value with the property. -/
def Filled (P : Field → FieldValue → Prop) (builder : AtomBuilder) : Prop :=
  ∀ slots, builder.slots = .ok slots →
    List.Forall₂ (fun field slot => ∀ value ∈ slot, P field value) builder.schema.fields slots

theorem filled_atom (P : Field → FieldValue → Prop) (schema : Schema) : Filled P schema.atom := by
  intro slots h
  injection h with h
  rw [← h, List.forall₂_map_right_iff]
  exact List.forall₂_same.mpr fun _ _ => by simp

theorem Filled.set (h : Filled P builder) {name : String} {value : FieldValue}
    (hv : ∀ field ∈ builder.schema.fields, field.isConstant = false →
      field.kind.accepts value = true → P field value) :
    Filled P (builder.set name value) := by
  intro slots' hs
  obtain ⟨slots, hslots, hset⟩ := Except.bind_eq_ok.mp hs
  obtain ⟨i, hi, _, hk, haccepts, rfl⟩ := setSlot_eq_ok hset
  refine forall₂_set (h slots hslots) hi fun v he => ?_
  rw [← Option.mem_some.mp he]
  exact hv _ (List.getElem_mem hi) hk haccepts

theorem Filled.setAll (h : Filled P builder) {settings : List (String × FieldValue)}
    (hv : ∀ field ∈ builder.schema.fields, ∀ setting ∈ settings, field.isConstant = false →
      field.kind.accepts setting.2 = true → P field setting.2) :
    (builder.setAll settings).schema = builder.schema ∧ Filled P (builder.setAll settings) := by
  induction settings generalizing builder with
  | nil => exact ⟨rfl, h⟩
  | cons setting settings ih =>
      have hfirst : Filled P (builder.set setting.1 setting.2) :=
        h.set fun field hf => hv field hf setting List.mem_cons_self
      exact ih hfirst fun field hf s hs => hv field hf s (List.mem_cons_of_mem _ hs)

theorem forall₂_fillSlots {fields : List Field} {slots : List (Option FieldValue)}
    (hopen : ∀ field ∈ fields, ∀ n, P field (field.kind.openValue.run n).1)
    (h : List.Forall₂ (fun field slot => ∀ value ∈ slot, P field value) fields slots) (n : Nat) :
    List.Forall₂ P fields ((fillSlots fields slots).run n).1 := by
  induction h generalizing n with
  | nil => exact .nil
  | @cons field slot fields slots hslot _ ih =>
      have ihrest := ih fun f hf => hopen f (List.mem_cons_of_mem _ hf)
      -- an open value moves the counter on, so the rest may be filled from another number
      cases slot with
      | some value => exact .cons (hslot value rfl) (ihrest n)
      | none => exact .cons (hopen field List.mem_cons_self n) (ihrest _)

theorem build_eq_ok {n : Nat} {atom : Atom} (h : (builder.build.run n).1 = .ok atom) :
    ∃ slots, builder.slots = .ok slots
      ∧ atom = ⟨builder.schema, ((fillSlots builder.schema.fields slots).run n).1⟩ := by
  unfold build at h
  split at h
  · exact absurd h (by simp)
  · rename_i slots hs
    injection h with h
    exact ⟨slots, hs, h.symm⟩

/-- **Built atoms** hold open values and values that were set and checked. -/
theorem forall₂_of_build {schema : Schema} {settings : List (String × FieldValue)} {n : Nat}
    {atom : Atom}
    (hopen : ∀ field ∈ schema.fields, ∀ n, P field (field.kind.openValue.run n).1)
    (hset : ∀ field ∈ schema.fields, ∀ setting ∈ settings, field.isConstant = false →
      field.kind.accepts setting.2 = true → P field setting.2)
    (h : (((schema.atom.setAll settings).build).run n).1 = .ok atom) :
    atom.schema = schema ∧ List.Forall₂ P schema.fields atom.values := by
  obtain ⟨slots, hslots, rfl⟩ := build_eq_ok h
  obtain ⟨hschema, hfilled⟩ := (filled_atom P schema).setAll hset
  have hall := hfilled slots hslots
  rw [hschema] at hall
  exact ⟨hschema, by rw [hschema]; exact forall₂_fillSlots hopen hall n⟩

end Build

/-! ### Setting one field -/

/-- The search for a field by its name ends at that field. -/
theorem find?_zipIdx {schema : Schema} (hb : schema.Built) {i : Nat}
    (hi : i < schema.fields.length) :
    schema.fields.zipIdx.find? (·.1.name = schema.fields[i].name)
      = some (schema.fields[i], i) := by
  refine List.find?_eq_some_iff_getElem.mpr ⟨by simp, i, by simpa using hi, by simp, ?_⟩
  intro j hj
  -- the names differ, so the search stops at no field before this one
  have hne : schema.fields[j].name ≠ schema.fields[i].name := fun he => by
    have hij := hb.eq_of_name_eq he
    omega
  simpa using hne

theorem setSlot_field {schema : Schema} (hb : schema.Built) {i : Nat}
    (hi : i < schema.fields.length) (hk : schema.fields[i].isConstant = false)
    {value : FieldValue} (ha : schema.fields[i].kind.accepts value = true)
    (slots : List (Option FieldValue)) :
    setSlot schema slots schema.fields[i].name value = .ok (slots.set i (some value)) := by
  have hcheck : schema.fields[i].check schema.predicate value = .ok () :=
    Field.check_eq_ok_iff.mpr ha
  unfold setSlot
  rw [find?_zipIdx hb hi]
  simp only [hk, hcheck]
  rfl

theorem getElem?_fillSlots {fields : List Field} {slots : List (Option FieldValue)} {i : Nat}
    {value : FieldValue} (hi : i < fields.length) (h : slots[i]? = some (some value)) (n : Nat) :
    ((fillSlots fields slots).run n).1[i]? = some value := by
  induction fields generalizing slots i n with
  | nil => exact absurd hi (by simp)
  | cons field fields ih =>
      cases slots with
      | nil => exact absurd h (by simp)
      | cons slot slots =>
          cases i with
          | zero =>
              have hslot : slot = some value := by simpa using h
              rw [hslot]
              rfl
          | succ i =>
              have hrest := ih (Nat.lt_of_succ_lt_succ hi) (by simpa using h)
              cases slot with
              | some _ => exact hrest n
              | none => exact hrest _

/-- **What a field accepts can be put there**, with all other fields left open. -/
theorem exists_build {schema : Schema} (hb : schema.Built) {i : Nat}
    (hi : i < schema.fields.length) (hk : schema.fields[i].isConstant = false)
    {value : FieldValue} (ha : schema.fields[i].kind.accepts value = true) (n : Nat) :
    ∃ atom : Atom, (((schema.atom.setAll [(schema.fields[i].name, value)]).build).run n).1
        = .ok atom ∧ atom.schema = schema ∧ atom.values[i]? = some value := by
  have hslots : (schema.atom.setAll [(schema.fields[i].name, value)]).slots
      = .ok ((schema.fields.map fun _ => none).set i (some value)) := setSlot_field hb hi hk ha _
  refine ⟨⟨schema, ((fillSlots schema.fields
    ((schema.fields.map fun _ => none).set i (some value))).run n).1⟩, ?_, rfl, ?_⟩
  · unfold build
    rw [hslots]
    rfl
  · refine getElem?_fillSlots hi ?_ n
    rw [List.getElem?_set_self (by simpa using hi)]

end AtomBuilder

/-! ## Open atoms -/

theorem run_any (predicate : String) (fields : List Field) (n : Nat) :
    ((Schema.any ⟨predicate, fields⟩).run n).1
      = ⟨⟨predicate, fields⟩, ((openValues fields).run n).1⟩ := by
  rw [Schema.any]
  rfl

theorem run_openValue_atom (schema : Schema) (n : Nat) :
    ((FieldKind.atom schema).openValue.run n).1 = .atom (schema.any.run n).1 := by
  rw [FieldKind.openValue]
  rfl

theorem forall₂_openValues {P : Field → FieldValue → Prop} {fields : List Field}
    (hopen : ∀ field ∈ fields, ∀ n, P field (field.kind.openValue.run n).1) (n : Nat) :
    List.Forall₂ P fields ((openValues fields).run n).1 := by
  induction fields generalizing n with
  | nil =>
      rw [openValues]
      exact .nil
  | cons field fields ih =>
      obtain ⟨name, kind⟩ := field
      rw [openValues]
      exact .cons (hopen _ List.mem_cons_self n)
        (ih (fun f hf => hopen f (List.mem_cons_of_mem _ hf)) _)

/-! ## Nested fields all the way down -/

mutual

/-- Every field that is declared for an atom holds a variable or an atom whose schema stands in the
relation to the declared one, and so it goes on in that atom. -/
def Atom.Nests (related : Schema → Schema → Prop) : Atom → Prop
  | ⟨schema, values⟩ => nestingValues related schema.fields values

/-- There is one value for each field, and it nests as its field declares. -/
def nestingValues (related : Schema → Schema → Prop) : List Field → List FieldValue → Prop
  | [], [] => True
  | field :: fields, value :: values =>
    value.NestsIn related field.kind ∧ nestingValues related fields values
  | _, _ => False

/-- In a nested field, the value is a variable or an atom of a related schema. -/
def FieldValue.NestsIn (related : Schema → Schema → Prop) : FieldKind → FieldValue → Prop
  | .atom schema, .atom atom => related atom.schema schema ∧ atom.Nests related
  | .atom _, .term term => term.isBound = false
  | _, _ => True

end

section Nests

variable {related : Schema → Schema → Prop}

theorem nestingValues_iff {fields : List Field} {values : List FieldValue} :
    nestingValues related fields values
      ↔ List.Forall₂ (fun field value => value.NestsIn related field.kind) fields values := by
  induction fields generalizing values with
  | nil => cases values <;> simp [nestingValues]
  | cons field fields ih =>
      cases values with
      | nil => simp [nestingValues]
      | cons value values => rw [nestingValues, ih, List.forall₂_cons]

theorem Atom.nests_iff {atom : Atom} : atom.Nests related
    ↔ List.Forall₂ (fun field value => value.NestsIn related field.kind)
        atom.schema.fields atom.values := by
  cases atom with
  | mk schema values => rw [Atom.Nests, nestingValues_iff]

/-- What a field accepts nests in it if an accepted atom does. -/
theorem FieldValue.nestsIn_of_accepts {kind : FieldKind} {value : FieldValue}
    (h : kind.accepts value = true)
    (hv : ∀ inner schema, value = .atom inner → kind = .atom schema →
      inner.schema.predicate = schema.predicate →
      related inner.schema schema ∧ inner.Nests related) :
    value.NestsIn related kind := by
  cases kind with
  | atom schema =>
      cases value with
      | atom inner =>
          rw [NestsIn]
          exact hv inner schema rfl rfl (of_decide_eq_true h)
      | term term =>
          rw [NestsIn]
          cases term with
          | unbound v => rfl
          | int n => exact absurd h (by simp [FieldKind.accepts])
          | str s => exact absurd h (by simp [FieldKind.accepts])
          | bool b => exact absurd h (by simp [FieldKind.accepts])
          | symbol name => exact absurd h (by simp [FieldKind.accepts])
  | scalar kind => simp [NestsIn]
  | any => simp [NestsIn]
  | constant value => simp [NestsIn]

theorem FieldKind.nestsIn_openValue (hr : ∀ schema, related schema schema) {kind : FieldKind}
    (hinner : ∀ inner, kind = .atom inner →
      ∀ n, (inner.any.run n).1.schema = inner ∧ (inner.any.run n).1.Nests related) (n : Nat) :
    FieldValue.NestsIn related kind (kind.openValue.run n).1 := by
  cases kind with
  | atom inner =>
      obtain ⟨hs, hn⟩ := hinner inner rfl n
      rw [run_openValue_atom, FieldValue.NestsIn, hs]
      exact ⟨hr inner, hn⟩
  | scalar kind => simp [FieldValue.NestsIn]
  | any => simp [FieldValue.NestsIn]
  | constant value => simp [FieldValue.NestsIn]

/-- An open atom has the declared schemas in its nested fields. -/
theorem Schema.Built.nests_any (hr : ∀ schema, related schema schema) {schema : Schema}
    (hb : schema.Built) (n : Nat) :
    (schema.any.run n).1.schema = schema ∧ (schema.any.run n).1.Nests related := by
  induction hb generalizing n with
  | @intro predicate fields schema hbuild _ ih =>
      obtain ⟨rfl, _, _⟩ := Schema.build_eq_ok hbuild
      rw [run_any]
      refine ⟨rfl, Atom.nests_iff.mpr (forall₂_openValues (fun field hf => ?_) n)⟩
      exact FieldKind.nestsIn_openValue hr (ih field hf)

theorem Schema.Built.nestsIn_openValue (hr : ∀ schema, related schema schema) {schema : Schema}
    (hb : schema.Built) {field : Field} (hf : field ∈ schema.fields) (n : Nat) :
    FieldValue.NestsIn related field.kind (field.kind.openValue.run n).1 :=
  FieldKind.nestsIn_openValue hr (fun _ hk => (hb.inner hf hk).nests_any hr) n

theorem FieldValue.HasKind.nestsIn (hr : ∀ schema, related schema schema) {kind : FieldKind}
    {value : FieldValue} (h : value.HasKind kind)
    (ih : ∀ inner, value = .atom inner → inner.Typed → inner.Nests related) :
    value.NestsIn related kind := by
  cases kind with
  | atom schema =>
      cases value with
      | atom atom =>
          rw [HasKind] at h
          rw [NestsIn, h.1]
          exact ⟨hr schema, ih atom rfl h.2⟩
      | term term => exact absurd h (by simp [HasKind])
  | scalar kind => simp [NestsIn]
  | any => simp [NestsIn]
  | constant value => simp [NestsIn]

/-- A typed atom has them as well, since decoding follows the schema. -/
theorem Atom.Typed.nests (hr : ∀ schema, related schema schema) {atom : Atom} (h : atom.Typed) :
    atom.Nests related := by
  induction atom using Atom.induction with
  | mk schema values ih =>
      rw [Atom.Typed, typedValues_iff] at h
      rw [Atom.Nests, nestingValues_iff]
      generalize schema.fields = fields at h
      -- along the fields, with the hypothesis for the atoms among the values
      induction h with
      | nil => exact .nil
      | cons hv _ ihrest =>
          have hfirst := hv.nestsIn hr fun inner he =>
            ih inner (by rw [he]; exact List.mem_cons_self)
          exact .cons hfirst (ihrest fun inner hm => ih inner (List.mem_cons_of_mem _ hm))

end Nests

/-! ## All atoms that the constructors make -/

/--
The atoms that can be made with the known schemas: left open, set field by field,
given all values in order, or decoded. The atoms among the values that are set or
given were made in these ways as well.
-/
inductive Atom.Constructed (known : Schema → Prop) : Atom → Prop
  | any {schema : Schema} (n : Nat) : known schema → Constructed known (schema.any.run n).1
  | build {schema : Schema} {settings : List (String × FieldValue)} {n : Nat} {atom : Atom} :
      known schema →
      (∀ setting ∈ settings, ∀ inner, setting.2 = .atom inner → Constructed known inner) →
      (((schema.atom.setAll settings).build).run n).1 = .ok atom →
      Constructed known atom
  | ofValues {schema : Schema} {values : List FieldValue} {atom : Atom} :
      known schema →
      (∀ value ∈ values, ∀ inner, value = .atom inner → Constructed known inner) →
      Atom.ofValues schema values = .ok atom →
      Constructed known atom
  | decode {schema : Schema} {predicate text : String} {atom : Atom} :
      known schema → schema.decode predicate text = .ok atom → Constructed known atom

/-- Some field of the schema is declared for atoms of the other one. -/
def Schema.Declares (outer inner : Schema) : Prop :=
  ∃ field ∈ outer.fields, field.kind = .atom inner

/-- All that the check of a nested atom compares. -/
def Schema.SamePredicate (a b : Schema) : Prop := a.predicate = b.predicate

section Constructed

variable {known : Schema → Prop} {related : Schema → Schema → Prop}

/--
**Every constructed atom nests** by a relation that holds between a known schema
and a declared one whenever they have the same predicate.
-/
theorem Atom.nests_of_constructed (hb : ∀ schema, known schema → schema.Built)
    (hr : ∀ schema, related schema schema)
    (hknown : ∀ outer inner other, known outer → outer.Declares inner → known other →
      other.predicate = inner.predicate → related other inner)
    {atom : Atom} (h : atom.Constructed known) : known atom.schema ∧ atom.Nests related := by
  -- A value that was checked nests if it was made from known schemas itself.
  have hchecked : ∀ {outer : Schema}, known outer → ∀ field ∈ outer.fields, ∀ value : FieldValue,
      (∀ inner, value = .atom inner → known inner.schema ∧ inner.Nests related) →
      field.kind.accepts value = true → value.NestsIn related field.kind := by
    intro outer ho field hf value hv haccepts
    refine FieldValue.nestsIn_of_accepts haccepts fun inner schema he hk hp => ?_
    obtain ⟨hs, hn⟩ := hv inner he
    exact ⟨hknown outer schema inner.schema ho ⟨field, hf, hk⟩ hs hp, hn⟩
  induction h with
  | any n hs =>
      obtain ⟨he, hn⟩ := (hb _ hs).nests_any hr n
      exact ⟨by rwa [he], hn⟩
  | build hs _ hbuild ih =>
      obtain ⟨rfl, hvalues⟩ := AtomBuilder.forall₂_of_build
        (P := fun field value => value.NestsIn related field.kind)
        (fun field hf => (hb _ hs).nestsIn_openValue hr hf)
        (fun field hf setting hm _ => hchecked hs field hf setting.2 (ih setting hm)) hbuild
      exact ⟨hs, Atom.nests_iff.mpr hvalues⟩
  | @ofValues schema values atom hs _ hof ih =>
      obtain ⟨hlen, dealt, hdeal, rfl⟩ := Atom.ofValues_eq_ok_iff.mp hof
      refine ⟨hs, Atom.nests_iff.mpr ?_⟩
      refine forall₂_of_dealValues (fun field hf value hk => ?_) ?_ hlen hdeal
      · rw [hk]
        simp [FieldValue.NestsIn]
      · exact fun field hf value hm _ => hchecked hs field hf value (ih value hm)
  | @decode schema predicate text atom hs hdecode =>
      have hyields := Schema.read_yields (hb _ hs) predicate text.toList
      rw [Schema.decode] at hdecode
      rw [hdecode] at hyields
      obtain ⟨he, ht⟩ := hyields
      exact ⟨by rwa [he], ht.nests hr⟩

/--
**The predicate is what holds all the way down.** In every atom that is made with
built schemas, a nested field holds a variable or an atom of the declared
predicate. It always holds a variable or an atom of the declared schema if and
only if the schemas that are declared for nested fields share their predicates
with no other known schema.
-/
theorem Atom.constructed_nests_iff (hb : ∀ schema, known schema → schema.Built) :
    (∀ atom : Atom, atom.Constructed known → atom.Nests Schema.SamePredicate)
    ∧ ((∀ atom : Atom, atom.Constructed known → atom.Nests (· = ·)) ↔
        ∀ outer inner other, known outer → outer.Declares inner → known other →
          other.predicate = inner.predicate → other = inner) := by
  refine ⟨fun atom h => ?_, fun h outer inner other ho hd hother hp => ?_, fun h atom ha => ?_⟩
  · have hrefl : ∀ schema, Schema.SamePredicate schema schema := fun _ => rfl
    exact (Atom.nests_of_constructed hb hrefl (fun _ _ _ _ _ _ hp => hp) h).2
  · -- The open atom of the other schema can be put into the field.
    obtain ⟨field, hf, hk⟩ := hd
    obtain ⟨i, hi, rfl⟩ := List.mem_iff_getElem.mp hf
    obtain ⟨hs, _⟩ := (hb other hother).nests_any (fun _ => rfl) 0
    have haccepts : outer.fields[i].kind.accepts (.atom (other.any.run 0).1) = true := by
      rw [hk]
      exact decide_eq_true (by rw [Atom.predicate, hs]; exact hp)
    obtain ⟨atom, hbuild, rfl, hvalue⟩ := AtomBuilder.exists_build (hb outer ho) hi
      (by rw [Field.isConstant, hk]; rfl) haccepts 0
    have hmade : atom.Constructed known := by
      refine .build ho (fun setting hm inner he => ?_) hbuild
      rw [List.mem_singleton.mp hm] at he
      injection he with he
      rw [← he]
      exact .any 0 hother
    have hnests := Atom.nests_iff.mp (h atom hmade)
    obtain ⟨hi', hget⟩ := List.getElem?_eq_some_iff.mp hvalue
    have hin := hnests.get hi hi'
    rw [List.get_eq_getElem, List.get_eq_getElem, hget, hk, FieldValue.NestsIn, hs] at hin
    exact hin.1
  · exact (Atom.nests_of_constructed hb (fun _ => rfl) h ha).2

end Constructed

/-- Tickets and persons do not share a predicate, so a ticket's owner is always a person. -/
theorem Atom.constructed_nests_ticket :
    (∀ schema, schema = ticketSchema ∨ schema = personSchema → schema.Built)
      ∧ ∀ atom : Atom,
          atom.Constructed (fun schema => schema = ticketSchema ∨ schema = personSchema) →
          atom.Nests (· = ·) := by
  have hb : ∀ schema, schema = ticketSchema ∨ schema = personSchema → schema.Built := by
    rintro schema (rfl | rfl) <;> decide
  refine ⟨hb, (Atom.constructed_nests_iff hb).2.mpr ?_⟩
  have hinner : ∀ outer inner, outer = ticketSchema ∨ outer = personSchema →
      outer.Declares inner → inner = personSchema := by
    rintro outer inner (rfl | rfl) ⟨field, hf, hk⟩ <;> simp [ticketSchema, personSchema] at hf
    · rcases hf with rfl | rfl | rfl <;> simp at hk
      exact hk.symm
    · rcases hf with rfl | rfl <;> simp at hk
  rintro outer inner other ho hd (rfl | rfl) hp
  · rw [hinner outer inner ho hd] at hp
    exact absurd hp (by decide)
  · exact (hinner outer inner ho hd).symm

/-! A declared schema that does share its predicate. -/

def nodeSchema : Schema := ⟨"node", [⟨"id", .scalar .integer⟩]⟩

def gridNodeSchema : Schema := ⟨"node", [⟨"x", .scalar .integer⟩, ⟨"y", .scalar .integer⟩]⟩

def markSchema : Schema := ⟨"mark", [⟨"node", .atom nodeSchema⟩]⟩

def gridNode : Atom := ⟨gridNodeSchema, [.term (.int 1), .term (.int 2)]⟩

def markedGridNode : Atom := ⟨markSchema, [.atom gridNode]⟩

theorem read_markedGridNode (atom : Atom) :
    markSchema.read "mark" "mark(node(1, 2))".toList ≠ .ok atom := by
  intro h
  have hargs : arguments "mark".toList "mark(node(1, 2))".toList = ["node(1, 2)".toList] := by
    decide
  have hinner : (arguments "node".toList "node(1, 2)".toList).length = 2 := by decide
  obtain ⟨_, _, values, hread, _⟩ := Schema.read_eq_ok_iff.mp h
  rw [hargs] at hread
  obtain ⟨value, _, hvalue, _⟩ := (readFields_cons_eq_ok_iff rfl).mp hread
  obtain ⟨node, hnode, -⟩ := FieldKind.read_atom_eq_ok hvalue
  have hcount := (Schema.read_eq_ok_iff.mp hnode).2.1
  exact absurd (hinner.symm.trans hcount) (by decide)

/--
A node of the grid goes into the field for plain nodes, since its predicate is the
same, and what was built does not read back.
-/
theorem Atom.not_nests_markedGridNode :
    markSchema.Built ∧ gridNodeSchema.Built ∧ markedGridNode.Constructed Schema.Built
      ∧ ¬ markedGridNode.Nests (· = ·)
      ∧ ∀ atom, markSchema.decode "mark" markedGridNode.text ≠ .ok atom := by
  have hmark : markSchema.Built := by decide
  have hgrid : gridNodeSchema.Built := by decide
  have hgridOf : Atom.ofValues gridNodeSchema gridNode.values = .ok gridNode := rfl
  have hmarkOf : Atom.ofValues markSchema markedGridNode.values = .ok markedGridNode := rfl
  have hnode : gridNode.Constructed Schema.Built := .ofValues hgrid (by simp [gridNode]) hgridOf
  have hmarked : markedGridNode.Constructed Schema.Built := by
    refine .ofValues hmark ?_ hmarkOf
    simpa [markedGridNode] using hnode
  have hother : gridNodeSchema ≠ nodeSchema := by decide
  have htext : markedGridNode.text = "mark(node(1, 2))" := by decide
  refine ⟨hmark, hgrid, hmarked, fun h => ?_, fun atom => ?_⟩
  · obtain ⟨hnested, _⟩ := List.forall₂_cons.mp (Atom.nests_iff.mp h)
    have hin : gridNode.schema = nodeSchema ∧ gridNode.Nests (· = ·) := by
      rwa [FieldValue.NestsIn] at hnested
    exact hother hin.1
  · rw [htext]
    exact read_markedGridNode atom

end AnswerSet
