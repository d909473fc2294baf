import AnswerSet.Proofs.Construction

/-!
# Setting fields and giving values in order

An atom can be built from settings, which name a field and give it a value, in any
order and as often as one likes, or from the values of its written fields in order.
Both come to the same.

After any settings that are all in order, a slot holds the last value that was
given to the name of its field (`AtomBuilder.setAll_of_takesAll`). That is all the
builder knows, so neither the order of settings of different fields matters nor
what was overwritten. The first setting that is not in order ends this for good.
Values in order are settings in the order of the schema, one for each written
field, and the first value that does not fit its field is the first setting that
is refused.
-/

namespace AnswerSet

/-! ## Settings that are refused -/

/-- Why a field cannot be set: no field has the name, or the one that has it is a constant, or is
of a kind that does not accept the value. -/
inductive Schema.Refuses (schema : Schema) (name : String) (value : FieldValue) :
    ConstructionError → Prop
  | unknown : (∀ field ∈ schema.fields, field.name ≠ name) →
      Refuses schema name value (.unknownField schema.predicate name)
  | constant {field : Field} : field ∈ schema.fields → field.name = name →
      field.isConstant = true → Refuses schema name value (.constantField name schema.predicate)
  | wrongKind {field : Field} : field ∈ schema.fields → field.name = name →
      field.isConstant = false → field.kind.accepts value = false →
      Refuses schema name value
        (.wrongKind name schema.predicate field.kind.expected value.found)

/-- No setting is refused. -/
def Schema.TakesAll (schema : Schema) (settings : List (String × FieldValue)) : Prop :=
  ∀ setting ∈ settings, ∀ e, ¬ schema.Refuses setting.1 setting.2 e

/-- The reason why the first setting is refused that is. -/
def Schema.RefusesFirst (schema : Schema) (settings : List (String × FieldValue))
    (e : ConstructionError) : Prop :=
  ∃ before name value after, settings = before ++ (name, value) :: after
    ∧ schema.TakesAll before ∧ schema.Refuses name value e

section Refuses

variable {schema : Schema} {name : String} {value : FieldValue} {e : ConstructionError}

theorem Schema.accepts_of_taken {field : Field} (hf : field ∈ schema.fields)
    (hk : field.isConstant = false) (h : ∀ e, ¬ schema.Refuses field.name value e) :
    field.kind.accepts value = true := by
  cases ha : field.kind.accepts value with
  | true => rfl
  | false => exact absurd (.wrongKind hf rfl hk ha) (h _)

/-- What is not refused sets a field of that name. -/
theorem Schema.exists_field (h : ∀ e, ¬ schema.Refuses name value e) :
    ∃ (i : Nat) (hi : i < schema.fields.length), schema.fields[i].name = name
      ∧ schema.fields[i].isConstant = false ∧ schema.fields[i].kind.accepts value = true := by
  by_cases hn : ∀ field ∈ schema.fields, field.name ≠ name
  · exact absurd (.unknown hn) (h _)
  · push Not at hn
    obtain ⟨field, hf, hname⟩ := hn
    obtain ⟨i, hi, rfl⟩ := List.mem_iff_getElem.mp hf
    subst hname
    have hk : schema.fields[i].isConstant = false :=
      Bool.eq_false_iff.mpr fun hk => h _ (.constant hf rfl hk)
    exact ⟨i, hi, rfl, hk, Schema.accepts_of_taken hf hk h⟩

theorem Field.check_eq_error {predicate : String} {field : Field}
    (ha : field.kind.accepts value = false) : field.check predicate value
      = .error (.wrongKind field.name predicate field.kind.expected value.found) := by
  simp [Field.check, ha]

theorem Schema.takesAll_or_refusesFirst (schema : Schema)
    (settings : List (String × FieldValue)) :
    schema.TakesAll settings ∨ ∃ e, schema.RefusesFirst settings e := by
  induction settings with
  | nil => exact Or.inl fun setting hm => absurd hm (by simp)
  | cons setting settings ih =>
      by_cases hr : ∃ e, schema.Refuses setting.1 setting.2 e
      · obtain ⟨e, hr⟩ := hr
        have hnone : schema.TakesAll [] := fun s hm => absurd hm (by simp)
        exact Or.inr ⟨e, [], setting.1, setting.2, settings, rfl, hnone, hr⟩
      · have hfirst : ∀ e, ¬ schema.Refuses setting.1 setting.2 e := not_exists.mp hr
        rcases ih with hall | ⟨e, before, name, value, after, rfl, hbefore, hlater⟩
        · exact Or.inl (List.forall_mem_cons.mpr ⟨hfirst, hall⟩)
        · exact Or.inr ⟨e, setting :: before, name, value, after, rfl,
            List.forall_mem_cons.mpr ⟨hfirst, hbefore⟩, hlater⟩

theorem Schema.exists_refusesFirst_iff {settings : List (String × FieldValue)} :
    (∃ e, schema.RefusesFirst settings e)
      ↔ ∃ setting ∈ settings, ∃ e, schema.Refuses setting.1 setting.2 e := by
  constructor
  · rintro ⟨e, before, name, value, after, rfl, _, hrefuses⟩
    exact ⟨(name, value), by simp, e, hrefuses⟩
  · rintro ⟨setting, hm, e, hrefuses⟩
    exact (schema.takesAll_or_refusesFirst settings).resolve_left fun h => h setting hm e hrefuses

end Refuses

namespace AtomBuilder

section Slots

variable {schema : Schema} {name : String} {value : FieldValue} {e : ConstructionError}

theorem setSlot_of_refuses (hb : schema.Built) (h : schema.Refuses name value e)
    (slots : List (Option FieldValue)) : setSlot schema slots name value = .error e := by
  have hfind : ∀ field ∈ schema.fields, field.name = name →
      ∃ i, schema.fields.zipIdx.find? (·.1.name = name) = some (field, i) := by
    rintro field hf rfl
    obtain ⟨i, hi, rfl⟩ := List.mem_iff_getElem.mp hf
    exact ⟨i, find?_zipIdx hb hi⟩
  unfold setSlot
  cases h with
  | unknown hn =>
      have hnone : schema.fields.zipIdx.find? (·.1.name = name) = none := by
        refine List.find?_eq_none.mpr fun entry hm => ?_
        simpa using hn entry.1 (List.fst_mem_of_mem_zipIdx hm)
      rw [hnone]
  | constant hf hname hk =>
      obtain ⟨i, hi⟩ := hfind _ hf hname
      rw [hi]
      exact if_pos hk
  | wrongKind hf hname hk ha =>
      obtain ⟨i, hi⟩ := hfind _ hf hname
      rw [hi, ← hname]
      simp only [hk, Field.check_eq_error ha]
      rfl

theorem setAll_append (builder : AtomBuilder) (xs ys : List (String × FieldValue)) :
    builder.setAll (xs ++ ys) = (builder.setAll xs).setAll ys := List.foldl_append

/-- Nothing can be set after a mistake. -/
theorem setAll_error (schema : Schema) (e : ConstructionError)
    (settings : List (String × FieldValue)) :
    setAll ⟨schema, .error e⟩ settings = ⟨schema, .error e⟩ := by
  induction settings with
  | nil => rfl
  | cons setting settings ih => exact ih

end Slots

end AtomBuilder

/-! ## Settings that are taken -/

/-- The last value that was given to the name. -/
def lastValue? (settings : List (String × FieldValue)) (name : String) : Option FieldValue :=
  ((settings.filter (·.1 = name)).getLast?).map (·.2)

section LastValue

variable {settings : List (String × FieldValue)} {name : String} {value : FieldValue}

theorem lastValue?_append (settings : List (String × FieldValue)) (name other : String)
    (value : FieldValue) : lastValue? (settings ++ [(name, value)]) other
      = if name = other then some value else lastValue? settings other := by
  by_cases h : name = other <;> simp [lastValue?, List.filter_append, h]

theorem mem_of_lastValue? (h : lastValue? settings name = some value) :
    (name, value) ∈ settings := by
  obtain ⟨setting, hlast, rfl⟩ := Option.map_eq_some_iff.mp h
  obtain ⟨hm, hname⟩ := List.mem_filter.mp (List.mem_of_getLast? hlast)
  rwa [← of_decide_eq_true hname]

theorem exists_lastValue? (h : (name, value) ∈ settings) :
    ∃ last, lastValue? settings name = some last := by
  obtain ⟨setting, hlast⟩ : ∃ setting, (settings.filter (·.1 = name)).getLast? = some setting :=
    Option.isSome_iff_exists.mp (by simpa using ⟨value, h⟩)
  exact ⟨setting.2, by rw [lastValue?, hlast, Option.map_some]⟩

theorem lastValue?_of_nodup (hn : (settings.map (·.1)).Nodup) (h : (name, value) ∈ settings) :
    lastValue? settings name = some value := by
  obtain ⟨last, hlast⟩ := exists_lastValue? h
  have he := List.inj_on_of_nodup_map hn (mem_of_lastValue? hlast) h rfl
  injection he with _ he
  rw [hlast, he]

end LastValue

namespace AtomBuilder

section SetAll

variable {schema : Schema} {settings : List (String × FieldValue)}

/-- The builder when each slot holds the last value that was given to its field. -/
def ofSettings (schema : Schema) (settings : List (String × FieldValue)) : AtomBuilder :=
  ⟨schema, .ok (schema.fields.map fun field => lastValue? settings field.name)⟩

/-- What is set last changes the slot of its field, which no other name leads to. -/
theorem set_ofSettings (hb : schema.Built) {name : String} {value : FieldValue}
    (h : ∀ e, ¬ schema.Refuses name value e) :
    (ofSettings schema settings).set name value
      = ofSettings schema (settings ++ [(name, value)]) := by
  obtain ⟨i, hi, rfl, hk, ha⟩ := Schema.exists_field h
  have hset := setSlot_field hb hi hk ha
    (schema.fields.map fun field => lastValue? settings field.name)
  have hslots : (schema.fields.map fun field => lastValue? settings field.name).set i (some value)
      = schema.fields.map fun field =>
          lastValue? (settings ++ [(schema.fields[i].name, value)]) field.name := by
    refine List.ext_getElem (by simp) fun j hj _ => ?_
    have hj' : j < schema.fields.length := by simpa using hj
    rw [List.getElem_set, List.getElem_map, List.getElem_map, lastValue?_append]
    by_cases he : i = j
    · subst he
      simp
    · have hname : schema.fields[i].name ≠ schema.fields[j].name := fun hn =>
        he (hb.eq_of_name_eq hn)
      rw [if_neg he, if_neg hname]
  show AtomBuilder.mk schema (setSlot schema _ _ _) = _
  rw [hset, hslots]
  rfl

/-- **After settings that are all taken**, each slot holds the last value that was given to its
field. -/
theorem setAll_of_takesAll (hb : schema.Built) (h : schema.TakesAll settings) :
    schema.atom.setAll settings = ofSettings schema settings := by
  induction settings using List.reverseRecOn with
  | nil => rfl
  | append_singleton settings setting ih =>
      obtain ⟨hbefore, hlast⟩ := List.forall_mem_append.mp h
      rw [setAll_append, ih hbefore]
      exact set_ofSettings hb (hlast setting (List.mem_singleton_self _))

/-- **After a setting that is refused**, the builder knows nothing but why. -/
theorem setAll_of_refusesFirst (hb : schema.Built) {e : ConstructionError}
    (h : schema.RefusesFirst settings e) : schema.atom.setAll settings = ⟨schema, .error e⟩ := by
  obtain ⟨before, name, value, after, rfl, hbefore, hrefuses⟩ := h
  rw [setAll_append, setAll_of_takesAll hb hbefore]
  have hset : (ofSettings schema before).set name value = ⟨schema, .error e⟩ := by
    show AtomBuilder.mk schema (setSlot schema _ _ _) = _
    rw [setSlot_of_refuses hb hrefuses]
  show ((ofSettings schema before).set name value).setAll after = _
  rw [hset, setAll_error]

/-- Building after a mistake fails with it, and draws nothing. -/
theorem run_build_error (schema : Schema) (e : ConstructionError) (n : Nat) :
    (build ⟨schema, .error e⟩).run n = (.error e, n) := rfl

theorem run_build_ofSettings {filled : List FieldValue} {n m : Nat}
    (h : (fillSlots schema.fields (schema.fields.map fun field =>
      lastValue? settings field.name)).run n = (filled, m)) :
    (build (ofSettings schema settings)).run n = (.ok ⟨schema, filled⟩, m) := by
  show (Except.ok (Atom.mk schema ((fillSlots schema.fields _).run n).1),
    ((fillSlots schema.fields _).run n).2) = _
  rw [h]

/-- **A build fails exactly with the reason of the first refusal.** -/
theorem run_build_eq_error_iff (hb : schema.Built) {e : ConstructionError} {n : Nat} :
    ((schema.atom.setAll settings).build.run n).1 = .error e ↔ schema.RefusesFirst settings e := by
  constructor
  · intro h
    rcases schema.takesAll_or_refusesFirst settings with htakes | ⟨e', hrefuses⟩
    · rw [setAll_of_takesAll hb htakes, run_build_ofSettings rfl] at h
      exact absurd h (by simp)
    · rw [setAll_of_refusesFirst hb hrefuses, run_build_error] at h
      injection h with h
      rwa [← h]
  · intro h
    rw [setAll_of_refusesFirst hb h, run_build_error]

end SetAll

end AtomBuilder

/-! ## Values in order -/

namespace Schema

/-- The fields that values are given for. -/
def written (schema : Schema) : List Field := schema.fields.filter (!·.isConstant)

/-- The last value that was given to each written field, in the order of the schema. -/
def lastValues (schema : Schema) (settings : List (String × FieldValue)) : List FieldValue :=
  schema.written.filterMap fun field => lastValue? settings field.name

/-- Every written field was given a value. -/
def SetsAll (schema : Schema) (settings : List (String × FieldValue)) : Prop :=
  ∀ field ∈ schema.written, ∃ setting ∈ settings, setting.1 = field.name

/-- The values as settings of the written fields, in the order of the schema. -/
def inOrder (schema : Schema) (values : List FieldValue) : List (String × FieldValue) :=
  (schema.written.zip values).map fun given => (given.1.name, given.2)

end Schema

section Deal

open AtomBuilder

variable {predicate : String} {fields : List Field} {slot : Field → Option FieldValue}
  {slots : List (Option FieldValue)} {dealt : List FieldValue} {n : Nat}

theorem run_fillSlots_some (field : Field) (value : FieldValue)
    (h : (fillSlots fields slots).run n = (dealt, n)) :
    (fillSlots (field :: fields) (some value :: slots)).run n = (value :: dealt, n) := by
  show (value :: ((fillSlots fields slots).run n).1, ((fillSlots fields slots).run n).2) = _
  rw [h]

/-- The open value of a constant is the constant. -/
theorem run_fillSlots_constant (name : String) (constant : Term)
    (h : (fillSlots fields slots).run n = (dealt, n)) :
    (fillSlots (⟨name, .constant constant⟩ :: fields) (none :: slots)).run n
      = (.term constant :: dealt, n) := by
  have hopen : (FieldKind.constant constant).openValue = pure (.term constant) := by
    rw [FieldKind.openValue]
  rw [fillSlots, hopen]
  exact run_fillSlots_some ⟨name, .constant constant⟩ (.term constant) h

/-- **Filled slots are dealt values.** If the slots of all written fields hold values that their
fields accept, and no constant has one, then filling the slots draws nothing and comes to the same
as dealing the values out. -/
theorem exists_deal_fillSlots
    (hconst : ∀ field ∈ fields, field.isConstant = true → slot field = none)
    (hgiven : ∀ field ∈ fields, field.isConstant = false →
      ∃ value, slot field = some value ∧ field.kind.accepts value = true) :
    ∃ dealt, dealValues predicate fields ((fields.filter (!·.isConstant)).filterMap slot)
        = .ok dealt
      ∧ ∀ n, (fillSlots fields (fields.map slot)).run n = (dealt, n) := by
  induction fields using fields_induction with
  | nil => exact ⟨[], by rw [dealValues], fun n => rfl⟩
  | constant name constant fields ih =>
      obtain ⟨dealt, hdeal, hfill⟩ := ih (fun f hf => hconst f (List.mem_cons_of_mem _ hf))
        (fun f hf => hgiven f (List.mem_cons_of_mem _ hf))
      refine ⟨.term constant :: dealt, ?_, fun n => ?_⟩
      · rw [filter_constant]
        exact dealValues_constant_eq_ok_iff.mpr ⟨dealt, hdeal, rfl⟩
      · rw [List.map_cons, hconst _ List.mem_cons_self rfl]
        exact run_fillSlots_constant name constant (hfill n)
  | written name kind fields hk ih =>
      obtain ⟨dealt, hdeal, hfill⟩ := ih (fun f hf => hconst f (List.mem_cons_of_mem _ hf))
        (fun f hf => hgiven f (List.mem_cons_of_mem _ hf))
      obtain ⟨value, hslot, haccepts⟩ := hgiven _ List.mem_cons_self hk
      refine ⟨value :: dealt, ?_, fun n => ?_⟩
      · rw [filter_written name hk, List.filterMap_cons_some hslot]
        exact (dealValues_cons_eq_ok_iff hk).mpr ⟨haccepts, dealt, hdeal, rfl⟩
      · rw [List.map_cons, hslot]
        exact run_fillSlots_some _ value (hfill n)

/-- The first value that its field does not accept ends the dealing. -/
theorem dealValues_of_refused {values : List FieldValue} {before after : List (Field × FieldValue)}
    {field : Field} {value : FieldValue}
    (h : (fields.filter (!·.isConstant)).zip values = before ++ (field, value) :: after)
    (hbefore : ∀ pair ∈ before, pair.1.kind.accepts pair.2 = true)
    (hv : field.kind.accepts value = false) : dealValues predicate fields values
      = .error (.wrongKind field.name predicate field.kind.expected value.found) := by
  induction fields using fields_induction generalizing values before with
  | nil => exact absurd h (by simp)
  | constant name constant fields ih =>
      rw [filter_constant] at h
      rw [dealValues_constant, ih h hbefore]
      rfl
  | written name kind fields hk ih =>
      rw [filter_written name hk] at h
      cases values with
      | nil => exact absurd h (by simp)
      | cons given values =>
          rw [List.zip_cons_cons] at h
          rw [dealValues_cons hk]
          cases before with
          | nil =>
              -- the refused value is the next one to be dealt
              injection h with hpair _
              injection hpair with hfield hvalue
              rw [hfield, hvalue, Field.check_eq_error hv]
              rfl
          | cons pair before =>
              injection h with hpair hrest
              obtain ⟨haccepts, hbefore⟩ := List.forall_mem_cons.mp hbefore
              rw [← hpair] at haccepts
              have hcheck : Field.check predicate ⟨name, kind⟩ given = .ok () :=
                Field.check_eq_ok_iff.mpr haccepts
              rw [hcheck, ih hrest hbefore]
              rfl

end Deal

namespace Schema

section InOrder

variable {schema : Schema} {settings : List (String × FieldValue)} {values : List FieldValue}
  {e : ConstructionError}

theorem mem_written {field : Field} :
    field ∈ schema.written ↔ field ∈ schema.fields ∧ field.isConstant = false := by
  simp [written]

/-- **Settings that are all taken and set all fields** build the atom of the last values. -/
theorem exists_build_of_setsAll (hb : schema.Built) (htakes : schema.TakesAll settings)
    (hsets : schema.SetsAll settings) :
    ∃ atom, Atom.ofValues schema (schema.lastValues settings) = .ok atom
      ∧ ∀ n, (schema.atom.setAll settings).build.run n = (.ok atom, n) := by
  have hlast : ∀ field ∈ schema.fields, field.isConstant = false →
      ∃ value, lastValue? settings field.name = some value
        ∧ field.kind.accepts value = true := by
    intro field hf hk
    obtain ⟨⟨_, given⟩, hm, rfl⟩ := hsets field (mem_written.mpr ⟨hf, hk⟩)
    obtain ⟨value, hvalue⟩ := exists_lastValue? hm
    exact ⟨value, hvalue, accepts_of_taken hf hk (htakes _ (mem_of_lastValue? hvalue))⟩
  have hconst : ∀ field ∈ schema.fields, field.isConstant = true →
      lastValue? settings field.name = none := by
    intro field hf hk
    refine Option.eq_none_iff_forall_ne_some.mpr fun value hvalue => ?_
    exact htakes _ (mem_of_lastValue? hvalue) _ (.constant hf rfl hk)
  obtain ⟨dealt, hdeal, hfill⟩ := exists_deal_fillSlots hconst hlast
  have hlen : (schema.lastValues settings).length = schema.arity := by
    refine List.filterMap_length_eq_length.mpr fun field hf => ?_
    obtain ⟨hf, hk⟩ := mem_written.mp hf
    obtain ⟨value, hvalue, _⟩ := hlast field hf hk
    rw [hvalue]
    rfl
  refine ⟨⟨schema, dealt⟩, Atom.ofValues_eq_ok_iff.mpr ⟨hlen, dealt, hdeal, rfl⟩, fun n => ?_⟩
  rw [AtomBuilder.setAll_of_takesAll hb htakes]
  exact AtomBuilder.run_build_ofSettings (hfill n)

/-- Only the last values matter. -/
theorem setAll_eq_of_filter_eq (hb : schema.Built) (htakes : schema.TakesAll settings)
    {settings' : List (String × FieldValue)}
    (h : ∀ name, settings'.filter (·.1 = name) = settings.filter (·.1 = name)) :
    schema.atom.setAll settings' = schema.atom.setAll settings := by
  have htakes' : schema.TakesAll settings' := by
    intro setting hm
    have hm' : setting ∈ settings'.filter (·.1 = setting.1) := List.mem_filter.mpr ⟨hm, by simp⟩
    rw [h] at hm'
    exact htakes setting (List.mem_of_mem_filter hm')
  rw [AtomBuilder.setAll_of_takesAll hb htakes', AtomBuilder.setAll_of_takesAll hb htakes]
  simp only [AtomBuilder.ofSettings, lastValue?, h]

theorem map_fst_zip_written (hlen : values.length = schema.arity) :
    (schema.written.zip values).map (·.1) = schema.written :=
  List.map_fst_zip (by rw [hlen]; exact Nat.le_refl _)

theorem map_snd_zip_written (hlen : values.length = schema.arity) :
    (schema.written.zip values).map (·.2) = values :=
  List.map_snd_zip (by rw [hlen]; exact Nat.le_refl _)

theorem nodup_inOrder (hb : schema.Built) (hlen : values.length = schema.arity) :
    ((schema.inOrder values).map (·.1)).Nodup := by
  have hnames : (schema.inOrder values).map (·.1) = schema.written.map (·.name) := by
    have hfields := congrArg (List.map (·.name)) (map_fst_zip_written hlen)
    rw [List.map_map] at hfields
    rw [inOrder, List.map_map]
    exact hfields
  rw [hnames]
  exact hb.names_nodup.sublist (List.filter_sublist.map _)

theorem setsAll_inOrder (hlen : values.length = schema.arity) :
    schema.SetsAll (schema.inOrder values) := by
  intro field hf
  rw [← map_fst_zip_written hlen] at hf
  obtain ⟨given, hm, rfl⟩ := List.mem_map.mp hf
  exact ⟨_, List.mem_map_of_mem hm, rfl⟩

/-- Values in order are the last values of their settings. -/
theorem lastValues_inOrder (hb : schema.Built) (hlen : values.length = schema.arity) :
    schema.lastValues (schema.inOrder values) = values := by
  have hlast : ∀ given ∈ schema.written.zip values,
      lastValue? (schema.inOrder values) given.1.name = some given.2 := fun given hm =>
    lastValue?_of_nodup (nodup_inOrder hb hlen) (List.mem_map_of_mem hm)
  calc schema.lastValues (schema.inOrder values)
      = ((schema.written.zip values).map (·.1)).filterMap fun field =>
          lastValue? (schema.inOrder values) field.name := by
        rw [map_fst_zip_written hlen, lastValues]
    _ = (schema.written.zip values).filterMap fun given => some given.2 := by
        rw [List.filterMap_map]
        exact List.filterMap_congr hlast
    _ = values := by
        rw [List.filterMap_eq_map', map_snd_zip_written hlen]

/-- A written field refuses nothing but a value of the wrong kind. -/
theorem Refuses.wrongKind_of_written (hb : schema.Built) {field : Field} {value : FieldValue}
    (hf : field ∈ schema.written) (h : schema.Refuses field.name value e) :
    field.kind.accepts value = false
      ∧ e = .wrongKind field.name schema.predicate field.kind.expected value.found := by
  obtain ⟨hf, hk⟩ := mem_written.mp hf
  generalize hname : field.name = name at h
  cases h with
  | unknown hn => exact absurd hname (hn field hf)
  | constant hf' hname' hk' =>
      have he := List.inj_on_of_nodup_map hb.names_nodup hf hf' (hname.trans hname'.symm)
      rw [he, hk'] at hk
      exact absurd hk (by simp)
  | wrongKind hf' hname' _ ha =>
      have he := List.inj_on_of_nodup_map hb.names_nodup hf hf' (hname.trans hname'.symm)
      rw [he]
      exact ⟨ha, rfl⟩

theorem taken_of_accepts (hb : schema.Built) {field : Field} {value : FieldValue}
    (hf : field ∈ schema.written) (ha : field.kind.accepts value = true) (e : ConstructionError) :
    ¬ schema.Refuses field.name value e := by
  intro h
  obtain ⟨hrefused, _⟩ := h.wrongKind_of_written hb hf
  rw [ha] at hrefused
  exact absurd hrefused (by simp)

/-- Values in order are refused as their settings are. -/
theorem ofValues_of_refusesFirst (hb : schema.Built) (hlen : values.length = schema.arity)
    (h : schema.RefusesFirst (schema.inOrder values) e) :
    Atom.ofValues schema values = .error e := by
  obtain ⟨before, name, value, after, hsplit, hbefore, hrefuses⟩ := h
  obtain ⟨taken, rest, hzip, rfl, hrest⟩ := List.map_eq_append_iff.mp hsplit
  obtain ⟨⟨field, given⟩, later, rfl, hgiven, -⟩ := List.map_eq_cons_iff.mp hrest
  injection hgiven with hname hvalue
  subst hname hvalue
  have hwritten : ∀ pair ∈ taken ++ (field, given) :: later, pair.1 ∈ schema.written := by
    rintro ⟨f, v⟩ hm
    rw [← hzip] at hm
    exact (List.of_mem_zip hm).1
  have haccepted : ∀ pair ∈ taken, pair.1.kind.accepts pair.2 = true := by
    intro pair hm
    obtain ⟨hf, hk⟩ := mem_written.mp (hwritten pair (List.mem_append_left _ hm))
    exact accepts_of_taken hf hk (hbefore _ (List.mem_map_of_mem hm))
  obtain ⟨ha, rfl⟩ := hrefuses.wrongKind_of_written hb (hwritten (field, given) (by simp))
  have hdeal : dealValues schema.predicate schema.fields values = .error _ :=
    dealValues_of_refused hzip haccepted ha
  unfold Atom.ofValues
  rw [if_pos hlen, hdeal]
  rfl

/-- **Values in order are settings in order.** -/
theorem run_build_inOrder (hb : schema.Built) (hlen : values.length = schema.arity) (n : Nat) :
    (schema.atom.setAll (schema.inOrder values)).build.run n
      = (Atom.ofValues schema values, n) := by
  rcases schema.takesAll_or_refusesFirst (schema.inOrder values) with htakes | ⟨e, hrefuses⟩
  · obtain ⟨atom, hof, hbuild⟩ := exists_build_of_setsAll hb htakes (setsAll_inOrder hlen)
    rw [lastValues_inOrder hb hlen] at hof
    rw [hbuild, hof]
  · rw [AtomBuilder.setAll_of_refusesFirst hb hrefuses, AtomBuilder.run_build_error,
      ofValues_of_refusesFirst hb hlen hrefuses]

/--
**Setting fields and giving values in order agree**, for every built schema.

A build fails if and only if some setting is refused, and with the reason of the
first one, whatever follows it. If no setting is refused and every written field was
set, the atom is the one of the last values, in the order of the schema, and no
variable is drawn for it. As long as no setting is refused, settings of different
fields can change places. And as many values as the schema takes have the outcome
of their settings in the order of the schema, be it an atom or an error.
-/
theorem settings_agree (hb : schema.Built) :
    (∀ settings n,
      ((∃ e, ((schema.atom.setAll settings).build.run n).1 = .error e)
          ↔ ∃ setting ∈ settings, ∃ e, schema.Refuses setting.1 setting.2 e)
        ∧ ∀ e, ((schema.atom.setAll settings).build.run n).1 = .error e
          ↔ schema.RefusesFirst settings e)
    ∧ (∀ settings, schema.TakesAll settings → schema.SetsAll settings →
        ∃ atom, Atom.ofValues schema (schema.lastValues settings) = .ok atom
          ∧ ∀ n, (schema.atom.setAll settings).build.run n = (.ok atom, n))
    ∧ (∀ settings settings', schema.TakesAll settings →
        (∀ name, settings'.filter (·.1 = name) = settings.filter (·.1 = name)) →
        (schema.atom.setAll settings').build = (schema.atom.setAll settings).build)
    ∧ ∀ values n, values.length = schema.arity →
        (schema.atom.setAll (schema.inOrder values)).build.run n
          = (Atom.ofValues schema values, n) := by
  refine ⟨fun settings n => ⟨?_, fun e => AtomBuilder.run_build_eq_error_iff hb⟩,
    fun settings htakes hsets => exists_build_of_setsAll hb htakes hsets,
    fun settings settings' htakes h => ?_, fun values n hlen => run_build_inOrder hb hlen n⟩
  · rw [exists_congr fun e => AtomBuilder.run_build_eq_error_iff hb, exists_refusesFirst_iff]
  · rw [setAll_eq_of_filter_eq hb htakes h]

end InOrder

end Schema

/-- The settings of a ticket, out of order and with second thoughts. -/
def ticketSettings : List (String × FieldValue) :=
  [("open", .term (.bool false)), ("owner", .atom ticketOwner), ("open", .term (.bool true))]

/-- A ticket is built from settings, and is not if its unit is set first. -/
theorem Schema.settings_agree_ticket :
    ticketSchema.Built
      ∧ (∀ n, (ticketSchema.atom.setAll ticketSettings).build.run n = (.ok ticket, n))
      ∧ ∀ n, ((ticketSchema.atom.setAll
          (("unit", .term (.int 8)) :: ticketSettings)).build.run n).1
            = .error (.constantField "unit" "ticket") := by
  have hb : ticketSchema.Built := by decide
  obtain ⟨herror, hbuild, -, -⟩ := Schema.settings_agree hb
  have hopen : (⟨"open", .scalar .boolean⟩ : Field) ∈ ticketSchema.written := by
    simp [Schema.written, ticketSchema, Field.isConstant, FieldKind.isConstant]
  have howner : (⟨"owner", .atom personSchema⟩ : Field) ∈ ticketSchema.written := by
    simp [Schema.written, ticketSchema, Field.isConstant, FieldKind.isConstant]
  have htakes : ticketSchema.TakesAll ticketSettings := by
    simp only [Schema.TakesAll, ticketSettings, List.forall_mem_cons]
    exact ⟨Schema.taken_of_accepts hb hopen rfl, Schema.taken_of_accepts hb howner (by decide),
      Schema.taken_of_accepts hb hopen rfl, by simp⟩
  have hsets : ticketSchema.SetsAll ticketSettings := by
    simp [Schema.SetsAll, Schema.written, ticketSchema, ticketSettings, Field.isConstant,
      FieldKind.isConstant]
  have hunit : (⟨"unit", .constant (.int 7)⟩ : Field) ∈ ticketSchema.fields := by
    simp [ticketSchema]
  refine ⟨hb, fun n => ?_, fun n => ?_⟩
  · obtain ⟨atom, hof, hrun⟩ := hbuild ticketSettings htakes hsets
    have hticket : Atom.ofValues ticketSchema (ticketSchema.lastValues ticketSettings)
        = .ok ticket := rfl
    rw [hticket] at hof
    injection hof with hof
    rw [hrun, hof]
  · have hrefuses : ticketSchema.Refuses "unit" (.term (.int 8))
        (.constantField "unit" "ticket") := .constant hunit rfl rfl
    exact ((herror _ n).2 _).mpr
      ⟨[], _, _, ticketSettings, rfl, by simp [Schema.TakesAll], hrefuses⟩

end AnswerSet
