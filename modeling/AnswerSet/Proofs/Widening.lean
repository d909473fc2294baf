import AnswerSet.Proofs.Acceptance

/-!
# Wildcards in place of plain kinds

A schema is widened by turning some of its fields for plain values into wildcards,
in nested schemas as well. Decoding by the widened schema is more lenient, but it
does not read anything differently. What the field for a plain value reads, the
wildcard reads as the same term. And if the wildcard reads a term of that kind, the
field for the kind would have read it too.

**This is because the kinds do not overlap.** No text is read as two of a string, a
truth value and an integer, so it does not matter in which order the wildcard tries
them (`read?_iff_readAny`). The rest follows the decoder: the outcomes of both
schemas are compared by one relation (`Widens`), which goes through every step that
the decoder takes, and the induction is on the schema.
-/

namespace AnswerSet

/-! ## Widened schemas -/

mutual

/-- The second schema is the first one with some fields for plain values turned into wildcards, at
any depth. -/
def Schema.WidensTo : Schema → Schema → Prop
  | ⟨predicate, fields⟩, ⟨predicate', wider⟩ => predicate = predicate' ∧ fieldsWidenTo fields wider

/-- Each field is as before, with a kind that may be widened. -/
def fieldsWidenTo : List Field → List Field → Prop
  | [], [] => True
  | ⟨name, kind⟩ :: fields, ⟨name', kind'⟩ :: wider =>
    name = name' ∧ kind.WidensTo kind' ∧ fieldsWidenTo fields wider
  | _, _ => False

/-- A plain kind may be widened, and so may the schema of an atom. Everything else stays. -/
def FieldKind.WidensTo : FieldKind → FieldKind → Prop
  | .scalar kind, wide => wide = .scalar kind ∨ wide = .any
  | .any, wide => wide = .any
  | .atom schema, .atom wider => schema.WidensTo wider
  | .constant value, wide => wide = .constant value
  | _, _ => False

end

mutual

/-- The second atom has the same terms in all its fields, at every depth, under schemas that are
widened. -/
def Atom.WidensTo : Atom → Atom → Prop
  | ⟨schema, values⟩, ⟨wider, values'⟩ => schema.WidensTo wider ∧ valuesWidenTo values values'

/-- The values are the same, one by one. -/
def valuesWidenTo : List FieldValue → List FieldValue → Prop
  | [], [] => True
  | value :: values, value' :: values' => value.WidensTo value' ∧ valuesWidenTo values values'
  | _, _ => False

/-- The terms are equal, or the atoms have the same terms. -/
def FieldValue.WidensTo : FieldValue → FieldValue → Prop
  | .term term, .term term' => term = term'
  | .atom atom, .atom atom' => atom.WidensTo atom'
  | _, _ => False

end

mutual

/-- Wherever the atom's schema has a wildcard for a plain kind of the given schema, the atom holds a
term of that kind. -/
def Atom.KeepsTo (schema : Schema) : Atom → Prop
  | ⟨wider, values⟩ => valuesKeepTo schema.fields wider.fields values

/-- Each value keeps to the kind of the field that was widened. -/
def valuesKeepTo : List Field → List Field → List FieldValue → Prop
  | field :: fields, wide :: wider, value :: values =>
    value.KeepsTo field.kind wide.kind ∧ valuesKeepTo fields wider values
  | _, _, _ => True

/-- The value in a widened field is of the kind that was there before. -/
def FieldValue.KeepsTo : FieldKind → FieldKind → FieldValue → Prop
  | .scalar kind, .any, .term term => term.scalarKind? = some kind
  | .atom schema, _, .atom atom => atom.KeepsTo schema
  | _, _, _ => True

end

/-! ## Kinds of plain values -/

section Kinds

variable {kind kind' : ScalarKind} {cs : List Char} {term term' : Term}

theorem eq_of_read?_boolean (h : ScalarKind.boolean.read? cs = some term) :
    cs = "true".toList ∨ cs = "false".toList := by
  by_cases ht : cs = "true".toList
  · exact Or.inl ht
  · by_cases hf : cs = "false".toList
    · exact Or.inr hf
    · rw [read?_boolean_eq_none ht hf] at h
      exact absurd h (by simp)

theorem neutral_of_read?_boolean (h : ScalarKind.boolean.read? cs = some term) :
    ∀ c ∈ cs, Scan.Neutral c := by
  have htrue : isPredicateName "true" = true := by decide
  have hfalse : isPredicateName "false" = true := by decide
  rcases eq_of_read?_boolean h with rfl | rfl
  · exact neutral_name htrue
  · exact neutral_name hfalse

/-- A string has quotes, which no other plain value has. -/
theorem read?_string_of_neutral (h : ∀ c ∈ cs, Scan.Neutral c) :
    ScalarKind.string.read? cs = none := by
  cases hread : ScalarKind.string.read? cs with
  | none => rfl
  | some term =>
      obtain ⟨inner, hinner, -⟩ := Option.map_eq_some_iff.mp hread
      obtain ⟨body, rfl⟩ := isQuoted_of_unquote? hinner
      exact absurd rfl (h '"' List.mem_cons_self).1

/-- A truth value is no decimal. -/
theorem read?_integer_of_boolean (h : ScalarKind.boolean.read? cs = some term) :
    ScalarKind.integer.read? cs = none := by
  rcases eq_of_read?_boolean h with rfl | rfl
  · decide
  · decide

theorem neutral_of_read?_integer (h : ScalarKind.integer.read? cs = some term) :
    ∀ c ∈ cs, Scan.Neutral c := by
  obtain ⟨n, hn, -⟩ := Option.map_eq_some_iff.mp h
  exact neutral_of_readWord? hn

/-- **What any kind reads, the wildcard reads as the same term.** -/
theorem readAny_of_read? (h : kind.read? cs = some term) : readAny cs = term := by
  rw [readAny_eq]
  cases kind with
  | string =>
      rw [h]
      rfl
  | boolean =>
      rw [read?_string_of_neutral (neutral_of_read?_boolean h), h]
      rfl
  | integer =>
      have hboolean : ScalarKind.boolean.read? cs = none := by
        cases hread : ScalarKind.boolean.read? cs with
        | none => rfl
        | some term' =>
            rw [read?_integer_of_boolean hread] at h
            exact absurd h (by simp)
      rw [read?_string_of_neutral (neutral_of_read?_integer h), hboolean, h]
      rfl

/-- A plain value that the wildcard reads is read by its own kind. -/
theorem exists_read?_of_readAny (h : (readAny cs).scalarKind? = some kind) :
    ∃ kind' : ScalarKind, kind'.read? cs = some (readAny cs) := by
  unfold readAny at h ⊢
  split
  · rename_i term hfind
    obtain ⟨kind', _, hread⟩ := List.exists_of_findSome?_eq_some hfind
    exact ⟨kind', hread⟩
  · rename_i hfind
    rw [hfind] at h
    exact absurd h (by simp [Term.scalarKind?])

/-- **The wildcard reads a term of a kind just when the kind reads that term.** -/
theorem read?_iff_readAny (hk : term.scalarKind? = some kind) :
    kind.read? cs = some term ↔ readAny cs = term := by
  constructor
  · exact readAny_of_read?
  · rintro rfl
    obtain ⟨kind', hread⟩ := exists_read?_of_readAny hk
    have hkind := ScalarKind.read?_kind hread
    rw [hk] at hkind
    injection hkind with hkind
    rw [hkind]
    exact hread

end Kinds

/-! ## Two outcomes -/

/-- The second outcome is more lenient than the first. Values of the first come with related ones of
the second, which keep to the first. Values of the second that keep to the first come with related
ones of the first. -/
structure Widens {α β : Type} (R : α → β → Prop) (K : β → Prop) (x : Except DecodeError α)
    (y : Except DecodeError β) : Prop where
  forward : ∀ a, x = .ok a → ∃ b, y = .ok b ∧ R a b ∧ K b
  backward : ∀ b, y = .ok b → K b → ∃ a, x = .ok a ∧ R a b

section Outcomes

variable {α β γ δ : Type} {R : α → β → Prop} {K : β → Prop} {R' : γ → δ → Prop} {K' : δ → Prop}
  {x : Except DecodeError α} {y : Except DecodeError β}

theorem widens_ok {a : α} {b : β} (hr : R a b) (hk : K b) : Widens R K (.ok a) (.ok b) where
  forward := by
    intro a' h
    injection h with h
    exact ⟨b, rfl, h ▸ hr, hk⟩
  backward := by
    intro b' h _
    injection h with h
    exact ⟨a, rfl, h ▸ hr⟩

theorem widens_error (e e' : DecodeError) : Widens R K (.error e) (.error e') where
  forward := fun _ h => absurd h (by simp)
  backward := fun _ h _ => absurd h (by simp)

/-- One step after the other. What keeps to the first outcome in the end has to have done so before. -/
theorem Widens.bind {f : α → Except DecodeError γ} {g : β → Except DecodeError δ}
    (h : Widens R K x y) (hstep : ∀ a b, R a b → K b → Widens R' K' (f a) (g b))
    (hkeeps : ∀ b d, g b = .ok d → K' d → K b) : Widens R' K' (x.bind f) (y.bind g) where
  forward := by
    intro c hc
    obtain ⟨a, ha, hc⟩ := Except.bind_eq_ok.mp hc
    obtain ⟨b, hb, hr, hk⟩ := h.forward a ha
    obtain ⟨d, hd, hr', hk'⟩ := (hstep a b hr hk).forward c hc
    exact ⟨d, Except.bind_eq_ok.mpr ⟨b, hb, hd⟩, hr', hk'⟩
  backward := by
    intro d hd hk'
    obtain ⟨b, hb, hd⟩ := Except.bind_eq_ok.mp hd
    have hk := hkeeps b d hd hk'
    obtain ⟨a, ha, hr⟩ := h.backward b hb hk
    obtain ⟨c, hc, hr'⟩ := (hstep a b hr hk).backward d hd hk'
    exact ⟨c, Except.bind_eq_ok.mpr ⟨a, ha, hc⟩, hr'⟩

/-- The wording of errors does not matter. -/
theorem Widens.mapError (h : Widens R K x y) (e e' : DecodeError → DecodeError) :
    Widens R K (x.mapError e) (y.mapError e') where
  forward := by
    intro a ha
    obtain ⟨b, hb, hr, hk⟩ := h.forward a (Except.mapError_eq_ok.mp ha)
    exact ⟨b, Except.mapError_eq_ok.mpr hb, hr, hk⟩
  backward := by
    intro b hb hk
    obtain ⟨a, ha, hr⟩ := h.backward b (Except.mapError_eq_ok.mp hb) hk
    exact ⟨a, Except.mapError_eq_ok.mpr ha, hr⟩

end Outcomes

/-! ## One field -/

/-- The outcomes of an atom's text under both schemas. -/
abbrev WidensAtom (schema : Schema) : Except DecodeError Atom → Except DecodeError Atom → Prop :=
  Widens Atom.WidensTo (Atom.KeepsTo schema)

theorem FieldKind.WidensTo.isConstant {kind wide : FieldKind} (h : kind.WidensTo wide) :
    wide.isConstant = kind.isConstant := by
  cases kind with
  | scalar kind =>
      rw [FieldKind.WidensTo] at h
      rcases h with rfl | rfl
      · rfl
      · rfl
  | any =>
      rw [FieldKind.WidensTo] at h
      rw [h]
  | atom schema =>
      cases wide with
      | atom wider => rfl
      | scalar kind => exact absurd h (by simp [FieldKind.WidensTo])
      | any => exact absurd h (by simp [FieldKind.WidensTo])
      | constant value => exact absurd h (by simp [FieldKind.WidensTo])
  | constant value =>
      rw [FieldKind.WidensTo] at h
      rw [h]

theorem FieldKind.WidensTo.of_constant {value : Term} {wide : FieldKind}
    (h : (FieldKind.constant value).WidensTo wide) : wide = .constant value := by
  rwa [FieldKind.WidensTo] at h

theorem Schema.WidensTo.predicate_eq {schema wider : Schema} (h : schema.WidensTo wider) :
    wider.predicate = schema.predicate := by
  cases schema
  cases wider
  rw [Schema.WidensTo] at h
  exact h.1.symm

theorem Schema.WidensTo.fields {schema wider : Schema} (h : schema.WidensTo wider) :
    fieldsWidenTo schema.fields wider.fields := by
  cases schema
  cases wider
  rw [Schema.WidensTo] at h
  exact h.2

/-- A wildcard reads an argument like the field for a plain value that it stands for. -/
theorem widens_readAny (kind : ScalarKind) (cs : List Char) :
    Widens FieldValue.WidensTo (FieldValue.KeepsTo (.scalar kind) .any)
      ((FieldKind.scalar kind).read cs) (FieldKind.any.read cs) where
  forward := by
    intro value hvalue
    obtain ⟨term, hread, rfl⟩ := FieldKind.read_scalar_eq_ok hvalue
    refine ⟨.term term, by rw [FieldKind.read, readAny_of_read? hread], ?_, ?_⟩
    · rw [FieldValue.WidensTo]
    · rw [FieldValue.KeepsTo]
      exact ScalarKind.read?_kind hread
  backward := by
    intro value hvalue hkeeps
    rw [FieldKind.read] at hvalue
    injection hvalue with hvalue
    rw [← hvalue, FieldValue.KeepsTo] at hkeeps
    refine ⟨_, FieldKind.read_scalar ((read?_iff_readAny hkeeps).mpr rfl), ?_⟩
    rw [← hvalue, FieldValue.WidensTo]

/-- A field reads its argument alike before and after it was widened. -/
theorem FieldKind.WidensTo.widens_read {kind wide : FieldKind} (h : kind.WidensTo wide)
    (ih : ∀ inner, kind = .atom inner → ∀ wider, inner.WidensTo wider → ∀ predicate cs,
      WidensAtom inner (inner.read predicate cs) (wider.read predicate cs)) (cs : List Char) :
    Widens FieldValue.WidensTo (FieldValue.KeepsTo kind wide) (kind.read cs) (wide.read cs) := by
  cases kind with
  | scalar kind =>
      rw [FieldKind.WidensTo] at h
      rcases h with rfl | rfl
      · rw [FieldKind.read]
        cases kind.read? cs with
        | none => exact widens_error _ _
        | some term =>
            refine widens_ok ?_ ?_
            · rw [FieldValue.WidensTo]
            · rw [FieldValue.KeepsTo] <;> simp
      · exact widens_readAny kind cs
  | any =>
      rw [FieldKind.WidensTo] at h
      rw [h, FieldKind.read]
      refine widens_ok ?_ ?_
      · rw [FieldValue.WidensTo]
      · rw [FieldValue.KeepsTo] <;> simp
  | atom inner =>
      cases wide with
      | atom wider =>
          rw [FieldKind.WidensTo] at h
          rw [FieldKind.read, FieldKind.read, h.predicate_eq]
          split
          · exact widens_error _ _
          · refine (ih inner rfl wider h inner.predicate cs).bind (fun atom wide hw hk => ?_) ?_
            · refine widens_ok ?_ ?_
              · rwa [FieldValue.WidensTo]
              · rwa [FieldValue.KeepsTo]
            · intro wide value hvalue hk
              injection hvalue with hvalue
              rwa [← hvalue, FieldValue.KeepsTo] at hk
      | scalar kind => exact absurd h (by simp [FieldKind.WidensTo])
      | any => exact absurd h (by simp [FieldKind.WidensTo])
      | constant value => exact absurd h (by simp [FieldKind.WidensTo])
  | constant value =>
      rw [h.of_constant, FieldKind.read]
      exact widens_error _ _

/-! ## All fields -/

theorem fieldsWidenTo_cons {name : String} {kind : FieldKind} {fields wider : List Field}
    (h : fieldsWidenTo (⟨name, kind⟩ :: fields) wider) :
    ∃ wide rest, wider = ⟨name, wide⟩ :: rest ∧ kind.WidensTo wide ∧ fieldsWidenTo fields rest := by
  cases wider with
  | nil => exact absurd h (by simp [fieldsWidenTo])
  | cons field rest =>
      cases field with
      | mk name' wide =>
          rw [fieldsWidenTo] at h
          obtain ⟨rfl, hkind, hrest⟩ := h
          exact ⟨wide, rest, rfl, hkind, hrest⟩

theorem arity_of_fieldsWidenTo (predicate predicate' : String) {fields wider : List Field}
    (h : fieldsWidenTo fields wider) :
    Schema.arity ⟨predicate', wider⟩ = Schema.arity ⟨predicate, fields⟩ := by
  induction fields generalizing wider with
  | nil =>
      cases wider with
      | nil => rfl
      | cons field rest => exact absurd h (by simp [fieldsWidenTo])
  | cons field fields ih =>
      obtain ⟨name, kind⟩ := field
      obtain ⟨wide, rest, rfl, hkind, hrest⟩ := fieldsWidenTo_cons h
      have hlen := ih hrest
      unfold Schema.arity at hlen ⊢
      simp only [List.filter_cons, Field.isConstant, hkind.isConstant] at hlen ⊢
      split
      · rw [List.length_cons, List.length_cons, hlen]
      · exact hlen

/-- **A row of fields reads its arguments alike before and after it was widened.** -/
theorem widens_readFields (predicate predicate' : String) {fields wider : List Field}
    (h : fieldsWidenTo fields wider)
    (ih : ∀ field ∈ fields, ∀ inner, field.kind = .atom inner → ∀ wider, inner.WidensTo wider →
      ∀ predicate cs, WidensAtom inner (inner.read predicate cs) (wider.read predicate cs))
    {found : List (List Char)} (hl : found.length = Schema.arity ⟨predicate, fields⟩) :
    Widens (fun values wide => valuesWidenTo (withConstants fields values) (withConstants wider wide))
      (fun wide => valuesKeepTo fields wider (withConstants wider wide))
      (readFields predicate fields found) (readFields predicate' wider found) := by
  induction fields using fields_induction generalizing wider found with
  | nil =>
      cases wider with
      | nil => exact widens_ok trivial trivial
      | cons field rest => exact absurd h (by simp [fieldsWidenTo])
  | constant name value fields ihf =>
      obtain ⟨wide, rest, rfl, hkind, hrest⟩ := fieldsWidenTo_cons h
      rw [hkind.of_constant]
      simp only [readFields_constant, withConstants_constant, valuesWidenTo, valuesKeepTo,
        FieldValue.WidensTo, FieldValue.KeepsTo, true_and]
      exact ihf hrest (fun f hf => ih f (List.mem_cons_of_mem _ hf)) hl
  | written name kind fields hk ihf =>
      obtain ⟨wide, rest, rfl, hkind, hrest⟩ := fieldsWidenTo_cons h
      have hwide : wide.isConstant = false := by rw [hkind.isConstant, hk]
      rw [arity_cons hk] at hl
      cases found with
      | nil => exact absurd hl (by simp)
      | cons cs found =>
          have hfirst := hkind.widens_read (ih _ List.mem_cons_self) cs
          have hothers := ihf hrest (fun f hf => ih f (List.mem_cons_of_mem _ hf))
            (Nat.succ_inj.mp hl)
          rw [readFields_cons hk, readFields_cons hwide]
          refine (hfirst.mapError _ _).bind (fun value wideValue hv hkv => ?_) ?_
          · refine hothers.bind (fun values wideValues hvs hkvs => ?_) ?_
            · refine widens_ok ?_ ?_
              · rw [withConstants_cons hk, withConstants_cons hwide, valuesWidenTo]
                exact ⟨hv, hvs⟩
              · rw [withConstants_cons hwide, valuesKeepTo]
                exact ⟨hkv, hkvs⟩
            · intro wideValues dealt hdealt hkeeps
              injection hdealt with hdealt
              rw [← hdealt, withConstants_cons hwide, valuesKeepTo] at hkeeps
              exact hkeeps.2
          · intro wideValue dealt hdealt hkeeps
            obtain ⟨wideValues, _, hdealt⟩ := Except.bind_eq_ok.mp hdealt
            injection hdealt with hdealt
            rw [← hdealt, withConstants_cons hwide, valuesKeepTo] at hkeeps
            exact hkeeps.1

/-! ## Whole atoms -/

/-- **A schema reads every text alike before and after it was widened.** -/
theorem Schema.WidensTo.widens_read {schema wider : Schema} (h : schema.WidensTo wider)
    (predicate : String) (cs : List Char) :
    WidensAtom schema (schema.read predicate cs) (wider.read predicate cs) := by
  induction schema using Schema.induction generalizing wider predicate cs with
  | mk name fields ih =>
      have harity : wider.arity = Schema.arity ⟨name, fields⟩ := arity_of_fieldsWidenTo name wider.predicate h.fields
      have hih : ∀ field ∈ fields, ∀ inner, field.kind = .atom inner → ∀ wider,
          inner.WidensTo wider → ∀ predicate cs,
          WidensAtom inner (inner.read predicate cs) (wider.read predicate cs) :=
        fun field hf inner hi wider hw => ih field hf inner hi hw
      constructor
      · intro atom hatom
        obtain ⟨ha, hl, values, hread, rfl⟩ := Schema.read_eq_ok_iff_readFields.mp hatom
        have hfields := widens_readFields name wider.predicate h.fields hih hl
        obtain ⟨wideValues, hwide, hr, hk⟩ := hfields.forward values hread
        refine ⟨⟨wider, withConstants wider.fields wideValues⟩, ?_, ?_, ?_⟩
        · exact Schema.read_eq_ok_iff_readFields.mpr
            ⟨ha, hl.trans harity.symm, wideValues, hwide, rfl⟩
        · rw [Atom.WidensTo]
          exact ⟨h, hr⟩
        · rw [Atom.KeepsTo]
          exact hk
      · intro wide hwide hkeeps
        obtain ⟨ha, hl, wideValues, hread, rfl⟩ := Schema.read_eq_ok_iff_readFields.mp hwide
        have hl' := hl.trans harity
        have hfields := widens_readFields name wider.predicate h.fields hih hl'
        rw [Atom.KeepsTo] at hkeeps
        obtain ⟨values, hvalues, hr⟩ := hfields.backward wideValues hread hkeeps
        refine ⟨⟨⟨name, fields⟩, withConstants fields values⟩, ?_, ?_⟩
        · exact Schema.read_eq_ok_iff_readFields.mpr ⟨ha, hl', values, hvalues, rfl⟩
        · rw [Atom.WidensTo]
          exact ⟨h, hr⟩

theorem valuesWidenTo_cons {value : FieldValue} {values others : List FieldValue}
    (h : valuesWidenTo (value :: values) others) :
    ∃ other rest, others = other :: rest ∧ value.WidensTo other ∧ valuesWidenTo values rest := by
  cases others with
  | nil => exact absurd h (by simp [valuesWidenTo])
  | cons other rest =>
      rw [valuesWidenTo] at h
      exact ⟨other, rest, rfl, h.1, h.2⟩

theorem FieldValue.WidensTo.spelled_eq {value other : FieldValue} (h : value.WidensTo other)
    (comma : String)
    (ih : ∀ inner, value = .atom inner → ∀ wide, inner.WidensTo wide →
      wide.spelled comma = inner.spelled comma) : other.spelled comma = value.spelled comma := by
  cases value with
  | term term =>
      cases other with
      | term term' =>
          rw [FieldValue.WidensTo] at h
          rw [h]
      | atom atom => exact absurd h (by simp [FieldValue.WidensTo])
  | atom inner =>
      cases other with
      | term term => exact absurd h (by simp [FieldValue.WidensTo])
      | atom wide =>
          rw [FieldValue.WidensTo] at h
          rw [FieldValue.spelled, FieldValue.spelled]
          exact ih inner rfl wide h

theorem spelledFields_of_widenTo (comma : String) {fields wider : List Field}
    {values others : List FieldValue} (hf : fieldsWidenTo fields wider)
    (hv : valuesWidenTo values others)
    (ih : ∀ inner, .atom inner ∈ values → ∀ wide, inner.WidensTo wide →
      wide.spelled comma = inner.spelled comma) :
    spelledFields comma wider others = spelledFields comma fields values := by
  induction fields generalizing wider values others with
  | nil =>
      cases wider with
      | nil => simp only [spelledFields]
      | cons field rest => exact absurd hf (by simp [fieldsWidenTo])
  | cons field fields ihf =>
      obtain ⟨name, kind⟩ := field
      obtain ⟨wide, rest, rfl, hkind, hrest⟩ := fieldsWidenTo_cons hf
      cases values with
      | nil =>
          cases others with
          | nil => rfl
          | cons other others => exact absurd hv (by simp [valuesWidenTo])
      | cons value values =>
          obtain ⟨other, others, rfl, hvalue, hvalues⟩ := valuesWidenTo_cons hv
          have hothers := ihf hrest hvalues fun inner hm => ih inner (List.mem_cons_of_mem _ hm)
          have hfirst := hvalue.spelled_eq comma fun inner hi =>
            ih inner (hi ▸ List.mem_cons_self)
          rw [spelledFields, spelledFields, Field.isConstant, Field.isConstant, hkind.isConstant,
            hothers, hfirst]

/-- **Atoms with the same terms are written alike.** -/
theorem Atom.WidensTo.spelled_eq {comma : String} {atom wide : Atom} (h : atom.WidensTo wide) :
    wide.spelled comma = atom.spelled comma := by
  induction atom using Atom.induction generalizing wide with
  | mk schema values ih =>
      obtain ⟨wider, others⟩ := wide
      rw [Atom.WidensTo] at h
      obtain ⟨hs, hv⟩ := h
      obtain ⟨predicate, fields⟩ := schema
      obtain ⟨predicate', wideFields⟩ := wider
      have hfields := spelledFields_of_widenTo comma hs.fields hv
        fun inner hm wide hw => ih inner hm hw
      have hpredicate := hs.predicate_eq
      rw [Atom.spelled, Atom.spelled, hfields, hpredicate]

/--
**Wildcards decode as the kinds that they stand for.**

Let a schema be widened by turning some of its fields for plain values into wildcards,
at any depth. What decodes by the schema decodes by the widened one, with the same
terms in all fields at every depth, and so is written alike. What decodes by the
widened schema, with a term of the former kind in each field that was widened, decodes
by the schema itself, with the same terms.
-/
theorem Schema.decode_widened {schema wider : Schema} (h : schema.WidensTo wider) (text : String) :
    (∀ atom, schema.decode schema.predicate text = .ok atom →
        ∃ wide, wider.decode schema.predicate text = .ok wide ∧ atom.WidensTo wide
          ∧ wide.KeepsTo schema ∧ wide.text = atom.text)
      ∧ ∀ wide, wider.decode schema.predicate text = .ok wide → wide.KeepsTo schema →
        ∃ atom, schema.decode schema.predicate text = .ok atom ∧ atom.WidensTo wide := by
  have hreads := h.widens_read schema.predicate text.toList
  constructor
  · intro atom hatom
    obtain ⟨wide, hwide, hr, hk⟩ := hreads.forward atom hatom
    exact ⟨wide, hwide, hr, hk, hr.spelled_eq⟩
  · intro wide hwide hk
    exact hreads.backward wide hwide hk

/-- A ticket that may be open in any way, with an owner of any age. -/
def looseTicketSchema : Schema :=
  ⟨"ticket", [⟨"open", .any⟩, ⟨"unit", .constant (.int 7)⟩,
    ⟨"owner", .atom ⟨"person", [⟨"name", .scalar .string⟩, ⟨"age", .any⟩]⟩⟩]⟩

/-- The ticket decodes by the wider schema with the same terms, and from there by its own. -/
theorem Schema.decode_widened_ticket :
    ticketSchema.WidensTo looseTicketSchema
      ∧ ticketSchema.decode "ticket" " ticket(true, person(\"é)\",-4))." = .ok ticket
      ∧ ∃ wide, looseTicketSchema.decode "ticket" " ticket(true, person(\"é)\",-4))." = .ok wide
        ∧ ticket.WidensTo wide ∧ wide.text = ticket.text ∧ wide.KeepsTo ticketSchema
        ∧ ∃ atom, ticketSchema.decode "ticket" " ticket(true, person(\"é)\",-4))." = .ok atom
          ∧ atom.WidensTo wide := by
  have hwidens : ticketSchema.WidensTo looseTicketSchema := by
    simp [ticketSchema, looseTicketSchema, personSchema, Schema.WidensTo, fieldsWidenTo,
      FieldKind.WidensTo]
  obtain ⟨hforward, hbackward⟩ :=
    Schema.decode_widened hwidens " ticket(true, person(\"é)\",-4))."
  obtain ⟨wide, hwide, hterms, hkeeps, htext⟩ := hforward ticket decode_ticket
  exact ⟨hwidens, decode_ticket, wide, hwide, hterms, htext, hkeeps, hbackward wide hwide hkeeps⟩

end AnswerSet
