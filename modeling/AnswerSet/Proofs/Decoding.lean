import AnswerSet.Proofs.Scalars

/-!
# When decoding succeeds

Decoding an atom is three steps: the text must be an atom of the predicate, the
number of its arguments must be the number of written fields, and every argument
must read as a value of its field. What comes out is put together from the values
and the schema's constants (`Schema.read_eq_ok_iff`).

The values of an atom fall into those that are written and those that are
constants. Only the former take part in reading and writing.
-/

namespace AnswerSet

/-! ## Induction on atoms -/

mutual

/-- What holds of an atom because it holds of all atoms in its fields holds of every atom. -/
@[elab_as_elim]
theorem Atom.induction {motive : Atom → Prop}
    (mk : ∀ schema values, (∀ inner, .atom inner ∈ values → motive inner) →
      motive ⟨schema, values⟩) : ∀ atom, motive atom
  | ⟨schema, values⟩ => mk schema values (inner_induction mk values)

theorem inner_induction {motive : Atom → Prop}
    (mk : ∀ schema values, (∀ inner, .atom inner ∈ values → motive inner) →
      motive ⟨schema, values⟩) :
    ∀ values : List FieldValue, ∀ inner, .atom inner ∈ values → motive inner
  | [], _, hm => absurd hm (by simp)
  | .term _ :: values, inner, hm => inner_induction mk values inner (by simpa using hm)
  | .atom first :: values, inner, hm => by
      rcases List.mem_cons.mp hm with he | hm
      · injection he with he
        rw [he]
        exact Atom.induction mk first
      · exact inner_induction mk values inner hm

end

/-! ## Induction on schemas -/

mutual

/-- What holds of a schema because it holds of all schemas nested in it holds of every schema. -/
@[elab_as_elim]
theorem Schema.induction {motive : Schema → Prop}
    (mk : ∀ predicate fields,
      (∀ field ∈ fields, ∀ inner, field.kind = .atom inner → motive inner) →
      motive ⟨predicate, fields⟩) : ∀ schema, motive schema
  | ⟨predicate, fields⟩ => mk predicate fields (nested_induction mk fields)

theorem nested_induction {motive : Schema → Prop}
    (mk : ∀ predicate fields,
      (∀ field ∈ fields, ∀ inner, field.kind = .atom inner → motive inner) →
      motive ⟨predicate, fields⟩) :
    ∀ fields : List Field, ∀ field ∈ fields, ∀ inner, field.kind = .atom inner → motive inner
  | [], _, hf, _, _ => absurd hf (by simp)
  | ⟨_, kind⟩ :: fields, field, hf, inner, hk => by
      rcases List.mem_cons.mp hf with rfl | hf
      · exact kind_induction mk kind inner hk
      · exact nested_induction mk fields field hf inner hk

theorem kind_induction {motive : Schema → Prop}
    (mk : ∀ predicate fields,
      (∀ field ∈ fields, ∀ inner, field.kind = .atom inner → motive inner) →
      motive ⟨predicate, fields⟩) :
    ∀ kind : FieldKind, ∀ inner, kind = .atom inner → motive inner
  | .atom schema, inner, hk => by
      injection hk with hk
      rw [← hk]
      exact Schema.induction mk schema
  | .scalar _, _, hk => absurd hk (by simp)
  | .any, _, hk => absurd hk (by simp)
  | .constant _, _, hk => absurd hk (by simp)

end

/-! ## Written values -/

/-- The values whose fields are not constants. -/
def writtenValues : List Field → List FieldValue → List FieldValue
  | field :: fields, value :: values =>
    if field.isConstant then writtenValues fields values
    else value :: writtenValues fields values
  | _, _ => []

theorem spelledFields_eq (comma : String) (fields : List Field) (values : List FieldValue) :
    spelledFields comma fields values
      = (writtenValues fields values).map (·.spelled comma) := by
  induction fields generalizing values with
  | nil => simp [spelledFields, writtenValues]
  | cons field fields ih =>
      cases values with
      | nil => simp [spelledFields, writtenValues]
      | cons value values =>
          rw [spelledFields, writtenValues]
          split
          · exact ih values
          · rw [List.map_cons, ih values]

theorem spelledFields_constant {comma name : String} {term : Term} {fields : List Field}
    {value : FieldValue} {values : List FieldValue} :
    spelledFields comma (⟨name, .constant term⟩ :: fields) (value :: values)
      = spelledFields comma fields values := rfl

theorem spelledFields_written {comma name : String} {kind : FieldKind}
    (hk : kind.isConstant = false) {fields : List Field} {value : FieldValue}
    {values : List FieldValue} : spelledFields comma (⟨name, kind⟩ :: fields) (value :: values)
      = value.spelled comma :: spelledFields comma fields values := by
  rw [spelledFields, Field.isConstant, hk, if_neg Bool.false_ne_true]

theorem Atom.spelled_eq (comma : String) (atom : Atom) :
    atom.spelled comma = application comma atom.schema.predicate
      ((writtenValues atom.schema.fields atom.values).map (·.spelled comma)) := by
  cases atom with
  | mk schema values =>
      rw [Atom.spelled, spelledFields_eq]

/-! ## The steps of decoding -/

theorem Schema.read_eq (schema : Schema) (predicate : String) (cs : List Char) :
    schema.read predicate cs =
      if !isAtomOf predicate.toList cs then
        .error (.otherPredicate (.ofList (Text.trim cs)) predicate)
      else if (arguments predicate.toList cs).length ≠ schema.arity then
        .error (.wrongArgumentCount (.ofList (Text.trim cs)) schema.predicate
          (arguments predicate.toList cs).length schema.arity)
      else (readFields schema.predicate schema.fields (arguments predicate.toList cs)).bind
        fun values => (Atom.ofValues schema values).mapError (.unbuildable (.ofList (Text.trim cs)))
    := by
  cases schema with
  | mk name fields => rfl

theorem Except.bind_eq_ok {ε α β : Type} {x : Except ε α} {f : α → Except ε β} {b : β} :
    x.bind f = .ok b ↔ ∃ a, x = .ok a ∧ f a = .ok b := by
  cases x with
  | error e => simp [Except.bind]
  | ok a => simp [Except.bind]

theorem Except.mapError_eq_error {ε ε' α : Type} {x : Except ε α} {f : ε → ε'} {e : ε'} :
    x.mapError f = .error e ↔ ∃ e', x = .error e' ∧ f e' = e := by
  cases x with
  | error e' => simp [Except.mapError]
  | ok a => simp [Except.mapError]

theorem Except.mapError_eq_ok {ε ε' α : Type} {x : Except ε α} {f : ε → ε'} {a : α} :
    x.mapError f = .ok a ↔ x = .ok a := by
  cases x with
  | error e => simp [Except.mapError]
  | ok a => simp [Except.mapError]

/-- What it takes to go through a list without an error. -/
theorem mapM_eq_ok_iff {ε α β : Type} {f : α → Except ε β} {xs : List α}
    {ys : List β} : xs.mapM f = .ok ys ↔ List.Forall₂ (fun x y => f x = .ok y) xs ys := by
  induction xs generalizing ys with
  | nil =>
      cases ys with
      | nil => exact ⟨fun _ => .nil, fun _ => rfl⟩
      | cons y ys => simp [pure, Except.pure]
  | cons x xs ih =>
      rw [List.mapM_cons]
      constructor
      · intro h
        obtain ⟨y, hy, hrest⟩ := Except.bind_eq_ok.mp h
        obtain ⟨zs, hzs, he⟩ := Except.bind_eq_ok.mp hrest
        injection he with he
        rw [← he]
        exact .cons hy (ih.mp hzs)
      · rintro (_ | ⟨hy, hrest⟩)
        exact Except.bind_eq_ok.mpr ⟨_, hy, Except.bind_eq_ok.mpr ⟨_, ih.mpr hrest, rfl⟩⟩

/-- Going through a list fails with the error of its first failing item. -/
theorem mapM_eq_error_iff {ε α β : Type} {f : α → Except ε β} {xs : List α} {e : ε} :
    xs.mapM f = .error e ↔ ∃ before x after, xs = before ++ x :: after
      ∧ (∀ y ∈ before, ∃ b, f y = .ok b) ∧ f x = .error e := by
  induction xs with
  | nil => simp [pure, Except.pure]
  | cons x xs ih =>
      rw [List.mapM_cons]
      cases hx : f x with
      | error e' =>
          constructor
          · intro h
            injection h with h
            exact ⟨[], x, xs, rfl, by simp, by rw [hx, h]⟩
          · rintro ⟨before, y, after, he, hbefore, hy⟩
            cases before with
            | nil =>
                injection he with he _
                rw [he, hy] at hx
                injection hx with hx
                rw [hx]
                rfl
            | cons z before =>
                injection he with he _
                obtain ⟨b, hb⟩ := hbefore z List.mem_cons_self
                rw [← he, hx] at hb
                exact absurd hb (by simp)
      | ok y =>
          have hrest : (xs.mapM f).bind (fun ys => .ok (y :: ys)) = .error e
              ↔ xs.mapM f = .error e := by
            cases xs.mapM f <;> simp [Except.bind]
          refine hrest.trans (ih.trans ?_)
          constructor
          · rintro ⟨before, z, after, rfl, hbefore, hz⟩
            exact ⟨x :: before, z, after, rfl, List.forall_mem_cons.mpr ⟨⟨y, hx⟩, hbefore⟩, hz⟩
          · rintro ⟨before, z, after, he, hbefore, hz⟩
            cases before with
            | nil =>
                injection he with he _
                rw [he, hz] at hx
                exact absurd hx (by simp)
            | cons w before =>
                injection he with _ he
                exact ⟨before, z, after, he, (List.forall_mem_cons.mp hbefore).2, hz⟩

/-- Going through a list succeeds exactly if it does for each item. -/
theorem mapM_ok_iff {ε α β : Type} {f : α → Except ε β} {xs : List α} :
    (∃ ys, xs.mapM f = .ok ys) ↔ ∀ x ∈ xs, ∃ y, f x = .ok y := by
  constructor
  · rintro ⟨ys, hys⟩
    have hall := mapM_eq_ok_iff.mp hys
    clear hys
    induction hall with
    | nil => simp
    | cons hx _ ih => exact List.forall_mem_cons.mpr ⟨⟨_, hx⟩, ih⟩
  · intro h
    cases hm : xs.mapM f with
    | ok ys => exact ⟨ys, rfl⟩
    | error e =>
        obtain ⟨before, x, after, rfl, _, hx⟩ := mapM_eq_error_iff.mp hm
        obtain ⟨y, hy⟩ := h x (by simp)
        rw [hx] at hy
        cases hy

/-- Every result comes from an item. -/
theorem exists_of_mem_mapM {ε α β : Type} {f : α → Except ε β} {xs : List α} {ys : List β}
    (h : xs.mapM f = .ok ys) {y : β} (hy : y ∈ ys) : ∃ x ∈ xs, f x = .ok y := by
  induction mapM_eq_ok_iff.mp h with
  | nil => exact absurd hy (by simp)
  | @cons x z xs zs hx hrest ih =>
      rcases List.mem_cons.mp hy with rfl | hy
      · exact ⟨x, List.mem_cons_self, hx⟩
      · obtain ⟨x', hm, hx'⟩ := ih (mapM_eq_ok_iff.mpr hrest) hy
        exact ⟨x', List.mem_cons_of_mem _ hm, hx'⟩

/-- **What it takes for a text to decode, and what comes out.** -/
theorem Schema.read_eq_ok_iff {schema : Schema} {predicate : String} {cs : List Char}
    {atom : Atom} : schema.read predicate cs = .ok atom ↔
      isAtomOf predicate.toList cs = true
        ∧ (arguments predicate.toList cs).length = schema.arity
        ∧ ∃ values, readFields schema.predicate schema.fields (arguments predicate.toList cs)
            = .ok values ∧ Atom.ofValues schema values = .ok atom := by
  rw [Schema.read_eq]
  -- one check after the other
  cases isAtomOf predicate.toList cs with
  | false => simp
  | true =>
      rw [Bool.not_true, if_neg Bool.false_ne_true]
      by_cases hl : (arguments predicate.toList cs).length = schema.arity
      · rw [if_neg (not_not_intro hl), Except.bind_eq_ok]
        simp only [Except.mapError_eq_ok, hl, true_and]
      · rw [if_pos hl]
        simp [hl]

/-- Reading, step by step. -/
theorem Schema.read_of_arguments {schema : Schema} {predicate : String} {cs : List Char}
    {found : List (List Char)} {values : List FieldValue} {atom : Atom}
    (ha : isAtomOf predicate.toList cs = true) (hf : arguments predicate.toList cs = found)
    (hl : found.length = schema.arity)
    (hr : readFields schema.predicate schema.fields found = .ok values)
    (hof : Atom.ofValues schema values = .ok atom) : schema.read predicate cs = .ok atom := by
  subst hf
  exact Schema.read_eq_ok_iff.mpr ⟨ha, hl, values, hr, hof⟩

/-- An atom is built from as many values as its schema has written fields. -/
theorem Atom.ofValues_eq_ok_iff {schema : Schema} {values : List FieldValue} {atom : Atom} :
    Atom.ofValues schema values = .ok atom ↔
      values.length = schema.arity
        ∧ ∃ dealt, dealValues schema.predicate schema.fields values = .ok dealt
            ∧ atom = ⟨schema, dealt⟩ := by
  unfold Atom.ofValues
  split
  · rename_i hl
    show (dealValues schema.predicate schema.fields values).bind (fun dealt => .ok ⟨schema, dealt⟩)
      = .ok atom ↔ _
    rw [Except.bind_eq_ok]
    constructor
    · rintro ⟨dealt, hd, he⟩
      injection he with he
      exact ⟨hl, dealt, hd, he.symm⟩
    · rintro ⟨_, dealt, hd, he⟩
      exact ⟨dealt, hd, by rw [he]⟩
  · rename_i hl
    simp [hl]

theorem schema_of_read {schema : Schema} {predicate : String} {cs : List Char} {atom : Atom}
    (h : schema.read predicate cs = .ok atom) : atom.schema = schema := by
  obtain ⟨_, _, values, _, hof⟩ := Schema.read_eq_ok_iff.mp h
  obtain ⟨_, dealt, _, rfl⟩ := Atom.ofValues_eq_ok_iff.mp hof
  rfl

theorem FieldKind.read_scalar {kind : ScalarKind} {cs : List Char} {term : Term}
    (h : kind.read? cs = some term) : (FieldKind.scalar kind).read cs = .ok (.term term) := by
  rw [FieldKind.read, h]

theorem FieldKind.read_atom {schema : Schema} {cs : List Char} {atom : Atom}
    (hp : isPlainValue cs = false) (h : schema.read schema.predicate cs = .ok atom) :
    (FieldKind.atom schema).read cs = .ok (.atom atom) := by
  rw [FieldKind.read, hp, if_neg Bool.false_ne_true, h]
  rfl

theorem FieldKind.read_scalar_eq_ok {kind : ScalarKind} {cs : List Char} {value : FieldValue}
    (h : (FieldKind.scalar kind).read cs = .ok value) :
    ∃ term, kind.read? cs = some term ∧ value = .term term := by
  rw [FieldKind.read] at h
  cases hr : kind.read? cs with
  | none => rw [hr] at h; exact absurd h (by simp)
  | some term =>
      rw [hr] at h
      injection h with h
      exact ⟨term, rfl, h.symm⟩

theorem FieldKind.read_atom_eq_ok {schema : Schema} {cs : List Char} {value : FieldValue}
    (h : (FieldKind.atom schema).read cs = .ok value) :
    ∃ atom, schema.read schema.predicate cs = .ok atom ∧ value = .atom atom := by
  rw [FieldKind.read] at h
  split at h
  · exact absurd h (by simp)
  · obtain ⟨atom, hread, he⟩ := Except.bind_eq_ok.mp h
    injection he with he
    exact ⟨atom, hread, he.symm⟩

/-- **A field accepts whatever was read for it.** So checking the values once more, when the atom
is built from them, finds nothing. -/
theorem FieldKind.accepts_of_read {kind : FieldKind} {cs : List Char} {value : FieldValue}
    (h : kind.read cs = .ok value) : kind.accepts value = true := by
  cases kind with
  | scalar kind =>
      obtain ⟨term, hr, rfl⟩ := FieldKind.read_scalar_eq_ok h
      have hs := ScalarKind.read?_kind hr
      cases term <;> simp_all [FieldKind.accepts, Term.scalarKind?]
  | any =>
      rw [FieldKind.read] at h
      injection h with h
      rw [← h]
      cases readAny cs <;> rfl
  | atom schema =>
      obtain ⟨atom, hread, rfl⟩ := FieldKind.read_atom_eq_ok h
      simp [FieldKind.accepts, Atom.predicate, schema_of_read hread]
  | constant value =>
      rw [FieldKind.read] at h
      exact absurd h (by simp)

/-! ## Fields from left to right -/

theorem FieldKind.exists_of_isConstant {kind : FieldKind} (h : kind.isConstant = true) :
    ∃ value, kind = .constant value := by
  cases kind with
  | constant value => exact ⟨value, rfl⟩
  | scalar kind => exact absurd h (by simp [isConstant])
  | any => exact absurd h (by simp [isConstant])
  | atom schema => exact absurd h (by simp [isConstant])

/-- What holds of no fields, and of more fields with a constant or with a written field in front,
holds of all fields. -/
@[elab_as_elim]
theorem fields_induction {motive : List Field → Prop} (nil : motive [])
    (constant : ∀ name value fields, motive fields → motive (⟨name, .constant value⟩ :: fields))
    (written : ∀ name kind fields, kind.isConstant = false → motive fields →
      motive (⟨name, kind⟩ :: fields)) (fields : List Field) : motive fields := by
  induction fields with
  | nil => exact nil
  | cons field fields ih =>
      obtain ⟨name, kind⟩ := field
      cases hk : kind.isConstant with
      | true =>
          obtain ⟨value, rfl⟩ := FieldKind.exists_of_isConstant hk
          exact constant name value fields ih
      | false => exact written name kind fields hk ih

section Fields

variable {predicate name : String} {kind : FieldKind} {fields : List Field}

theorem readFields_constant (value : Term) (found : List (List Char)) :
    readFields predicate (⟨name, .constant value⟩ :: fields) found
      = readFields predicate fields found := by
  cases found <;> rfl

theorem readFields_cons (hk : kind.isConstant = false) (cs : List Char)
    (found : List (List Char)) :
    readFields predicate (⟨name, kind⟩ :: fields) (cs :: found)
      = ((kind.read cs).mapError (.inField name predicate)).bind fun value =>
          (readFields predicate fields found).bind fun values => .ok (value :: values) := by
  cases kind with
  | constant value => exact absurd hk (by simp [FieldKind.isConstant])
  | scalar kind => rfl
  | any => rfl
  | atom schema => rfl

theorem dealValues_constant (value : Term) (values : List FieldValue) :
    dealValues predicate (⟨name, .constant value⟩ :: fields) values
      = (dealValues predicate fields values).bind fun dealt => .ok (.term value :: dealt) := by
  cases values <;> rfl

theorem dealValues_cons (hk : kind.isConstant = false) (value : FieldValue)
    (values : List FieldValue) :
    dealValues predicate (⟨name, kind⟩ :: fields) (value :: values)
      = (Field.check predicate ⟨name, kind⟩ value).bind fun _ =>
          (dealValues predicate fields values).bind fun dealt => .ok (value :: dealt) := by
  cases kind with
  | constant term => exact absurd hk (by simp [FieldKind.isConstant])
  | scalar kind => rfl
  | any => rfl
  | atom schema => rfl

/-- Constants aside, each argument is read by its own field. -/
theorem readFields_cons_eq_ok_iff (hk : kind.isConstant = false) {cs : List Char}
    {found : List (List Char)} {values : List FieldValue} :
    readFields predicate (⟨name, kind⟩ :: fields) (cs :: found) = .ok values ↔
      ∃ value rest, kind.read cs = .ok value ∧ readFields predicate fields found = .ok rest
        ∧ values = value :: rest := by
  rw [readFields_cons hk]
  simp only [Except.bind_eq_ok, Except.mapError_eq_ok, Except.ok.injEq]
  constructor
  · rintro ⟨value, hv, rest, hr, rfl⟩
    exact ⟨value, rest, hv, hr, rfl⟩
  · rintro ⟨value, rest, hv, hr, rfl⟩
    exact ⟨value, hv, rest, hr, rfl⟩

/-- A field takes a value that it accepts. -/
theorem Field.check_eq_ok_iff {field : Field} {value : FieldValue} {u : Unit} :
    field.check predicate value = .ok u ↔ field.kind.accepts value = true := by
  unfold Field.check
  split
  · rename_i h
    simp [h]
  · rename_i h
    simp [h]

theorem dealValues_constant_eq_ok_iff {value : Term} {values dealt : List FieldValue} :
    dealValues predicate (⟨name, .constant value⟩ :: fields) values = .ok dealt ↔
      ∃ rest, dealValues predicate fields values = .ok rest ∧ dealt = .term value :: rest := by
  rw [dealValues_constant, Except.bind_eq_ok]
  simp only [Except.ok.injEq, eq_comm]

theorem dealValues_cons_eq_ok_iff (hk : kind.isConstant = false) {value : FieldValue}
    {values dealt : List FieldValue} :
    dealValues predicate (⟨name, kind⟩ :: fields) (value :: values) = .ok dealt ↔
      kind.accepts value = true ∧ ∃ rest, dealValues predicate fields values = .ok rest
        ∧ dealt = value :: rest := by
  rw [dealValues_cons hk]
  simp only [Except.bind_eq_ok, Except.ok.injEq, Field.check_eq_ok_iff]
  constructor
  · rintro ⟨_, ha, rest, hr, rfl⟩
    exact ⟨ha, rest, hr, rfl⟩
  · rintro ⟨ha, rest, hr, rfl⟩
    exact ⟨(), ha, rest, hr, rfl⟩

theorem arity_cons (hk : kind.isConstant = false) :
    Schema.arity ⟨predicate, ⟨name, kind⟩ :: fields⟩ = Schema.arity ⟨predicate, fields⟩ + 1 := by
  simp [Schema.arity, Field.isConstant, hk]

theorem readFields_nil (hk : kind.isConstant = false) :
    readFields predicate (⟨name, kind⟩ :: fields) [] = .ok [] := by
  cases kind with
  | constant value => exact absurd hk (by simp [FieldKind.isConstant])
  | scalar kind => rfl
  | any => rfl
  | atom schema => rfl

/-! ## The second check -/

/-- The values of the written fields, with the constants in their places. -/
def withConstants : List Field → List FieldValue → List FieldValue
  | [], _ => []
  | ⟨_, .constant value⟩ :: fields, values => .term value :: withConstants fields values
  | _ :: _, [] => []
  | _ :: fields, value :: values => value :: withConstants fields values

theorem withConstants_constant (value : Term) (values : List FieldValue) :
    withConstants (⟨name, .constant value⟩ :: fields) values
      = .term value :: withConstants fields values := by
  cases values <;> rfl

theorem withConstants_cons (hk : kind.isConstant = false) (value : FieldValue)
    (values : List FieldValue) :
    withConstants (⟨name, kind⟩ :: fields) (value :: values)
      = value :: withConstants fields values := by
  cases kind with
  | constant value => exact absurd hk (by simp [FieldKind.isConstant])
  | scalar kind => rfl
  | any => rfl
  | atom schema => rfl

theorem filter_constant (name : String) (constant : Term) (fields : List Field) :
    (⟨name, .constant constant⟩ :: fields).filter (!·.isConstant)
      = fields.filter (!·.isConstant) :=
  List.filter_cons_of_neg (by simp [Field.isConstant, FieldKind.isConstant])

theorem filter_written (name : String) {kind : FieldKind} (hk : kind.isConstant = false)
    (fields : List Field) : (⟨name, kind⟩ :: fields).filter (!·.isConstant)
      = ⟨name, kind⟩ :: fields.filter (!·.isConstant) :=
  List.filter_cons_of_pos (by simp [Field.isConstant, hk])

/-- Reading a row of fields is going through the fields with their arguments. -/
theorem readFields_eq_mapM (predicate : String) (fields : List Field) (found : List (List Char)) :
    readFields predicate fields found
      = ((fields.filter (!·.isConstant)).zip found).mapM fun reading =>
          (reading.1.kind.read reading.2).mapError (.inField reading.1.name predicate) := by
  induction fields using fields_induction generalizing found with
  | nil => rfl
  | constant name value fields ih => rw [readFields_constant, filter_constant, ih]
  | written name kind fields hk ih =>
      rw [filter_written name hk]
      cases found with
      | nil => rw [readFields_nil hk, List.zip_nil_right, List.mapM_nil]; rfl
      | cons cs found =>
          rw [readFields_cons hk, List.zip_cons_cons, List.mapM_cons, ih]
          rfl

/-- There is a value for each argument, and dealing the values out puts the constants back. -/
theorem dealValues_of_readFields {found : List (List Char)} {values : List FieldValue}
    (hl : found.length = Schema.arity ⟨predicate, fields⟩)
    (h : readFields predicate fields found = .ok values) :
    values.length = Schema.arity ⟨predicate, fields⟩
      ∧ dealValues predicate fields values = .ok (withConstants fields values) := by
  induction fields using fields_induction generalizing found values with
  | nil =>
      injection h with h
      rw [← h]
      exact ⟨rfl, rfl⟩
  | constant name value fields ih =>
      rw [readFields_constant] at h
      obtain ⟨hlen, hdeal⟩ := ih hl h
      refine ⟨hlen, ?_⟩
      rw [withConstants_constant]
      exact dealValues_constant_eq_ok_iff.mpr ⟨_, hdeal, rfl⟩
  | written name kind fields hk ih =>
      rw [arity_cons hk] at hl ⊢
      cases found with
      | nil => exact absurd hl (by simp)
      | cons cs found =>
          obtain ⟨value, rest, hvalue, hrest, rfl⟩ := (readFields_cons_eq_ok_iff hk).mp h
          obtain ⟨hlen, hdeal⟩ := ih (Nat.succ_inj.mp hl) hrest
          refine ⟨by rw [List.length_cons, hlen], ?_⟩
          rw [withConstants_cons hk]
          exact (dealValues_cons_eq_ok_iff hk).mpr
            ⟨FieldKind.accepts_of_read hvalue, _, hdeal, rfl⟩

end Fields

/-- **A text decodes just when its arguments read**, and the atom holds what was read. -/
theorem Schema.read_eq_ok_iff_readFields {schema : Schema} {predicate : String} {cs : List Char}
    {atom : Atom} : schema.read predicate cs = .ok atom ↔
      isAtomOf predicate.toList cs = true
        ∧ (arguments predicate.toList cs).length = schema.arity
        ∧ ∃ values, readFields schema.predicate schema.fields (arguments predicate.toList cs)
            = .ok values ∧ atom = ⟨schema, withConstants schema.fields values⟩ := by
  rw [Schema.read_eq_ok_iff]
  constructor
  · rintro ⟨ha, hl, values, hread, hof⟩
    obtain ⟨hlen, dealt, hdeal, rfl⟩ := Atom.ofValues_eq_ok_iff.mp hof
    rw [(dealValues_of_readFields hl hread).2] at hdeal
    injection hdeal with hdeal
    exact ⟨ha, hl, values, hread, by rw [hdeal]⟩
  · rintro ⟨ha, hl, values, hread, rfl⟩
    obtain ⟨hlen, hdeal⟩ := dealValues_of_readFields hl hread
    exact ⟨ha, hl, values, hread, Atom.ofValues_eq_ok_iff.mpr ⟨hlen, _, hdeal, rfl⟩⟩

end AnswerSet
