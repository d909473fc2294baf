import AnswerSet.Proofs.Cutting
import AnswerSet.Proofs.RoundTrip
import AnswerSet.Proofs.Settings

/-!
# Fresh variables are never reused

Open terms, open atoms and atoms that are built draw their variables from one
counter. Such a computation is described by two things: how far it moves the
counter on, and which variables stand in the leaves of what it makes. A leaf is a
field that holds a value of its own, at any depth: not a constant, and not an atom,
whose own fields are leaves instead.

**The variables in the leaves are the numbers that the counter passed**, in the
order of the schema (`Draws`). This holds of one leaf, of an atom by induction on
its schema, and of a whole run by induction on its calls. So no variable appears
twice in a run. Nor does another maker of unbound terms come upon one of them, since
the names of fresh variables begin as no other expression does, except for
intervals, which have dots.

The counter is a number of any size. One of 64 bits starts over after its last
number, but up to 2^64 variables in a row are different all the same
(`Variable.nodup_wordNumberedFrom`), and until it starts over they are the ones that
are told here (`Draw.allOpen_eq_wordNumberedFrom`).
-/

namespace AnswerSet

/-! ## Numbered variables -/

namespace Variable

theorem toList_numbered (n : Nat) :
    (numbered n).text.toList = 'X' :: '_' :: Nat.toDigits 10 n := by
  have htext : (numbered n).text = "X_" ++ toString n := rfl
  simp [htext]

theorem numbered_injective : Function.Injective numbered := by
  intro n m h
  have htext := congrArg (fun v : Variable => v.text.toList) h
  simp only [toList_numbered, List.cons.injEq, true_and] at htext
  -- the digits of a number read back
  have hread := congrArg Text.readNat? htext
  rw [Text.readNat?_toDigits, Text.readNat?_toDigits] at hread
  exact Option.some.inj hread

/-- So many variables, numbered one after the other. -/
def numberedFrom (n count : Nat) : List Variable := (List.range' n count).map numbered

theorem numberedFrom_append (n k m : Nat) :
    numberedFrom n k ++ numberedFrom (n + k) m = numberedFrom n (k + m) := by
  rw [numberedFrom, numberedFrom, numberedFrom, ← List.map_append, List.range'_append_1]

theorem nodup_numberedFrom (n count : Nat) : (numberedFrom n count).Nodup :=
  (List.nodup_range' 1 Nat.one_pos).map numbered_injective

/-- So many variables, numbered by a counter of 64 bits. After its last number it starts over. -/
def wordNumberedFrom (word : UInt64) : Nat → List Variable
  | 0 => []
  | count + 1 => numbered word.toNat :: wordNumberedFrom (word + 1) count

theorem wordNumberedFrom_eq_map {word : UInt64} {n : Nat} (h : word.toNat = n % 2 ^ 64)
    (count : Nat) : wordNumberedFrom word count
      = (List.range' n count).map fun k => numbered (k % 2 ^ 64) := by
  induction count generalizing word n with
  | zero => rfl
  | succ count ih =>
      have hnext : (word + 1).toNat = (n + 1) % 2 ^ 64 := by
        rw [UInt64.toNat_add, h, UInt64.toNat_one]
        omega
      rw [wordNumberedFrom, ih hnext, h, List.range'_succ, List.map_cons]

/-- **Up to 2^64 numbers of the counter in a row differ**, wherever it stands. -/
theorem nodup_wordNumberedFrom (word : UInt64) {count : Nat} (h : count ≤ 2 ^ 64) :
    (wordNumberedFrom word count).Nodup := by
  rw [wordNumberedFrom_eq_map (Nat.mod_eq_of_lt word.toNat_lt).symm]
  refine (List.nodup_range' 1 Nat.one_pos).map_on fun k hk j hj he => ?_
  have hmod := numbered_injective he
  -- two of these numbers are less than 2^64 apart
  obtain ⟨_, hk, rfl⟩ := List.mem_range'.mp hk
  obtain ⟨_, hj, rfl⟩ := List.mem_range'.mp hj
  omega

/-- As long as the counter does not start over, it counts like one of any size. -/
theorem wordNumberedFrom_eq_numberedFrom {n count : Nat} (h : n + count ≤ 2 ^ 64) :
    wordNumberedFrom (.ofNat n) count = numberedFrom n count := by
  rw [wordNumberedFrom_eq_map UInt64.toNat_ofNat', numberedFrom]
  refine List.map_congr_left fun k hk => ?_
  obtain ⟨i, hi, rfl⟩ := List.mem_range'.mp hk
  rw [Nat.mod_eq_of_lt (by omega)]

theorem mem_numberedFrom {v : Variable} {n count : Nat} (h : v ∈ numberedFrom n count) :
    ∃ k, v = numbered k := by
  obtain ⟨k, _, rfl⟩ := List.mem_map.mp h
  exact ⟨k, rfl⟩

end Variable

/-! ## Other unbound terms -/

/-- The unbound terms that are made without the counter, from any operands. -/
inductive Term.Composed : Term → Prop
  | var {name : String} {t : Term} : Term.var name = .ok t → Composed t
  | hidden : Composed Term.hidden
  | range (lo hi : Term) : Composed (Term.range lo hi)
  | abs (t : Term) : Composed t.abs
  | arithmetic (operator : ArithmeticOperator) (left right : Term) :
      Composed (Term.arithmetic operator left right)

theorem Variable.dot_not_mem_numbered (n : Nat) : '.' ∉ (numbered n).text.toList := by
  intro h
  rw [toList_numbered] at h
  have hdigit : '.' ∈ Nat.toDigits 10 n := by simpa using h
  exact absurd (Nat.isDigit_of_mem_toDigits (by decide) (by decide) hdigit) (by decide)

/-- **No other maker comes upon a numbered variable.** -/
theorem Term.Composed.ne_numbered {t : Term} (h : t.Composed) (n : Nat) :
    t ≠ .unbound (.numbered n) := by
  intro he
  have htext : t.text.toList = 'X' :: '_' :: Nat.toDigits 10 n := by
    rw [he]
    exact Variable.toList_numbered n
  cases h with
  | @var name _ hv =>
      unfold Term.var Variable.named at hv
      split at hv
      · exact absurd hv (by simp [Except.map])
      · injection hv with hv
        have hname : t.text = "VAR_" ++ name := by rw [← hv]; rfl
        simp [hname] at htext
  | hidden => exact absurd htext (by simp [Term.hidden, Term.text])
  | range lo hi =>
      refine Variable.dot_not_mem_numbered n ?_
      rw [Variable.toList_numbered, ← htext]
      simp [Term.range, Term.text]
  | abs t => simp [Term.abs, Term.text] at htext
  | arithmetic operator left right => simp [Term.arithmetic, Term.text] at htext

/-! ## Leaves -/

mutual

/-- The number of leaves of a schema, those of nested schemas included. -/
def Schema.leafCount : Schema → Nat
  | ⟨_, fields⟩ => leafCountOf fields

/-- The number of leaves in fields. -/
def leafCountOf : List Field → Nat
  | [] => 0
  | ⟨_, kind⟩ :: fields => kind.leafCount + leafCountOf fields

/-- The number of leaves in a field of the kind. -/
def FieldKind.leafCount : FieldKind → Nat
  | .atom schema => schema.leafCount
  | .constant _ => 0
  | .scalar _ => 1
  | .any => 1

end

mutual

/-- The variables that stand in the leaves of an atom, in the order of the schema. -/
def Schema.leafVariables : Schema → Atom → List Variable
  | ⟨_, fields⟩, atom => leafVariablesOf fields atom.values

/-- The variables in the leaves of fields. -/
def leafVariablesOf : List Field → List FieldValue → List Variable
  | ⟨_, kind⟩ :: fields, value :: values =>
    kind.leafVariables value ++ leafVariablesOf fields values
  | _, _ => []

/-- The variables in the leaves of one field. -/
def FieldKind.leafVariables : FieldKind → FieldValue → List Variable
  | .atom schema, .atom atom => schema.leafVariables atom
  | .scalar _, .term (.unbound v) => [v]
  | .any, .term (.unbound v) => [v]
  | _, _ => []

end

/-! ## What a computation draws -/

/-- From any number on, the computation moves the counter on by the count, and what it makes holds
the variables of just these numbers. -/
def Draws {α : Type} (x : Fresh α) (held : α → List Variable) (count : Nat) : Prop :=
  ∀ n, (x.run n).2 = n + count ∧ held (x.run n).1 = Variable.numberedFrom n count

section Draws

variable {α β γ : Type} {x : Fresh α} {y : Fresh β} {vx : α → List Variable}
  {vy : β → List Variable} {k m : Nat}

theorem draws_pure {a : α} (h : vx a = []) : Draws (pure a) vx 0 := by
  intro n
  exact ⟨rfl, h⟩

theorem Draws.map (hx : Draws x vx k) {f : α → γ} {v : γ → List Variable}
    (hv : ∀ a, v (f a) = vx a) : Draws (do return f (← x)) v k := by
  intro n
  obtain ⟨hcount, hvars⟩ := hx n
  exact ⟨hcount, (hv _).trans hvars⟩

/-- One after the other, two computations draw what the first and then what the second draws. -/
theorem Draws.seq (hx : Draws x vx k) (hy : Draws y vy m) {f : α → β → γ}
    {v : γ → List Variable} (hv : ∀ a b, v (f a b) = vx a ++ vy b) :
    Draws (do let a ← x; return f a (← y)) v (k + m) := by
  intro n
  obtain ⟨hxcount, hxvars⟩ := hx n
  -- the second one starts from where the first has left the counter
  obtain ⟨hycount, hyvars⟩ := hy (x.run n).2
  refine ⟨?_, ?_⟩
  · show (y.run (x.run n).2).2 = n + (k + m)
    rw [hycount, hxcount, Nat.add_assoc]
  · show v (f (x.run n).1 (y.run (x.run n).2).1) = _
    rw [hv, hxvars, hyvars, hxcount, Variable.numberedFrom_append]

end Draws

/-- The variable of an unbound term. -/
def Term.variable? : Term → Option Variable
  | .unbound v => some v
  | _ => none

theorem draws_fresh : Draws Term.fresh (fun t => t.variable?.toList) 1 := fun _ => ⟨rfl, rfl⟩

mutual

/-- **An open atom draws one variable for each leaf.** -/
theorem Schema.draws_any : ∀ schema : Schema,
    Draws schema.any schema.leafVariables schema.leafCount
  | ⟨predicate, fields⟩ => by
      rw [Schema.any, Schema.leafCount]
      exact (draws_openValues fields).map fun values => by rw [Schema.leafVariables]

theorem draws_openValues : ∀ fields : List Field,
    Draws (openValues fields) (leafVariablesOf fields) (leafCountOf fields)
  | [] => by
      rw [openValues, leafCountOf]
      exact draws_pure (by rw [leafVariablesOf]; simp)
  | ⟨name, kind⟩ :: fields => by
      rw [openValues, leafCountOf]
      exact (FieldKind.draws_openValue kind).seq (draws_openValues fields)
        fun value values => by rw [leafVariablesOf]

theorem FieldKind.draws_openValue : ∀ kind : FieldKind,
    Draws kind.openValue kind.leafVariables kind.leafCount
  | .atom schema => by
      rw [FieldKind.openValue, FieldKind.leafCount]
      exact (Schema.draws_any schema).map fun atom => by rw [FieldKind.leafVariables]
  | .constant value => by
      rw [FieldKind.openValue, FieldKind.leafCount]
      exact draws_pure (by simp [FieldKind.leafVariables])
  | .scalar kind => by
      rw [FieldKind.openValue, FieldKind.leafCount]
      exact draws_fresh.map fun t => by cases t <;> simp [FieldKind.leafVariables, Term.variable?]
  | .any => by
      rw [FieldKind.openValue, FieldKind.leafCount]
      exact draws_fresh.map fun t => by cases t <;> simp [FieldKind.leafVariables, Term.variable?]

end

/-! ## What a build draws -/

/-- No setting has the name of the field. -/
def Field.IsUnset (settings : List (String × FieldValue)) (field : Field) : Prop :=
  ∀ setting ∈ settings, setting.1 ≠ field.name

instance (settings : List (String × FieldValue)) (field : Field) :
    Decidable (field.IsUnset settings) :=
  inferInstanceAs (Decidable (∀ setting ∈ settings, setting.1 ≠ field.name))

namespace Field

/-- The number of leaves in the field, if it was not set. -/
def unsetCount (settings : List (String × FieldValue)) (field : Field) : Nat :=
  if field.IsUnset settings then field.kind.leafCount else 0

/-- The variables in the leaves of the field, if it was not set. -/
def unsetVariables (settings : List (String × FieldValue)) (field : Field) (value : FieldValue) :
    List Variable :=
  if field.IsUnset settings then field.kind.leafVariables value else []

end Field

section Unset

variable {settings : List (String × FieldValue)}

theorem lastValue?_eq_none_iff {field : Field} :
    lastValue? settings field.name = none ↔ field.IsUnset settings := by
  simp [lastValue?, Field.IsUnset]

/-- The value for a slot: the one that was set last, or an open one. -/
def slotValue (settings : List (String × FieldValue)) (field : Field) : Fresh FieldValue :=
  ((lastValue? settings field.name).map pure).getD field.kind.openValue

/-- A slot draws the leaves of its field unless the field was set. -/
theorem draws_slotValue (settings : List (String × FieldValue)) (field : Field) :
    Draws (slotValue settings field) (field.unsetVariables settings)
      (field.unsetCount settings) := by
  unfold slotValue Field.unsetVariables Field.unsetCount
  by_cases hunset : field.IsUnset settings
  · simp only [lastValue?_eq_none_iff.mpr hunset, if_pos hunset]
    exact FieldKind.draws_openValue field.kind
  · obtain ⟨value, hvalue⟩ := Option.ne_none_iff_exists'.mp (mt lastValue?_eq_none_iff.mp hunset)
    simp only [hvalue, if_neg hunset]
    exact draws_pure rfl

theorem fillSlots_cons (field : Field) (fields : List Field)
    (slots : List (Option FieldValue)) :
    AtomBuilder.fillSlots (field :: fields) (lastValue? settings field.name :: slots)
      = do
        let value ← slotValue settings field
        return value :: (← AtomBuilder.fillSlots fields slots) := by
  unfold slotValue
  cases lastValue? settings field.name with
  | none => rfl
  | some value => rfl

theorem draws_fillSlots (settings : List (String × FieldValue)) (fields : List Field) :
    Draws (AtomBuilder.fillSlots fields (fields.map fun field => lastValue? settings field.name))
      (fun values => (fields.zip values).flatMap fun held =>
        held.1.unsetVariables settings held.2)
      (fields.map (·.unsetCount settings)).sum := by
  induction fields with
  | nil => exact draws_pure rfl
  | cons field fields ih =>
      rw [List.map_cons, List.map_cons, List.sum_cons, fillSlots_cons]
      refine (draws_slotValue settings field).seq ih fun value values => ?_
      rw [List.zip_cons_cons, List.flatMap_cons]

end Unset

/-! ## Telling open atoms apart -/

theorem isArgument_numbered (n : Nat) : IsArgument (Variable.numbered n).text := by
  have hplain : ∀ c ∈ (Variable.numbered n).text.toList, IsPlain c := by
    intro c hc
    rw [Variable.toList_numbered, List.mem_cons, List.mem_cons] at hc
    rcases hc with rfl | rfl | hc
    · exact Or.inl (by decide)
    · exact Or.inl (by decide)
    · have hdigit := Nat.isDigit_of_mem_toDigits (by decide) (by decide) hc
      exact Or.inl (by simp [isPredicateChar, Char.isAlphanum, hdigit])
  refine isArgument_of_steady (steady_plain hplain) (trim_plain hplain) fun he => ?_
  have hlist := Variable.toList_numbered n
  rw [he] at hlist
  exact absurd hlist (by simp)

section Arguments

variable {predicate : String} {texts texts' : List String}

theorem isArgument_application (hn : isPredicateName predicate = true)
    (h : ∀ text ∈ texts, IsArgument text) : IsArgument (application ", " predicate texts) :=
  isArgument_of_steady (steady_application hn spaced_program fun text ht => (h text ht).steady)
    (trim_application hn) (application_ne_empty hn texts)

/-- Applications that are written alike have the same arguments. -/
theorem eq_of_application_eq (hn : isPredicateName predicate = true)
    (h : ∀ text ∈ texts, IsArgument text) (h' : ∀ text ∈ texts', IsArgument text)
    (he : application ", " predicate texts = application ", " predicate texts') :
    texts = texts' := by
  have hlists := arguments_of_isArgument hn spaced_program h (Or.inl rfl) Text.blank_nil
    Text.blank_nil
  rw [he, arguments_of_isArgument hn spaced_program h' (Or.inl rfl) Text.blank_nil
    Text.blank_nil] at hlists
  have hinj : Function.Injective String.toList := fun _ _ => String.toList_injective
  exact (List.map_injective_iff.mpr hinj hlists).symm

end Arguments

section OpenTexts

variable {kind : FieldKind} {fields : List Field} {n m : Nat}

theorem mem_spelledFields {P : Field → FieldValue → Prop} {values : List FieldValue}
    (h : List.Forall₂ P fields values) {comma text : String}
    (ht : text ∈ spelledFields comma fields values) :
    ∃ field value, P field value ∧ field.isConstant = false ∧ text = value.spelled comma := by
  induction h with
  | nil => exact absurd ht (by simp [spelledFields])
  | @cons field value fields values hv _ ih =>
      rw [spelledFields] at ht
      split at ht
      · exact ih ht
      · rename_i hk
        rcases List.mem_cons.mp ht with rfl | ht
        · exact ⟨field, value, hv, by simpa using hk, rfl⟩
        · exact ih ht

theorem run_openValues_cons (name : String) (kind : FieldKind) (fields : List Field) (n : Nat) :
    ((openValues (⟨name, kind⟩ :: fields)).run n).1
      = (kind.openValue.run n).1
        :: ((openValues fields).run (kind.openValue.run n).2).1 := by
  rw [openValues]
  rfl

/-- The open value of a written field is a numbered variable or an open atom. -/
theorem openValue_cases (hk : kind.isConstant = false) :
    (kind.leafCount = 1 ∧ ∀ n, (kind.openValue.run n).1 = .term (.unbound (.numbered n)))
      ∨ ∃ inner, kind = .atom inner := by
  cases kind with
  | constant value => exact absurd hk (by simp [FieldKind.isConstant])
  | atom inner => exact Or.inr ⟨inner, rfl⟩
  | scalar kind =>
      rw [FieldKind.leafCount, FieldKind.openValue]
      exact Or.inl ⟨rfl, fun n => rfl⟩
  | any =>
      rw [FieldKind.leafCount, FieldKind.openValue]
      exact Or.inl ⟨rfl, fun n => rfl⟩

theorem text_any (predicate : String) (fields : List Field) (n : Nat) :
    ((Schema.any ⟨predicate, fields⟩).run n).1.text
      = application ", " predicate (spelledFields ", " fields ((openValues fields).run n).1) := by
  rw [run_any, Atom.text, Atom.spelled]

theorem isArgument_openValue (hk : kind.isConstant = false)
    (hinner : ∀ inner, kind = .atom inner → ∀ n, IsArgument (inner.any.run n).1.text) (n : Nat) :
    IsArgument ((kind.openValue.run n).1.spelled ", ") := by
  rcases openValue_cases hk with ⟨_, hopen⟩ | ⟨inner, rfl⟩
  · rw [hopen]
    exact isArgument_numbered n
  · rw [run_openValue_atom]
    exact hinner inner rfl n

theorem isArgument_of_mem_openValues
    (hinner : ∀ field ∈ fields, ∀ inner, field.kind = .atom inner →
      ∀ n, IsArgument (inner.any.run n).1.text) {text : String}
    (ht : text ∈ spelledFields ", " fields ((openValues fields).run n).1) : IsArgument text := by
  have hvalues := forall₂_openValues
    (P := fun field value => field.isConstant = false → IsArgument (value.spelled ", "))
    (fun field hf n hk => isArgument_openValue hk (hinner field hf) n) n
  obtain ⟨field, value, hvalue, hk, rfl⟩ := mem_spelledFields hvalues ht
  exact hvalue hk

theorem Schema.Built.isArgument_any {schema : Schema} (hb : schema.Built) (n : Nat) :
    IsArgument (schema.any.run n).1.text := by
  induction hb generalizing n with
  | @intro predicate fields schema hbuild _ ih =>
      obtain ⟨rfl, hn, _⟩ := Schema.build_eq_ok hbuild
      rw [text_any]
      exact isArgument_application hn fun text ht => isArgument_of_mem_openValues ih ht

/-- Open values that are written alike were drawn from the same number, or draw nothing. -/
theorem eq_of_spelledFields_openValues
    (hinner : ∀ field ∈ fields, ∀ inner, field.kind = .atom inner → ∀ n m,
      (inner.any.run n).1.text = (inner.any.run m).1.text → inner.leafCount = 0 ∨ n = m)
    (he : spelledFields ", " fields ((openValues fields).run n).1
      = spelledFields ", " fields ((openValues fields).run m).1) :
    leafCountOf fields = 0 ∨ n = m := by
  induction fields using fields_induction generalizing n m with
  | nil => exact Or.inl (by rw [leafCountOf])
  | constant name value fields ih =>
      -- a constant is not written, and nothing is drawn for it
      rw [run_openValues_cons, run_openValues_cons, spelledFields_constant,
        spelledFields_constant, (FieldKind.draws_openValue _ n).1,
        (FieldKind.draws_openValue _ m).1] at he
      rw [leafCountOf, FieldKind.leafCount, Nat.zero_add]
      rw [FieldKind.leafCount] at he
      exact ih (fun f hf => hinner f (List.mem_cons_of_mem _ hf)) he
  | written name kind fields hk ih =>
      rw [run_openValues_cons, run_openValues_cons, spelledFields_written hk,
        spelledFields_written hk] at he
      injection he with hfirst hrest
      have hkind : kind.leafCount = 0 ∨ n = m := by
        rcases openValue_cases hk with ⟨_, hopen⟩ | ⟨inner, rfl⟩
        · rw [hopen, hopen] at hfirst
          exact Or.inr (Variable.numbered_injective (congrArg Variable.mk hfirst))
        · rw [run_openValue_atom, run_openValue_atom] at hfirst
          rw [FieldKind.leafCount]
          exact hinner _ List.mem_cons_self inner rfl n m hfirst
      rcases hkind with hzero | rfl
      · -- nothing is drawn for this field, so the rest starts from the same numbers
        rw [(FieldKind.draws_openValue _ n).1, (FieldKind.draws_openValue _ m).1, hzero] at hrest
        rw [leafCountOf, hzero, Nat.zero_add]
        exact ih (fun f hf => hinner f (List.mem_cons_of_mem _ hf)) hrest
      · exact Or.inr rfl

theorem Schema.Built.eq_of_text_any {schema : Schema} (hb : schema.Built)
    (he : (schema.any.run n).1.text = (schema.any.run m).1.text) :
    schema.leafCount = 0 ∨ n = m := by
  induction hb generalizing n m with
  | @intro predicate fields schema hbuild hnested ih =>
      obtain ⟨rfl, hn, _⟩ := Schema.build_eq_ok hbuild
      have harg : ∀ n, ∀ text ∈ spelledFields ", " fields ((openValues fields).run n).1,
          IsArgument text := fun n text ht =>
        isArgument_of_mem_openValues
          (fun field hf inner hk => (hnested field hf inner hk).isArgument_any) ht
      rw [text_any, text_any] at he
      rw [Schema.leafCount]
      exact eq_of_spelledFields_openValues (fun field hf inner hk n m => ih field hf inner hk)
        (eq_of_application_eq hn (harg n) (harg m) he)

end OpenTexts

mutual

/-- An open atom without leaves is the same whatever number it is drawn from. -/
theorem Schema.run_any_of_leafCount : ∀ (schema : Schema), schema.leafCount = 0 →
    ∀ n m, (schema.any.run n).1 = (schema.any.run m).1
  | ⟨predicate, fields⟩, h, n, m => by
      rw [Schema.leafCount] at h
      rw [run_any, run_any, run_openValues_of_leafCount fields h n m]

theorem run_openValues_of_leafCount : ∀ (fields : List Field), leafCountOf fields = 0 →
    ∀ n m, ((openValues fields).run n).1 = ((openValues fields).run m).1
  | [], _, _, _ => by
      rw [openValues]
      rfl
  | ⟨name, kind⟩ :: fields, h, n, m => by
      rw [leafCountOf, Nat.add_eq_zero_iff] at h
      rw [run_openValues_cons, run_openValues_cons, run_openValue_of_leafCount kind h.1 n m,
        run_openValues_of_leafCount fields h.2 _ _]

theorem run_openValue_of_leafCount : ∀ (kind : FieldKind), kind.leafCount = 0 →
    ∀ n m, (kind.openValue.run n).1 = (kind.openValue.run m).1
  | .atom schema, h, n, m => by
      rw [FieldKind.leafCount] at h
      rw [run_openValue_atom, run_openValue_atom, Schema.run_any_of_leafCount schema h n m]
  | .constant value, _, _, _ => by
      rw [FieldKind.openValue]
      rfl
  | .scalar kind, h, _, _ => absurd h (by simp [FieldKind.leafCount])
  | .any, h, _, _ => absurd h (by simp [FieldKind.leafCount])

end

/-- **Two open atoms of a schema are equal only if it has no leaf.** -/
theorem Schema.Built.any_beq_any_iff {schema : Schema} (hb : schema.Built) {n m : Nat}
    (hne : 0 < schema.leafCount → n ≠ m) :
    ((schema.any.run n).1 == (schema.any.run m).1) = true ↔ schema.leafCount = 0 := by
  rw [Atom.beq_iff_text]
  constructor
  · intro he
    rcases hb.eq_of_text_any he with hzero | hnumbers
    · exact hzero
    · exact Nat.eq_zero_of_not_pos fun hpos => hne hpos hnumbers
  · intro hzero
    rw [schema.run_any_of_leafCount hzero n m]

/-! ## A run of calls -/

/-- A call that may draw variables. A build is given with all its settings, which may hold variables
that were drawn before. -/
inductive Draw where
  | fresh
  | any (schema : Schema)
  | build (schema : Schema) (settings : List (String × FieldValue))

namespace Draw

/-- The outcome of a call: a term, an atom, or the mistake of a builder. -/
def run : Draw → Fresh (Except ConstructionError FieldValue)
  | .fresh => do return .ok (.term (← Term.fresh))
  | .any schema => do return .ok (.atom (← schema.any))
  | .build schema settings => do return (← (schema.atom.setAll settings).build).map .atom

/-- The schema, if there is one, was built. -/
def Built : Draw → Prop
  | .fresh => True
  | .any schema => schema.Built
  | .build schema _ => schema.Built

/-- The number of leaves that a call leaves open. Nothing is open in a builder with a mistake. -/
def openCount : Draw → Nat
  | .fresh => 1
  | .any schema => schema.leafCount
  | .build schema settings =>
    match (schema.atom.setAll settings).slots with
    | .error _ => 0
    | .ok _ => (schema.fields.map (·.unsetCount settings)).sum

/-- The variables in the leaves that a call leaves open, in the order of the schema. -/
def openVariables : Draw → Except ConstructionError FieldValue → List Variable
  | .fresh, .ok (.term t) => t.variable?.toList
  | .any schema, .ok (.atom atom) => schema.leafVariables atom
  | .build schema settings, .ok (.atom atom) =>
    (schema.fields.zip atom.values).flatMap fun held => held.1.unsetVariables settings held.2
  | _, _ => []

/-- **Every call draws what it leaves open.** -/
theorem draws_run {call : Draw} (hb : call.Built) :
    Draws call.run call.openVariables call.openCount := by
  cases call with
  | fresh => exact draws_fresh.map fun t => rfl
  | any schema => exact (Schema.draws_any schema).map fun atom => rfl
  | build schema settings =>
      intro n
      show ((schema.atom.setAll settings).build.run n).2 = _
        ∧ openVariables _ (((schema.atom.setAll settings).build.run n).1.map .atom) = _
      rcases schema.takesAll_or_refusesFirst settings with htakes | ⟨e, hrefuses⟩
      · -- settings that are all taken leave just those slots empty that no setting names
        obtain ⟨hcount, hvars⟩ := draws_fillSlots settings schema.fields n
        have hopen : (build schema settings).openCount
            = (schema.fields.map (·.unsetCount settings)).sum := by
          rw [openCount, AtomBuilder.setAll_of_takesAll hb htakes]
          rfl
        rw [AtomBuilder.setAll_of_takesAll hb htakes, AtomBuilder.run_build_ofSettings rfl, hopen]
        exact ⟨hcount, hvars⟩
      · -- after a refusal there are no slots to fill
        have hopen : (build schema settings).openCount = 0 := by
          rw [openCount, AtomBuilder.setAll_of_refusesFirst hb hrefuses]
        rw [AtomBuilder.setAll_of_refusesFirst hb hrefuses, AtomBuilder.run_build_error, hopen]
        exact ⟨rfl, rfl⟩

/-- The variables that all calls of a run leave open. -/
def allOpen (calls : List Draw) (outcomes : List (Except ConstructionError FieldValue)) :
    List Variable :=
  (calls.zip outcomes).flatMap fun made => made.1.openVariables made.2

/-- **A run draws what its calls leave open**, one call after the other. -/
theorem draws_mapM {calls : List Draw} (hb : ∀ call ∈ calls, call.Built) :
    Draws (calls.mapM run) (allOpen calls) (calls.map openCount).sum := by
  induction calls with
  | nil => exact draws_pure rfl
  | cons call calls ih =>
      obtain ⟨hfirst, hrest⟩ := List.forall_mem_cons.mp hb
      rw [List.mapM_cons, List.map_cons, List.sum_cons]
      exact (draws_run hfirst).seq (ih hrest) fun outcome outcomes => rfl

section Run

variable {calls : List Draw} {n i j : Nat}

theorem run_mapM_cons {call : Draw} (hb : call.Built) (calls : List Draw) (n : Nat) :
    (((call :: calls).mapM run).run n).1
      = (call.run.run n).1 :: ((calls.mapM run).run (n + call.openCount)).1 := by
  rw [← (draws_run hb n).1, List.mapM_cons]
  rfl

/-- Each call runs from the number that the calls before it have come to. -/
theorem getElem?_mapM (hb : ∀ call ∈ calls, call.Built) {call : Draw} (hi : calls[i]? = some call)
    (n : Nat) : ((calls.mapM run).run n).1[i]?
      = some (call.run.run (n + ((calls.take i).map openCount).sum)).1 := by
  induction calls generalizing i n with
  | nil => exact absurd hi (by simp)
  | cons first calls ih =>
      obtain ⟨hfirst, hrest⟩ := List.forall_mem_cons.mp hb
      rw [run_mapM_cons hfirst]
      cases i with
      | zero =>
          injection hi with hi
          subst hi
          rfl
      | succ i =>
          rw [List.getElem?_cons_succ, ih hrest hi, List.take_succ_cons, List.map_cons,
            List.sum_cons, Nat.add_assoc]

/-- A later call runs from a number beyond all that an earlier call has drawn. -/
theorem sum_take_le {call : Draw} (hi : calls[i]? = some call) (hij : i < j) :
    ((calls.take i).map openCount).sum + call.openCount
      ≤ ((calls.take j).map openCount).sum := by
  have htake : calls.take (i + 1) = calls.take i ++ [call] := by rw [List.take_add_one, hi]; rfl
  have hsub : ((calls.take (i + 1)).map openCount).Sublist ((calls.take j).map openCount) :=
    (List.take_prefix_take_left hij).sublist.map openCount
  have hle := hsub.sum_le_sum fun _ _ => Nat.zero_le _
  rw [htake, List.map_append, List.sum_append] at hle
  simpa using hle

theorem forall₂_openCount (hb : ∀ call ∈ calls, call.Built) (n : Nat) :
    List.Forall₂ (fun call outcome => (openVariables call outcome).length = call.openCount)
      calls ((calls.mapM run).run n).1 := by
  induction calls generalizing n with
  | nil => exact .nil
  | cons call calls ih =>
      obtain ⟨hfirst, hrest⟩ := List.forall_mem_cons.mp hb
      rw [run_mapM_cons hfirst]
      refine .cons ?_ (ih hrest _)
      rw [(draws_run hfirst n).2, Variable.numberedFrom, List.length_map, List.length_range']

/-- A counter of 64 bits draws the same variables in a run, if it does not start over. -/
theorem allOpen_eq_wordNumberedFrom (hb : ∀ call ∈ calls, call.Built) {m : Nat}
    {outcomes : List (Except ConstructionError FieldValue)}
    (h : (calls.mapM run).run n = (outcomes, m)) (hm : m ≤ 2 ^ 64) :
    allOpen calls outcomes = Variable.wordNumberedFrom (.ofNat n) (m - n) := by
  obtain ⟨hcount, hvars⟩ := draws_mapM hb n
  simp only [h] at hcount hvars
  have hdrawn : m - n = (calls.map openCount).sum := by omega
  rw [hvars, hdrawn, Variable.wordNumberedFrom_eq_numberedFrom (by omega)]

/--
**Fresh variables are never reused and never captured**, in any run of calls for
built schemas.

The run moves the counter on by the number of leaves that its calls leave open,
which is one for a fresh term, all leaves of the schema for an open atom, the leaves
of the fields that were not set for a build, and none for a builder with a mistake.
Each call draws so many variables, and read off the leaves, call by call and in the
order of the schemas, they are those of the numbers that the counter passed. All of
them differ, and no term that is composed by other means is one of them. Two open
atoms of one schema are equal if and only if the schema has no leaf.
-/
theorem fresh_of_run (hb : ∀ call ∈ calls, call.Built) {m : Nat}
    {outcomes : List (Except ConstructionError FieldValue)}
    (h : (calls.mapM run).run n = (outcomes, m)) :
    m = n + (calls.map openCount).sum
    ∧ List.Forall₂ (fun call outcome => (openVariables call outcome).length = call.openCount)
        calls outcomes
    ∧ allOpen calls outcomes = Variable.numberedFrom n (m - n)
    ∧ (allOpen calls outcomes).Nodup
    ∧ (∀ v ∈ allOpen calls outcomes, ∀ t : Term, t.Composed → t ≠ .unbound v)
    ∧ ∀ (i j : Nat) (schema : Schema), i < j → calls[i]? = some (.any schema) →
        calls[j]? = some (.any schema) →
        ∃ a b : Atom, outcomes[i]? = some (.ok (.atom a)) ∧ outcomes[j]? = some (.ok (.atom b))
          ∧ ((a == b) = true ↔ schema.leafCount = 0) := by
  obtain ⟨hcount, hvars⟩ := draws_mapM hb n
  have hlengths := forall₂_openCount hb n
  have hget := fun {i : Nat} {call : Draw} (hi : calls[i]? = some call) => getElem?_mapM hb hi n
  rw [h] at hcount hvars hlengths
  simp only [h] at hcount hvars hlengths hget
  have hdrawn : m - n = (calls.map openCount).sum := by omega
  refine ⟨hcount, hlengths, by rw [hvars, hdrawn], ?_, ?_, ?_⟩
  · rw [hvars]
    exact Variable.nodup_numberedFrom n _
  · intro v hv t ht
    rw [hvars] at hv
    obtain ⟨k, rfl⟩ := Variable.mem_numberedFrom hv
    exact ht.ne_numbered k
  · intro i j schema hij hi hj
    refine ⟨_, _, hget hi, hget hj, ?_⟩
    have hbuilt : schema.Built := hb _ (List.mem_of_getElem? hi)
    -- the second atom is drawn from beyond the leaves of the first
    have hle := sum_take_le hi hij
    have hopen : (any schema).openCount = schema.leafCount := rfl
    refine hbuilt.any_beq_any_iff fun hpos => ?_
    omega

end Run

end Draw

/-- Two open tickets, and between them a variable that a built ticket is given, and a mistake. -/
def ticketDraws : List Draw :=
  [.any ticketSchema, .fresh, .build ticketSchema [("open", .term (.unbound (.numbered 3)))],
    .build ticketSchema [("unit", .term (.int 8))], .any ticketSchema]

/-- From the start, these calls draw nine variables, and the two open tickets differ. -/
theorem Draw.fresh_of_run_tickets :
    (∀ call ∈ ticketDraws, call.Built)
      ∧ ∃ outcomes, (ticketDraws.mapM Draw.run).run 0 = (outcomes, 9)
        ∧ Draw.allOpen ticketDraws outcomes = Variable.numberedFrom 0 9
        ∧ ∃ a b : Atom, outcomes[0]? = some (.ok (.atom a)) ∧ outcomes[4]? = some (.ok (.atom b))
          ∧ (a == b) = false := by
  have hb : ∀ call ∈ ticketDraws, call.Built := by
    have hticket : ticketSchema.Built := by decide
    simp [ticketDraws, Draw.Built, hticket]
  obtain ⟨⟨outcomes, m⟩, hrun⟩ : ∃ made, (ticketDraws.mapM Draw.run).run 0 = made := ⟨_, rfl⟩
  obtain ⟨hcount, -, hvars, -, -, hdiffer⟩ := Draw.fresh_of_run hb hrun
  have hnine : m = 9 := by
    rw [hcount]
    decide
  subst hnine
  obtain ⟨a, b, ha, hb', hequal⟩ := hdiffer 0 4 ticketSchema (by decide) rfl rfl
  have hleaves : ticketSchema.leafCount ≠ 0 := by decide
  exact ⟨hb, outcomes, hrun, hvars, a, b, ha, hb', Bool.eq_false_iff.mpr (mt hequal.mp hleaves)⟩

end AnswerSet
