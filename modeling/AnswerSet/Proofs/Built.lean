import Mathlib
import AnswerSet.Schema
import AnswerSet.Proofs.Scanning

/-!
# Schemas that were built

Every schema that a program can hold went through `Schema.build`, and so did the
schemas of its nested fields. What the rest of the development needs of that is
mostly the shape of predicates: they are names, so they have no blank at either
end, and no quote, parenthesis, comma or line feed anywhere.
-/

namespace AnswerSet

/-- The schema and all schemas nested in it were accepted when they were built. -/
inductive Schema.Built : Schema → Prop
  | intro {predicate : String} {fields : List Field} {schema : Schema} :
      Schema.build predicate fields = .ok schema →
      (∀ field ∈ fields, ∀ inner, field.kind = .atom inner → Built inner) →
      Built schema

/-- Acceptance changes nothing and means that the predicate is a name. -/
theorem Schema.build_eq_ok {predicate : String} {fields : List Field} {schema : Schema}
    (h : Schema.build predicate fields = .ok schema) :
    schema = ⟨predicate, fields⟩ ∧ isPredicateName predicate = true
      ∧ Schema.checkFields predicate [] fields = .ok () := by
  unfold Schema.build at h
  split at h
  · rename_i hname
    cases hc : Schema.checkFields predicate [] fields with
    | error e => rw [hc] at h; exact absurd h (by simp [bind, Except.bind])
    | ok u =>
        rw [hc] at h
        injection h with h
        exact ⟨h.symm, hname, rfl⟩
  · exact absurd h (by simp [throw, throwThe, MonadExceptOf.throw])

theorem Schema.Built.name {schema : Schema} (h : schema.Built) :
    isPredicateName schema.predicate = true := by
  cases h with
  | intro hb _ =>
      obtain ⟨rfl, hname, _⟩ := Schema.build_eq_ok hb
      exact hname

/-- The schema of a nested field was built as well. -/
theorem Schema.Built.inner {schema inner : Schema} (h : schema.Built) {field : Field}
    (hf : field ∈ schema.fields) (hk : field.kind = .atom inner) : inner.Built := by
  cases h with
  | intro hb hnested =>
      obtain ⟨rfl, _, _⟩ := Schema.build_eq_ok hb
      exact hnested field hf inner hk

/-! ## The names of the fields -/

/-- Accepted names differ from one another and from all that were seen before. -/
theorem Schema.names_of_checkFields {predicate : String} {seen : List String} {fields : List Field}
    (h : Schema.checkFields predicate seen fields = .ok ()) :
    (fields.map (·.name)).Nodup ∧ ∀ field ∈ fields, field.name ∉ seen := by
  induction fields generalizing seen with
  | nil => simp
  | cons field fields ih =>
      rw [Schema.checkFields] at h
      split at h
      · exact absurd h (by simp)
      split at h
      · exact absurd h (by simp)
      rename_i hseen
      obtain ⟨hnodup, hlater⟩ := ih h
      have hfresh : ∀ f ∈ fields, f.name ∉ seen ∧ f.name ≠ field.name := by
        intro f hf
        simpa [not_or] using hlater f hf
      refine ⟨?_, ?_⟩
      · rw [List.map_cons, List.nodup_cons]
        refine ⟨fun hm => ?_, hnodup⟩
        obtain ⟨f, hf, he⟩ := List.mem_map.mp hm
        exact (hfresh f hf).2 he
      · intro f hf
        rcases List.mem_cons.mp hf with rfl | hf
        · simpa using hseen
        · exact (hfresh f hf).1

theorem Schema.Built.names_nodup {schema : Schema} (h : schema.Built) :
    (schema.fields.map (·.name)).Nodup := by
  cases h with
  | intro hb _ =>
      obtain ⟨rfl, _, hc⟩ := Schema.build_eq_ok hb
      exact (Schema.names_of_checkFields hc).1

/-- A name leads to no other field than its own. -/
theorem Schema.Built.eq_of_name_eq {schema : Schema} (h : schema.Built) {i j : Nat}
    {hi : i < schema.fields.length} {hj : j < schema.fields.length}
    (he : schema.fields[i].name = schema.fields[j].name) : i = j := by
  have hi' : i < (schema.fields.map (·.name)).length := by rwa [List.length_map]
  have hj' : j < (schema.fields.map (·.name)).length := by rwa [List.length_map]
  have hnames : (schema.fields.map (·.name))[i] = (schema.fields.map (·.name))[j] := by
    rw [List.getElem_map, List.getElem_map]
    exact he
  exact h.names_nodup.getElem_inj_iff.mp hnames

/-! ## Checking a whole schema -/

mutual

/-- Check a schema and all schemas nested in it. -/
def Schema.isBuilt : Schema → Bool
  | ⟨predicate, fields⟩ => (Schema.build predicate fields).isOk && innerBuilt fields

/-- Check the schemas of the fields. -/
def innerBuilt : List Field → Bool
  | [] => true
  | ⟨_, kind⟩ :: fields => kind.isBuilt && innerBuilt fields

/-- Check the schema of a kind, if it has one. -/
def FieldKind.isBuilt : FieldKind → Bool
  | .atom schema => schema.isBuilt
  | _ => true

end

theorem Schema.build_of_isOk {predicate : String} {fields : List Field}
    (h : (Schema.build predicate fields).isOk = true) :
    Schema.build predicate fields = .ok ⟨predicate, fields⟩ := by
  cases hb : Schema.build predicate fields with
  | error e => rw [hb] at h; exact absurd h (by simp [Except.isOk, Except.toBool])
  | ok schema => rw [(Schema.build_eq_ok hb).1]

mutual

theorem Schema.built_of_isBuilt : ∀ schema : Schema, schema.isBuilt = true → schema.Built
  | ⟨predicate, fields⟩, h => by
      rw [Schema.isBuilt, Bool.and_eq_true] at h
      exact .intro (Schema.build_of_isOk h.1) (inner_built_of_innerBuilt fields h.2)

theorem inner_built_of_innerBuilt : ∀ fields : List Field, innerBuilt fields = true →
    ∀ field ∈ fields, ∀ inner, field.kind = .atom inner → inner.Built
  | [], _ => by simp
  | ⟨name, kind⟩ :: fields, h => by
      rw [innerBuilt, Bool.and_eq_true] at h
      intro field hf inner hi
      rcases List.mem_cons.mp hf with rfl | hf
      · exact FieldKind.built_of_isBuilt kind h.1 inner hi
      · exact inner_built_of_innerBuilt fields h.2 field hf inner hi

theorem FieldKind.built_of_isBuilt : ∀ kind : FieldKind, kind.isBuilt = true →
    ∀ inner, kind = .atom inner → inner.Built
  | .atom schema, h => by
      rintro inner ⟨⟩
      exact Schema.built_of_isBuilt schema (by rwa [FieldKind.isBuilt] at h)
  | .scalar _, _ => by simp
  | .any, _ => by simp
  | .constant _, _ => by simp

end

theorem innerBuilt_of_forall {fields : List Field}
    (h : ∀ field ∈ fields, ∀ inner, field.kind = .atom inner → inner.isBuilt = true) :
    innerBuilt fields = true := by
  induction fields with
  | nil => rfl
  | cons field fields ih =>
      obtain ⟨name, kind⟩ := field
      rw [innerBuilt, Bool.and_eq_true]
      refine ⟨?_, ih fun f hf => h f (List.mem_cons_of_mem _ hf)⟩
      cases kind with
      | atom schema => exact h _ List.mem_cons_self schema rfl
      | scalar kind => rfl
      | any => rfl
      | constant value => rfl

/-- **The check finds out which schemas were built.** -/
theorem Schema.built_iff {schema : Schema} : schema.Built ↔ schema.isBuilt = true := by
  constructor
  · intro h
    -- along the construction, from nested schemas to those around them
    induction h with
    | @intro predicate fields schema hb _ ih =>
        obtain ⟨rfl, _, _⟩ := Schema.build_eq_ok hb
        rw [Schema.isBuilt, hb, innerBuilt_of_forall ih]
        rfl
  · exact Schema.built_of_isBuilt schema

instance (schema : Schema) : Decidable schema.Built := decidable_of_iff _ Schema.built_iff.symm

/-! ## The characters of a name -/

theorem ne_of_isPredicateChar {c d : Char} (h : isPredicateChar c = true)
    (hd : isPredicateChar d = false) : c ≠ d := by
  rintro rfl
  rw [h] at hd
  exact Bool.noConfusion hd

theorem isBlank_of_isPredicateChar {c : Char} (h : isPredicateChar c = true) :
    Text.isBlank c = false := by
  simp only [isPredicateChar, Char.isAlphanum, Char.isAlpha, Char.isUpper, Char.isLower,
    Char.isDigit, Bool.or_eq_true, Bool.and_eq_true, decide_eq_true_eq,
    UInt32.le_iff_toNat_le] at h
  simp only [Text.isBlank, Char.toNat]
  rcases h with (((⟨h1, h2⟩ | ⟨h1, h2⟩) | ⟨h1, h2⟩) | h) | h
  · simp; simp at h1 h2; omega
  · simp; simp at h1 h2; omega
  · simp; simp at h1 h2; omega
  · subst h; decide
  · subst h; decide

theorem neutral_of_isPredicateChar {c : Char} (h : isPredicateChar c = true) :
    Scan.Neutral c :=
  ⟨ne_of_isPredicateChar h (by decide), ne_of_isPredicateChar h (by decide),
    ne_of_isPredicateChar h (by decide)⟩

/-- A name is a lower case letter and characters of a predicate. -/
theorem exists_of_isPredicateName {name : String} (h : isPredicateName name = true) :
    ∃ c cs, name.toList = c :: cs ∧ c.isLower = true ∧ ∀ d ∈ c :: cs, isPredicateChar d = true := by
  unfold isPredicateName at h
  cases hn : name.toList with
  | nil => rw [hn] at h; exact absurd h (by simp)
  | cons c cs =>
      rw [hn] at h
      simp only [Bool.and_eq_true, List.all_eq_true] at h
      refine ⟨c, cs, rfl, h.1, fun d hd => ?_⟩
      rcases List.mem_cons.mp hd with rfl | hd
      · simp [isPredicateChar, Char.isAlphanum, Char.isAlpha, h.1]
      · exact h.2 d hd

theorem isPredicateChar_of_mem {name : String} (h : isPredicateName name = true) {c : Char}
    (hc : c ∈ name.toList) : isPredicateChar c = true := by
  obtain ⟨d, ds, hn, _, hall⟩ := exists_of_isPredicateName h
  rw [hn] at hc
  exact hall c hc

theorem not_mem_of_isPredicateName {name : String} (h : isPredicateName name = true) {c : Char}
    (hc : isPredicateChar c = false) : c ∉ name.toList :=
  fun hm => ne_of_isPredicateChar (isPredicateChar_of_mem h hm) hc rfl

end AnswerSet
