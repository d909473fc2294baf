import AnswerSet.Proofs.Cutting
import AnswerSet.Proofs.RoundTrip
import AnswerSet.Proofs.Settings

/-!
# What text the decoder lets through

The decoder takes an argument for a string if it starts with a quote and ends with
another one. It does not ask whether the first quote is closed by the last, so the
argument may hold a quote that ends the literal early, and behind it anything,
parentheses and an open string included.

**This is the only way out of step.** Integers and truth values have neither quotes
nor parentheses in them. If each argument that is read as a string is one complete
literal, then every argument keeps every depth, so does what is made of them by
commas and a pair of parentheses, and the text is balanced
(`Schema.NoWildcard.keeps_of_read`, by induction on the schema). And it is always a
way out: whatever schema has a field for strings, at any depth, some text is decoded
by it in which a string is two literals in a row (`Schema.Built.exists_loose`). So
the decoder accepts lexical text only for just the schemas without strings.
-/

namespace AnswerSet

open Scan

/-! ## The strings of a text -/

namespace Schema

/-- The written fields with the arguments that they are read from. -/
def readings (schema : Schema) (cs : List Char) : List (Field × List Char) :=
  schema.written.zip (arguments schema.predicate.toList cs)

/-- The text of an argument that is read as a string, by a field of the schema or of a schema that
is nested in it. -/
inductive ReadsString : Schema → List Char → List Char → Prop
  | here {schema : Schema} {cs raw : List Char} {field : Field} :
      (field, raw) ∈ schema.readings cs → field.kind = .scalar .string → ReadsString schema cs raw
  | nested {schema inner : Schema} {cs argument raw : List Char} {field : Field} :
      (field, argument) ∈ schema.readings cs → field.kind = .atom inner →
      ReadsString inner argument raw → ReadsString schema cs raw

/-- Some field is for strings, at any depth. -/
inductive HasString : Schema → Prop
  | here {schema : Schema} {field : Field} :
      field ∈ schema.fields → field.kind = .scalar .string → HasString schema
  | nested {schema inner : Schema} {field : Field} :
      field ∈ schema.fields → field.kind = .atom inner → HasString inner → HasString schema

/-- No field is a wildcard, at any depth. -/
inductive NoWildcard : Schema → Prop
  | intro {schema : Schema} : (∀ field ∈ schema.fields, field.kind ≠ .any) →
      (∀ field ∈ schema.fields, ∀ inner, field.kind = .atom inner → NoWildcard inner) →
      NoWildcard schema

/-- The trimmed text without its full stop has complete literals and matched parentheses, and what
is read as a string is one literal. -/
structure Lexical (schema : Schema) (cs : List Char) : Prop where
  balanced : Balanced (dropStop (Text.trim cs))
  literals : ∀ raw, schema.ReadsString cs raw → IsLiteral raw

end Schema

/-- The text starts with a quote and ends with another one. -/
def IsQuoted (cs : List Char) : Prop := ∃ body, cs = '"' :: (body ++ ['"'])

section Readings

variable {schema : Schema} {cs raw : List Char} {field : Field}

theorem Schema.mem_fields_of_readings (h : (field, raw) ∈ schema.readings cs) :
    field ∈ schema.fields ∧ field.isConstant = false :=
  Schema.mem_written.mp (List.of_mem_zip h).1

/-- A string is read by a written field of the schema, or from the argument of one for atoms. -/
theorem Schema.readsString_iff : schema.ReadsString cs raw ↔
    (∃ reading ∈ schema.readings cs, reading.1.kind = .scalar .string ∧ raw = reading.2)
      ∨ ∃ reading ∈ schema.readings cs, ∃ inner, reading.1.kind = .atom inner
        ∧ inner.ReadsString reading.2 raw := by
  constructor
  · intro h
    cases h with
    | here hm hk => exact Or.inl ⟨_, hm, hk, rfl⟩
    | nested hm hk hinner => exact Or.inr ⟨_, hm, _, hk, hinner⟩
  · rintro (⟨⟨field, argument⟩, hm, hk, rfl⟩ | ⟨⟨field, argument⟩, hm, inner, hk, hinner⟩)
    · exact .here hm hk
    · exact .nested hm hk hinner

theorem Schema.ReadsString.hasString (h : schema.ReadsString cs raw) : schema.HasString := by
  induction h with
  | here hm hk => exact .here (Schema.mem_fields_of_readings hm).1 hk
  | nested hm hk _ ih => exact .nested (Schema.mem_fields_of_readings hm).1 hk ih

/-- In a text that was read, every argument has its field, and every field has read its argument. -/
theorem Schema.readings_of_read {atom : Atom}
    (h : schema.read schema.predicate cs = .ok atom) :
    (∀ raw ∈ arguments schema.predicate.toList cs, ∃ field, (field, raw) ∈ schema.readings cs)
      ∧ ∀ field raw, (field, raw) ∈ schema.readings cs →
        ∃ value, field.kind.read raw = .ok value := by
  obtain ⟨_, hlen, values, hread, _⟩ := Schema.read_eq_ok_iff.mp h
  rw [readFields_eq_mapM] at hread
  constructor
  · intro raw hraw
    rw [← List.map_snd_zip (Nat.le_of_eq hlen)] at hraw
    obtain ⟨⟨field, _⟩, hm, rfl⟩ := List.mem_map.mp hraw
    exact ⟨field, hm⟩
  · intro field raw hm
    obtain ⟨value, hvalue⟩ := mapM_ok_iff.mp ⟨values, hread⟩ _ hm
    exact ⟨value, Except.mapError_eq_ok.mp hvalue⟩

end Readings

/-! ## Scalars -/

theorem neutral_of_readNat? {cs : List Char} {n : Nat} (h : Text.readNat? cs = some n) :
    ∀ c ∈ cs, Neutral c := by
  unfold Text.readNat? at h
  split at h
  · rename_i hdigits
    intro c hc
    have hdigit : c.isDigit = true := by
      simp only [Bool.and_eq_true, List.all_eq_true] at hdigits
      exact hdigits.2 c hc
    exact neutral_of_isPredicateChar (isPredicateChar_of_digit hdigit)
  · exact absurd h (by simp)

/-- A decimal has neither quotes nor parentheses in it. -/
theorem neutral_of_readWord? {cs : List Char} {n : Int64} (h : Text.readWord? cs = some n) :
    ∀ c ∈ cs, Neutral c := by
  obtain ⟨m, hm, -⟩ := Option.bind_eq_some_iff.mp h
  unfold Text.readInt? at hm
  split at hm
  · obtain ⟨_, hbind, -⟩ := Option.map_eq_some_iff.mp hm
    obtain ⟨k, hk, -⟩ := Option.bind_eq_some_iff.mp hbind
    exact List.forall_mem_cons.mpr ⟨⟨by decide, by decide, by decide⟩, neutral_of_readNat? hk⟩
  · obtain ⟨k, hk, -⟩ := Option.map_eq_some_iff.mp hm
    exact List.forall_mem_cons.mpr ⟨⟨by decide, by decide, by decide⟩, neutral_of_readNat? hk⟩
  · obtain ⟨k, hk, -⟩ := Option.map_eq_some_iff.mp hm
    exact neutral_of_readNat? hk

theorem isQuoted_of_unquote? {cs inner : List Char} (h : Text.unquote? cs = some inner) :
    IsQuoted cs := by
  unfold Text.unquote? at h
  split at h
  · split at h
    · rename_i rest hlast
      exact ⟨rest.dropLast, congrArg ('"' :: ·) (List.dropLast_append_getLast? '"' hlast).symm⟩
    · exact absurd h (by simp)
  · exact absurd h (by simp)

/-- A plain value keeps every depth, if it is a literal whenever it is a string. -/
theorem keeps_of_read? {kind : ScalarKind} {cs : List Char} {term : Term}
    (h : kind.read? cs = some term) (hl : kind = .string → IsLiteral cs) : Keeps 0 cs := by
  cases kind with
  | integer =>
      obtain ⟨n, hn, -⟩ := Option.map_eq_some_iff.mp h
      exact keeps_of_neutral (neutral_of_readWord? hn)
  | string =>
      intro d _
      exact (hl rfl).run d
  | boolean =>
      have htrue : isPredicateName "true" = true := by decide
      have hfalse : isPredicateName "false" = true := by decide
      by_cases ht : cs = "true".toList
      · rw [ht]
        exact keeps_of_neutral (neutral_name htrue)
      · by_cases hf : cs = "false".toList
        · rw [hf]
          exact keeps_of_neutral (neutral_name hfalse)
        · rw [read?_boolean_eq_none ht hf] at h
          exact absurd h (by simp)

/-! ## From the arguments to the text -/

section Keeps

variable {predicate cs before after : List Char}

theorem keeps_surround (hb : ∀ c ∈ before, Neutral c) (ha : ∀ c ∈ after, Neutral c)
    (h : Keeps 0 cs) : Keeps 0 (before ++ cs ++ after) := by
  intro d hd
  rw [run_append, run_append, run_neutral hb, h d hd, run_neutral ha]

theorem keeps_intercalate {ps : List (List Char)} (h : ∀ p ∈ ps, Keeps 0 p) :
    Keeps 0 ([','].intercalate ps) := by
  induction ps with
  | nil => exact fun _ _ => rfl
  | cons p ps ih =>
      obtain ⟨hp, hps⟩ := List.forall_mem_cons.mp h
      cases ps with
      | nil =>
          rw [List.intercalate_singleton]
          exact hp
      | cons q qs =>
          intro d hd
          rw [List.intercalate_cons_cons, run_append, run_append, hp d hd]
          exact ih hps d hd

/-- If all arguments keep every depth, so does what they were cut from. -/
theorem keeps_argumentText (h : ∀ raw ∈ arguments predicate cs, Keeps 0 raw) :
    Keeps 0 (argumentText predicate cs) := by
  rcases arguments_cases predicate cs with ⟨hblank, _⟩ | ⟨_, hargs⟩
  · exact keeps_of_neutral (neutral_of_blank hblank)
  · rw [hargs] at h
    rw [← join_pieces (outside 0) (argumentText predicate cs)]
    refine keeps_intercalate fun p hp => ?_
    obtain ⟨before, after, hb, ha, he⟩ := Text.exists_trim p
    rw [he]
    exact keeps_surround (neutral_of_blank hb) (neutral_of_blank ha)
      (h _ (List.mem_map_of_mem hp))

/-- **If all arguments keep every depth, so does the atom.** -/
theorem keeps_of_arguments (hn : ∀ c ∈ predicate, Neutral c) (ha : isAtomOf predicate cs = true)
    (h : ∀ raw ∈ arguments predicate cs, Keeps 0 raw) : Keeps 0 cs := by
  have hinner := keeps_argumentText h
  obtain ⟨before, tail, hb, ht, hshape⟩ := argumentText_shape ha
  have hfront : ∀ c ∈ before ++ predicate, Neutral c :=
    List.forall_mem_append.mpr ⟨neutral_of_blank hb, hn⟩
  generalize argumentText predicate cs = inner at hinner hshape
  rcases hshape with rfl | rfl
  · -- one level down, and up again
    intro d _
    rw [run_append, run_neutral hfront, run_cons, step_open, run_append,
      hinner (d + 1) (Nat.zero_le _), run_cons, step_close, run_neutral ht, Nat.add_sub_cancel]
  · exact keeps_surround hfront ht hinner

theorem balanced_dropStop (h : Keeps 0 cs) : Balanced (dropStop (Text.trim cs)) := by
  have htrim := keeps_trim h
  rw [balanced_iff_keeps]
  rcases dropStop_cases (Text.trim cs) with hkeep | hdrop
  · rwa [hkeep]
  · intro d hd
    have hrun := htrim d hd
    rw [hdrop, run_append] at hrun
    exact eq_of_run_neutral (IsStop.neutral (Or.inr rfl)) hrun

end Keeps

/-! ## Accepted texts -/

section Accepted

variable {schema : Schema} {cs : List Char} {atom : Atom}

/-- **What reads without a wildcard keeps every depth**, if its strings are literals. -/
theorem Schema.NoWildcard.keeps_of_read (hw : schema.NoWildcard) (hb : schema.Built)
    (h : schema.read schema.predicate cs = .ok atom)
    (hl : ∀ raw, schema.ReadsString cs raw → IsLiteral raw) : Keeps 0 cs := by
  induction hw generalizing cs atom with
  | @intro schema hany _ ih =>
      obtain ⟨hfields, hreads⟩ := Schema.readings_of_read h
      refine keeps_of_arguments (neutral_name hb.name) (Schema.read_eq_ok_iff.mp h).1 ?_
      intro raw hraw
      -- the argument was read by a field, whose kind says what is in it
      obtain ⟨field, hm⟩ := hfields raw hraw
      obtain ⟨value, hvalue⟩ := hreads field raw hm
      obtain ⟨hf, hconst⟩ := Schema.mem_fields_of_readings hm
      cases hk : field.kind with
      | scalar kind =>
          rw [hk] at hvalue
          obtain ⟨term, hterm, -⟩ := FieldKind.read_scalar_eq_ok hvalue
          refine keeps_of_read? hterm fun hs => hl raw (.here hm ?_)
          rw [hk, hs]
      | any => exact absurd hk (hany field hf)
      | atom inner =>
          rw [hk] at hvalue
          obtain ⟨nested, hnested, -⟩ := FieldKind.read_atom_eq_ok hvalue
          exact ih field hf inner hk (hb.inner hf hk) hnested fun s hs => hl s (.nested hm hk hs)
      | constant value =>
          rw [Field.isConstant, hk] at hconst
          exact absurd hconst (by simp [FieldKind.isConstant])

/-- What is read as a string starts and ends with a quote. -/
theorem Schema.ReadsString.isQuoted {raw : List Char} (hs : schema.ReadsString cs raw)
    (h : schema.read schema.predicate cs = .ok atom) : IsQuoted raw := by
  induction hs generalizing atom with
  | here hm hk =>
      obtain ⟨value, hvalue⟩ := (Schema.readings_of_read h).2 _ _ hm
      rw [hk] at hvalue
      obtain ⟨term, hterm, -⟩ := FieldKind.read_scalar_eq_ok hvalue
      obtain ⟨inner, hinner, -⟩ := Option.map_eq_some_iff.mp hterm
      exact isQuoted_of_unquote? hinner
  | nested hm hk _ ih =>
      obtain ⟨value, hvalue⟩ := (Schema.readings_of_read h).2 _ _ hm
      rw [hk] at hvalue
      obtain ⟨nested, hnested, -⟩ := FieldKind.read_atom_eq_ok hvalue
      exact ih hnested

theorem Schema.NoWildcard.lexical_of_read (hw : schema.NoWildcard) (hb : schema.Built)
    (h : schema.read schema.predicate cs = .ok atom)
    (hl : ∀ raw, schema.ReadsString cs raw → IsLiteral raw) : schema.Lexical cs where
  balanced := balanced_dropStop (hw.keeps_of_read hb h hl)
  literals := hl

end Accepted

/-! ## Strings that are not one literal -/

/-- The contents of a literal do not start with a quote. -/
theorem LiteralBody.head? {cs : List Char} (h : LiteralBody cs) : cs.head? ≠ some '"' := by
  induction h with
  | nil => simp
  | @plain cs c _ _ hq ih =>
      cases cs with
      | nil => simpa using hq
      | cons d ds => exact ih
  | @escaped cs c _ ih =>
      cases cs with
      | nil => simp
      | cons d ds => exact ih

/-- Two literals in a row, which start and end with a quote. -/
def twoLiterals : String := "\"\"\"\""

theorem not_isLiteral_twoLiterals : ¬ IsLiteral twoLiterals.toList := by
  rintro ⟨body, hbody, he⟩
  -- between the outer quotes there would be a body that starts with a quote
  have hquotes : '"' :: (['"', '"'] ++ ['"']) = '"' :: (body ++ ['"']) := he
  injection hquotes with _ hquotes
  exact hbody.head? (by rw [← List.append_cancel_right hquotes]; rfl)

/-- The text of a field shows that strings need not be literals, if there are any in it. -/
def Field.ShowsLoose (field : Field) (text : String) : Prop :=
  (field.kind = .scalar .string → ¬ IsLiteral text.toList)
    ∧ ∀ inner, field.kind = .atom inner → inner.HasString →
      ∃ raw, inner.ReadsString text.toList raw ∧ ¬ IsLiteral raw

section Loose

variable {schema : Schema} {texts : List String}

/-- There are texts of all written fields that read back and show this. -/
def Schema.LooseTexts (schema : Schema) (texts : List String) : Prop :=
  (∃ values, LaidOut schema.fields values texts)
    ∧ List.Forall₂ Field.ShowsLoose schema.written texts

/-- In an atom of these texts, every string of the schema is found, at any depth. -/
theorem Schema.LooseTexts.exists_readsString (hn : isPredicateName schema.predicate = true)
    (h : schema.LooseTexts texts) (hs : schema.HasString) :
    ∃ raw, schema.ReadsString (application "," schema.predicate texts).toList raw
      ∧ ¬ IsLiteral raw := by
  obtain ⟨⟨values, hlaid⟩, hshow⟩ := h
  have hargs := arguments_of_isArgument hn spaced_solver hlaid.isArgument (Or.inl rfl)
    Text.blank_nil Text.blank_nil
  rw [List.nil_append, List.append_nil, List.append_nil] at hargs
  -- each written field finds its own text
  have hfinds : ∀ field ∈ schema.fields, field.isConstant = false → ∃ text,
      (field, text.toList) ∈ schema.readings (application "," schema.predicate texts).toList
        ∧ field.ShowsLoose text := by
    intro field hf hk
    have hm := mem_written.mpr ⟨hf, hk⟩
    rw [← List.map_fst_zip (Nat.le_of_eq hshow.length_eq)] at hm
    obtain ⟨⟨_, text⟩, hpair, rfl⟩ := List.mem_map.mp hm
    refine ⟨text, ?_, (List.forall₂_iff_zip.mp hshow).2 hpair⟩
    rw [readings, hargs, List.zip_map_right]
    exact List.mem_map_of_mem hpair
  cases hs with
  | @here _ field hf hk =>
      obtain ⟨text, hm, hloose⟩ := hfinds field hf (by rw [Field.isConstant, hk]; rfl)
      exact ⟨text.toList, .here hm hk, hloose.1 hk⟩
  | @nested _ inner field hf hk hinner =>
      obtain ⟨text, hm, hloose⟩ := hfinds field hf (by rw [Field.isConstant, hk]; rfl)
      obtain ⟨raw, hraw, hnot⟩ := hloose.2 inner hk hinner
      exact ⟨raw, .nested hm hk hraw, hnot⟩

theorem readsBack_twoLiterals :
    ReadsBack (.scalar .string) (.term (.str "\"\"")) twoLiterals := by
  have hargument : IsArgument twoLiterals := by decide
  have hread : ScalarKind.string.read? twoLiterals.toList = some (.str "\"\"") := by decide
  exact ⟨FieldKind.read_scalar hread, hargument.steady, hargument.trimmed, hargument.nonempty⟩

/-- A field has such a text if its schema has, should it be for atoms. -/
theorem Field.exists_showsLoose {field : Field} (hk : field.isConstant = false)
    (ih : ∀ inner, field.kind = .atom inner → inner.Built ∧ ∃ texts, inner.LooseTexts texts) :
    ∃ value text, ReadsBack field.kind value text ∧ field.ShowsLoose text := by
  cases hkind : field.kind with
  | constant value =>
      rw [Field.isConstant, hkind] at hk
      exact absurd hk (by simp [FieldKind.isConstant])
  | any =>
      have hback : ReadsBack .any (.term (.int 0)) (Term.int 0).text :=
        readsBack_any (Or.inl ⟨.integer, rfl⟩)
      exact ⟨_, _, hback, by simp [ShowsLoose, hkind]⟩
  | atom inner =>
      obtain ⟨hb, texts, hloose⟩ := ih inner hkind
      obtain ⟨values, hlaid⟩ := hloose.1
      refine ⟨_, _, readsBack_atom hb.name (hlaid.atomReads spaced_solver hb.name), ?_, ?_⟩
      · rw [hkind]
        intro he
        exact absurd he (by simp)
      · rw [hkind]
        intro declared he hs
        injection he with he
        subst he
        exact hloose.exists_readsString hb.name hs
  | scalar kind =>
      cases kind with
      | integer =>
          have hback : ReadsBack (.scalar .integer) (.term (.int 0)) (Term.int 0).text :=
            readsBack_scalar rfl
          exact ⟨_, _, hback, by simp [ShowsLoose, hkind]⟩
      | boolean =>
          have hback : ReadsBack (.scalar .boolean) (.term (.bool true)) (Term.bool true).text :=
            readsBack_scalar rfl
          exact ⟨_, _, hback, by simp [ShowsLoose, hkind]⟩
      | string =>
          refine ⟨_, _, readsBack_twoLiterals, fun _ => not_isLiteral_twoLiterals, ?_⟩
          rw [hkind]
          intro inner he
          exact absurd he (by simp)

theorem exists_laidOut {fields : List Field}
    (h : ∀ field ∈ fields, field.isConstant = false →
      ∃ value text, ReadsBack field.kind value text ∧ field.ShowsLoose text) :
    ∃ values texts, LaidOut fields values texts
      ∧ List.Forall₂ Field.ShowsLoose (fields.filter (!·.isConstant)) texts := by
  induction fields using fields_induction with
  | nil => exact ⟨[], [], .nil, .nil⟩
  | constant name constant fields ih =>
      obtain ⟨values, texts, hlaid, hshow⟩ := ih fun f hf => h f (List.mem_cons_of_mem _ hf)
      rw [filter_constant]
      exact ⟨_, _, .constant hlaid, hshow⟩
  | written name kind fields hk ih =>
      obtain ⟨values, texts, hlaid, hshow⟩ := ih fun f hf => h f (List.mem_cons_of_mem _ hf)
      obtain ⟨value, text, hback, hfirst⟩ := h _ List.mem_cons_self hk
      rw [filter_written name hk]
      exact ⟨_, _, .written hback hlaid, .cons hfirst hshow⟩

theorem Schema.Built.exists_looseTexts (hb : schema.Built) :
    ∃ texts, schema.LooseTexts texts := by
  induction hb with
  | @intro predicate fields schema hbuild hnested ih =>
      obtain ⟨rfl, _, _⟩ := Schema.build_eq_ok hbuild
      obtain ⟨values, texts, hlaid, hshow⟩ := exists_laidOut fun field hf hk =>
        Field.exists_showsLoose hk fun inner hi => ⟨hnested field hf inner hi, ih field hf inner hi⟩
      exact ⟨texts, ⟨values, hlaid⟩, hshow⟩

/-- **A schema with strings accepts text that is not lexical.** -/
theorem Schema.Built.exists_loose (hb : schema.Built) (hs : schema.HasString) :
    ∃ text atom, schema.decode schema.predicate text = .ok atom
      ∧ ¬ schema.Lexical text.toList := by
  obtain ⟨texts, hloose⟩ := hb.exists_looseTexts
  obtain ⟨values, hlaid⟩ := hloose.1
  obtain ⟨raw, hraw, hnot⟩ := hloose.exists_readsString hb.name hs
  exact ⟨_, _, (hlaid.atomReads spaced_solver hb.name).bare, fun h => hnot (h.literals raw hraw)⟩

end Loose

/-! ## The decoder and lexical text -/

/--
**How far the decoder's acceptance goes**, for a built schema without wildcards.

What is read as a string from an accepted text starts with a quote and ends with
another one. The text is lexical, with complete literals, matched parentheses and
strings that are one literal each, exactly if every string in it is one literal. This
is so for all accepted texts if and only if the schema has no field for strings, at
any depth.
-/
theorem Schema.lexical_of_decode_iff {schema : Schema} (hb : schema.Built)
    (hw : schema.NoWildcard) :
    (∀ text atom, schema.decode schema.predicate text = .ok atom →
        (∀ raw, schema.ReadsString text.toList raw → IsQuoted raw)
          ∧ (schema.Lexical text.toList ↔
            ∀ raw, schema.ReadsString text.toList raw → IsLiteral raw))
      ∧ ((∀ text atom, schema.decode schema.predicate text = .ok atom →
            schema.Lexical text.toList)
          ↔ ¬ schema.HasString) := by
  refine ⟨fun text atom h => ⟨fun raw hs => hs.isQuoted h, ?_⟩, ?_⟩
  · constructor
    · intro hlexical
      exact hlexical.literals
    · intro hl
      exact hw.lexical_of_read hb h hl
  · constructor
    · intro h hs
      obtain ⟨text, atom, hdecode, hnot⟩ := hb.exists_loose hs
      exact hnot (h text atom hdecode)
    · intro hnone text atom hdecode
      exact hw.lexical_of_read hb hdecode fun raw hraw => absurd hraw.hasString hnone

/-- The text of a ticket: a full stop, and a string that holds a parenthesis. -/
def ticketText : String := " ticket(true, person(\"é)\",-4))."

theorem readings_person : personSchema.readings "person(\"é)\",-4)".toList
    = [(⟨"name", .scalar .string⟩, "\"é)\"".toList), (⟨"age", .scalar .integer⟩, "-4".toList)] := by
  have hargs : arguments "person".toList "person(\"é)\",-4)".toList
      = ["\"é)\"".toList, "-4".toList] := by decide
  show personSchema.written.zip (arguments "person".toList "person(\"é)\",-4)".toList) = _
  rw [hargs]
  rfl

theorem readsString_person {raw : List Char} :
    personSchema.ReadsString "person(\"é)\",-4)".toList raw ↔ raw = "\"é)\"".toList := by
  rw [Schema.readsString_iff, readings_person]
  simp

theorem readings_ticket : ticketSchema.readings ticketText.toList
    = [(⟨"open", .scalar .boolean⟩, "true".toList),
      (⟨"owner", .atom personSchema⟩, "person(\"é)\",-4)".toList)] := by
  have hargs : arguments "ticket".toList ticketText.toList
      = ["true".toList, "person(\"é)\",-4)".toList] := by decide
  show ticketSchema.written.zip (arguments "ticket".toList ticketText.toList) = _
  rw [hargs]
  rfl

/-- All that is read as a string is the name of the owner. -/
theorem readsString_ticketText {raw : List Char} :
    ticketSchema.ReadsString ticketText.toList raw ↔ raw = "\"é)\"".toList := by
  rw [Schema.readsString_iff, readings_ticket]
  simpa using readsString_person

/-- A ticket that is decoded is lexical, with a string in it that is one literal, but not all texts
that its schema decodes are. -/
theorem Schema.lexical_of_decode_ticket :
    ticketSchema.Built ∧ ticketSchema.NoWildcard
      ∧ ticketSchema.decode "ticket" ticketText = .ok ticket
      ∧ ticketSchema.ReadsString ticketText.toList "\"é)\"".toList
      ∧ ticketSchema.Lexical ticketText.toList
      ∧ ¬ ∀ text atom, ticketSchema.decode "ticket" text = .ok atom →
        ticketSchema.Lexical text.toList := by
  have hb : ticketSchema.Built := by decide
  have hperson : personSchema.NoWildcard := .intro (by simp [personSchema]) (by simp [personSchema])
  have hw : ticketSchema.NoWildcard := by
    refine .intro (by simp [ticketSchema]) ?_
    simpa [ticketSchema] using hperson
  have hreads := readsString_ticketText.mpr rfl
  have hliteral : ∀ raw, ticketSchema.ReadsString ticketText.toList raw → IsLiteral raw := by
    intro raw hraw
    have hbody : LiteralBody (([] ++ ['é']) ++ [')']) :=
      .plain (.plain .nil (by decide) (by decide)) (by decide) (by decide)
    rw [readsString_ticketText.mp hraw]
    exact ⟨_, hbody, by decide⟩
  obtain ⟨haccepted, hall⟩ := Schema.lexical_of_decode_iff hb hw
  obtain ⟨_, hlexical⟩ := haccepted _ _ decode_ticket
  exact ⟨hb, hw, decode_ticket, hreads, hlexical.mpr hliteral,
    mt hall.mp (not_not_intro hreads.hasString)⟩

/-! A string that is not one literal, and what is left open behind it. -/

def saySchema : Schema := ⟨"say", [⟨"s", .scalar .string⟩]⟩

theorem decode_openSay : saySchema.decode "say" "say(\"a\"(\")"
    = .ok ⟨saySchema, [.term (.str "a\"(")]⟩ := by
  have hatom : isAtomOf "say".toList "say(\"a\"(\")".toList = true := by decide
  have hargs : arguments "say".toList "say(\"a\"(\")".toList = ["\"a\"(\"".toList] := by decide
  have hs : ScalarKind.string.read? "\"a\"(\"".toList = some (.str "a\"(") := by decide
  exact Schema.read_of_arguments hatom hargs rfl
    ((readFields_cons_eq_ok_iff rfl).mpr ⟨_, _, FieldKind.read_scalar hs, rfl, rfl⟩) rfl

/--
The literal ends at its second quote. Behind it a parenthesis is opened, and the last
quote opens a string that does not end.
-/
theorem Schema.not_lexical_openSay :
    saySchema.Built ∧ saySchema.NoWildcard
      ∧ saySchema.decode "say" "say(\"a\"(\")" = .ok ⟨saySchema, [.term (.str "a\"(")]⟩
      ∧ ¬ saySchema.Lexical "say(\"a\"(\")".toList := by
  have hb : saySchema.Built := by decide
  have hw : saySchema.NoWildcard := .intro (by simp [saySchema]) (by simp [saySchema])
  refine ⟨hb, hw, decode_openSay, fun h => ?_⟩
  have hkeeps := balanced_iff_keeps.mp h.balanced 0 (Nat.le_refl 0)
  exact absurd hkeeps (by decide)

end AnswerSet
