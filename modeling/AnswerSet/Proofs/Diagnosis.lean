import AnswerSet.Proofs.Acceptance

/-!
# Where decoding fails

A text fails at one place. Either the whole text is not an atom of the schema, or
one of its arguments is not of the kind of its field, or the argument is the text of
an inner atom and fails somewhere further in. This is said by rules that go from the
outermost text to the place (`Schema.FailsAt`), and what comes first counts: all
arguments in front of the failing one read.

**The decoder's error is the one that the rules lead to.** Its words are a chain of
the fields on the way, from the outside to the inside, and behind it what is wrong at
the place. The step is what happens in a row of fields: an error is the first failing
field's, with the field in front of it (`readFields_eq_error_iff`). The induction is
on the schema one way and on the rules the other way, and since a decoder gives no
two answers, there is no second place (`Schema.failsAt_iff`).
-/

namespace AnswerSet

/-! ## Places -/

/-- The text as it is shown in messages. -/
def shown (cs : List Char) : String := .ofList (Text.trim cs)

/-- The text as a whole is not an atom of the schema, and the words that say so. -/
inductive Schema.Mismatch (schema : Schema) (cs : List Char) : String → Prop
  | otherPredicate : isAtomOf schema.predicate.toList cs = false →
      Mismatch schema cs s!"'{shown cs}' is not an atom of '{schema.predicate}'"
  | wrongCount {found : Nat} : isAtomOf schema.predicate.toList cs = true →
      (arguments schema.predicate.toList cs).length = found → found ≠ schema.arity →
      Mismatch schema cs
        s!"'{shown cs}' has {found} arguments but '{schema.predicate}' expects {schema.arity}"

/-- The argument is not of the kind, and the words that say so. -/
inductive FieldKind.Mismatch : FieldKind → List Char → String → Prop
  | scalar {kind : ScalarKind} {raw : List Char} : kind.read? raw = none →
      Mismatch (.scalar kind) raw s!"expected {kind.name}, got '{String.ofList raw}'"
  | plain {inner : Schema} {raw : List Char} : isPlainValue raw = true →
      Mismatch (.atom inner) raw s!"expected atom '{inner.predicate}', got '{String.ofList raw}'"

/-- The text is an atom of the schema as far as can be told from the outside, and its arguments in
front of this one read. -/
structure Schema.ReadsUpTo (schema : Schema) (cs : List Char) (field : Field) (raw : List Char) :
    Prop where
  isAtom : isAtomOf schema.predicate.toList cs = true
  count : (arguments schema.predicate.toList cs).length = schema.arity
  before : ∃ before after, schema.readings cs = before ++ (field, raw) :: after
    ∧ ∀ reading ∈ before, ∃ value, reading.1.kind.read reading.2 = .ok value

/-- The text fails at a place. The path holds the fields that lead there, from the outermost one on,
each with the predicate that it belongs to. The words say what is wrong there. -/
inductive Schema.FailsAt : Schema → List Char → List (String × String) → String → Prop
  | here {schema : Schema} {cs : List Char} {words : String} :
      schema.Mismatch cs words → FailsAt schema cs [] words
  | argument {schema : Schema} {cs raw : List Char} {field : Field} {words : String} :
      schema.ReadsUpTo cs field raw → field.kind.Mismatch raw words →
      FailsAt schema cs [(field.name, schema.predicate)] words
  | inner {schema inner : Schema} {cs raw : List Char} {field : Field}
      {path : List (String × String)} {words : String} :
      schema.ReadsUpTo cs field raw → field.kind = .atom inner → isPlainValue raw = false →
      FailsAt inner raw path words →
      FailsAt schema cs ((field.name, schema.predicate) :: path) words

/-- The chain of fields that leads to a place. -/
def pathText : List (String × String) → String
  | [] => ""
  | (field, predicate) :: path => s!"Field '{field}' of '{predicate}': " ++ pathText path

/-! ## The parts of an error -/

namespace DecodeError

/-- The fields on the way. -/
def path : DecodeError → List (String × String)
  | .inField field predicate cause => (field, predicate) :: cause.path
  | _ => []

/-- What is wrong at the end of the way. -/
def root : DecodeError → DecodeError
  | .inField _ _ cause => cause.root
  | e => e

/-- **The words of an error are the chain of its fields and the words of what is wrong.** -/
theorem describe_eq (e : DecodeError) : e.describe = pathText e.path ++ e.root.describe := by
  induction e with
  | inField field predicate cause ih =>
      show s!"Field '{field}' of '{predicate}': " ++ cause.describe
        = (s!"Field '{field}' of '{predicate}': " ++ pathText cause.path) ++ cause.root.describe
      rw [ih]
      simp only [String.append_assoc]
  | _ => exact (String.empty_append).symm

end DecodeError

/-! ## One level -/

/-- **An error in a row of fields is the first failing field's**, with the field in front of it. -/
theorem readFields_eq_error_iff {predicate : String} {fields : List Field}
    {found : List (List Char)} {e : DecodeError} :
    readFields predicate fields found = .error e ↔
      ∃ before field raw after cause,
        (fields.filter (!·.isConstant)).zip found = before ++ (field, raw) :: after
          ∧ (∀ reading ∈ before, ∃ value, reading.1.kind.read reading.2 = .ok value)
          ∧ field.kind.read raw = .error cause ∧ e = .inField field.name predicate cause := by
  rw [readFields_eq_mapM, mapM_eq_error_iff]
  simp only [Except.mapError_eq_ok, Except.mapError_eq_error]
  constructor
  · rintro ⟨before, ⟨field, raw⟩, after, he, hbefore, cause, hcause, rfl⟩
    exact ⟨before, field, raw, after, cause, he, hbefore, hcause, rfl⟩
  · rintro ⟨before, field, raw, after, cause, he, hbefore, hcause, rfl⟩
    exact ⟨before, (field, raw), after, he, hbefore, cause, hcause, rfl⟩

/-- What it takes for a text not to decode: it is wrong as a whole, or some argument is. -/
theorem Schema.read_eq_error_iff {schema : Schema} {predicate : String} {cs : List Char}
    {e : DecodeError} : schema.read predicate cs = .error e ↔
      (isAtomOf predicate.toList cs = false
          ∧ e = .otherPredicate (.ofList (Text.trim cs)) predicate)
        ∨ (isAtomOf predicate.toList cs = true
          ∧ (arguments predicate.toList cs).length ≠ schema.arity
          ∧ e = .wrongArgumentCount (.ofList (Text.trim cs)) schema.predicate
            (arguments predicate.toList cs).length schema.arity)
        ∨ (isAtomOf predicate.toList cs = true
          ∧ (arguments predicate.toList cs).length = schema.arity
          ∧ readFields schema.predicate schema.fields (arguments predicate.toList cs) = .error e) := by
  rw [Schema.read_eq]
  cases isAtomOf predicate.toList cs with
  | false => simp [eq_comm]
  | true =>
      rw [Bool.not_true, if_neg Bool.false_ne_true]
      by_cases hl : (arguments predicate.toList cs).length = schema.arity
      · rw [if_neg (not_not_intro hl)]
        cases hread : readFields schema.predicate schema.fields (arguments predicate.toList cs) with
        | error e' => simp [Except.bind, hl]
        | ok values =>
            -- the values that were read make an atom
            obtain ⟨hlen, hdeal⟩ := dealValues_of_readFields hl hread
            have hof : Atom.ofValues schema values
                = .ok ⟨schema, withConstants schema.fields values⟩ :=
              Atom.ofValues_eq_ok_iff.mpr ⟨hlen, _, hdeal, rfl⟩
            simp [Except.bind, hof, Except.mapError, hl]
      · rw [if_pos hl]
        simp [hl, eq_comm]

theorem Schema.ReadsUpTo.read_eq_error {schema : Schema} {cs raw : List Char} {field : Field}
    {cause : DecodeError} (h : schema.ReadsUpTo cs field raw)
    (hraw : field.kind.read raw = .error cause) :
    schema.read schema.predicate cs = .error (.inField field.name schema.predicate cause) := by
  obtain ⟨before, after, he, hbefore⟩ := h.before
  refine Schema.read_eq_error_iff.mpr (Or.inr (Or.inr ⟨h.isAtom, h.count, ?_⟩))
  exact readFields_eq_error_iff.mpr ⟨before, field, raw, after, cause, he, hbefore, hraw, rfl⟩

/-- An argument does not read because it is not of the kind, or because an inner atom does not. -/
theorem FieldKind.read_eq_error_cases {kind : FieldKind} {raw : List Char} {cause : DecodeError}
    (hk : kind.isConstant = false) (h : kind.read raw = .error cause) :
    (kind.Mismatch raw cause.root.describe ∧ cause.path = [])
      ∨ ∃ inner, kind = .atom inner ∧ isPlainValue raw = false
          ∧ inner.read inner.predicate raw = .error cause := by
  cases kind with
  | scalar kind =>
      rw [FieldKind.read] at h
      split at h
      · exact absurd h (by simp)
      · rename_i hread
        injection h with h
        rw [← h]
        exact Or.inl ⟨.scalar hread, rfl⟩
  | any =>
      rw [FieldKind.read] at h
      exact absurd h (by simp)
  | atom inner =>
      rw [FieldKind.read] at h
      split at h
      · rename_i hplain
        injection h with h
        rw [← h]
        exact Or.inl ⟨.plain hplain, rfl⟩
      · rename_i hplain
        refine Or.inr ⟨inner, rfl, Bool.eq_false_iff.mpr hplain, ?_⟩
        cases hread : inner.read inner.predicate raw with
        | error e =>
            rw [hread] at h
            injection h with h
            rw [h]
        | ok atom =>
            rw [hread] at h
            exact absurd h (by simp [bind, Except.bind, pure, Except.pure])
  | constant value => exact absurd hk (by simp [FieldKind.isConstant])

theorem FieldKind.Mismatch.read {kind : FieldKind} {raw : List Char} {words : String}
    (h : kind.Mismatch raw words) :
    ∃ cause, kind.read raw = .error cause ∧ cause.path = [] ∧ cause.root.describe = words := by
  cases h with
  | @scalar kind raw hread =>
      refine ⟨.notScalar kind (.ofList raw), ?_, rfl, rfl⟩
      rw [FieldKind.read, hread]
  | @plain inner raw hplain =>
      refine ⟨.notAtom inner.predicate (.ofList raw), ?_, rfl, rfl⟩
      rw [FieldKind.read, if_pos hplain]

theorem Schema.Mismatch.read {schema : Schema} {cs : List Char} {words : String}
    (h : schema.Mismatch cs words) : ∃ e, schema.read schema.predicate cs = .error e
      ∧ e.path = [] ∧ e.root.describe = words := by
  cases h with
  | otherPredicate ha =>
      exact ⟨_, Schema.read_eq_error_iff.mpr (Or.inl ⟨ha, rfl⟩), rfl, rfl⟩
  | wrongCount ha hfound hne =>
      subst hfound
      exact ⟨_, Schema.read_eq_error_iff.mpr (Or.inr (Or.inl ⟨ha, hne, rfl⟩)), rfl, rfl⟩

theorem FieldKind.read_atom_eq_error {inner : Schema} {raw : List Char} {e : DecodeError}
    (hp : isPlainValue raw = false) (h : inner.read inner.predicate raw = .error e) :
    (FieldKind.atom inner).read raw = .error e := by
  rw [FieldKind.read, hp, if_neg Bool.false_ne_true, h]
  rfl

/-! ## All levels -/

section Places

variable {schema : Schema} {cs : List Char} {path : List (String × String)} {words : String}
  {e : DecodeError}

/-- The decoder's error leads to a place. -/
theorem Schema.failsAt_of_read (h : schema.read schema.predicate cs = .error e) :
    schema.FailsAt cs e.path e.root.describe := by
  induction schema using Schema.induction generalizing cs e with
  | mk predicate fields ih =>
      rcases Schema.read_eq_error_iff.mp h with ⟨ha, rfl⟩ | ⟨ha, hl, rfl⟩ | ⟨ha, hl, hfields⟩
      · exact .here (.otherPredicate ha)
      · exact .here (.wrongCount ha rfl hl)
      · obtain ⟨before, field, raw, after, cause, he, hbefore, hraw, rfl⟩ :=
          readFields_eq_error_iff.mp hfields
        have hreads : Schema.ReadsUpTo ⟨predicate, fields⟩ cs field raw :=
          ⟨ha, hl, before, after, he, hbefore⟩
        have hm : (field, raw) ∈ Schema.readings ⟨predicate, fields⟩ cs := by
          show (field, raw) ∈ (fields.filter (!·.isConstant)).zip (arguments predicate.toList cs)
          rw [he]
          exact List.mem_append_right _ List.mem_cons_self
        obtain ⟨hf, hk⟩ := Schema.mem_fields_of_readings hm
        rcases FieldKind.read_eq_error_cases hk hraw with ⟨hmis, hpath⟩ | ⟨inner, hi, hp, hread⟩
        · rw [DecodeError.path, DecodeError.root, hpath]
          exact .argument hreads hmis
        · rw [DecodeError.path, DecodeError.root]
          exact .inner hreads hi hp (ih field hf inner hi hread)

/-- At a place where a text fails, the decoder does. -/
theorem Schema.FailsAt.read (h : schema.FailsAt cs path words) :
    ∃ e, schema.read schema.predicate cs = .error e ∧ e.path = path ∧ e.root.describe = words := by
  induction h with
  | here hmis => exact hmis.read
  | argument hreads hmis =>
      obtain ⟨cause, hcause, hpath, hwords⟩ := hmis.read
      refine ⟨_, hreads.read_eq_error hcause, ?_, hwords⟩
      rw [DecodeError.path, hpath]
  | @inner schema inner cs raw field path words hreads hi hp _ ih =>
      obtain ⟨cause, hcause, hpath, hwords⟩ := ih
      have hraw : field.kind.read raw = .error cause := by
        rw [hi]
        exact FieldKind.read_atom_eq_error hp hcause
      refine ⟨_, hreads.read_eq_error hraw, ?_, hwords⟩
      rw [DecodeError.path, hpath]

/-- **A text fails where the decoder's error leads to, and nowhere else.** -/
theorem Schema.failsAt_iff : schema.FailsAt cs path words ↔
    ∃ e, schema.read schema.predicate cs = .error e ∧ e.path = path ∧ e.root.describe = words := by
  constructor
  · intro h
    exact h.read
  · rintro ⟨e, he, rfl, rfl⟩
    exact Schema.failsAt_of_read he

end Places

/--
**A decoding failure names the first offending field by its full path.**

A text either decodes and fails nowhere, or it is refused and fails at just one place.
The message is then the chain of the fields that lead there, followed by what is wrong
there.
-/
theorem Schema.decode_names_place (schema : Schema) (text : String) :
    ((∃ atom, schema.decode schema.predicate text = .ok atom)
        ∧ ∀ path words, ¬ schema.FailsAt text.toList path words)
      ∨ ∃ e path words, schema.decode schema.predicate text = .error e
        ∧ (Error.decode e).message = "Decode error: " ++ (pathText path ++ words)
        ∧ ∀ path' words', schema.FailsAt text.toList path' words' ↔ path' = path ∧ words' = words
    := by
  unfold Schema.decode
  cases hread : schema.read schema.predicate text.toList with
  | ok atom =>
      refine Or.inl ⟨⟨atom, rfl⟩, fun path words h => ?_⟩
      obtain ⟨e, he, -⟩ := h.read
      rw [hread] at he
      exact absurd he (by simp)
  | error e =>
      refine Or.inr ⟨e, e.path, e.root.describe, rfl, ?_, fun path words => ?_⟩
      · show "Decode error: " ++ e.describe = _
        rw [DecodeError.describe_eq]
      · rw [Schema.failsAt_iff]
        constructor
        · rintro ⟨e', he, rfl, rfl⟩
          rw [hread] at he
          injection he with he
          rw [he]
          exact ⟨rfl, rfl⟩
        · rintro ⟨rfl, rfl⟩
          exact ⟨e, hread, rfl, rfl⟩

/-- A ticket whose owner has an age that is no integer. -/
def agelessTicket : String := "ticket(true, person(\"a\", x))."

theorem readsUpTo_owner : ticketSchema.ReadsUpTo agelessTicket.toList
    ⟨"owner", .atom personSchema⟩ "person(\"a\", x)".toList where
  isAtom := by decide
  count := by decide
  before := by
    have hargs : arguments ticketSchema.predicate.toList agelessTicket.toList
        = ["true".toList, "person(\"a\", x)".toList] := by decide
    have hopen : ScalarKind.boolean.read? "true".toList = some (.bool true) := by decide
    refine ⟨[(⟨"open", .scalar .boolean⟩, "true".toList)], [], ?_, ?_⟩
    · rw [Schema.readings, hargs]
      rfl
    · exact List.forall_mem_singleton.mpr ⟨_, FieldKind.read_scalar hopen⟩

theorem readsUpTo_age : personSchema.ReadsUpTo "person(\"a\", x)".toList
    ⟨"age", .scalar .integer⟩ "x".toList where
  isAtom := by decide
  count := by decide
  before := by
    have hargs : arguments personSchema.predicate.toList "person(\"a\", x)".toList
        = ["\"a\"".toList, "x".toList] := by decide
    have hname : ScalarKind.string.read? "\"a\"".toList = some (.str "a") := by decide
    refine ⟨[(⟨"name", .scalar .string⟩, "\"a\"".toList)], [], ?_, ?_⟩
    · rw [Schema.readings, hargs]
      rfl
    · exact List.forall_mem_singleton.mpr ⟨_, FieldKind.read_scalar hname⟩

theorem mismatch_x : FieldKind.Mismatch (.scalar .integer) "x".toList "expected integer, got 'x'" := by
  generalize hraw : "x".toList = raw
  have hread : ScalarKind.integer.read? raw = none := by
    rw [← hraw]
    decide
  have hwords : s!"expected {ScalarKind.integer.name}, got '{String.ofList raw}'"
      = "expected integer, got 'x'" := by
    rw [← hraw]
    decide
  rw [← hwords]
  exact .scalar hread

theorem failsAt_agelessTicket : ticketSchema.FailsAt agelessTicket.toList
    [("owner", "ticket"), ("age", "person")] "expected integer, got 'x'" := by
  have hplain : isPlainValue "person(\"a\", x)".toList = false := by decide
  exact .inner readsUpTo_owner rfl hplain (.argument readsUpTo_age mismatch_x)

/-- The message leads through the ticket's owner to the age. -/
theorem Schema.decode_names_place_ticket :
    ∃ e, ticketSchema.decode "ticket" agelessTicket = .error e ∧ (Error.decode e).message
      = "Decode error: Field 'owner' of 'ticket': Field 'age' of 'person': expected integer, got 'x'"
    := by
  rcases Schema.decode_names_place ticketSchema agelessTicket with
    ⟨_, hnowhere⟩ | ⟨e, path, words, he, hmessage, hplace⟩
  · exact absurd failsAt_agelessTicket (hnowhere _ _)
  · obtain ⟨hpath, hwords⟩ := (hplace _ _).mp failsAt_agelessTicket
    refine ⟨e, he, ?_⟩
    rw [hmessage, ← hpath, ← hwords]
    decide

end AnswerSet
