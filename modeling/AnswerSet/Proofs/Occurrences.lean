import AnswerSet.Proofs.RoundTrip
import AnswerSet.Solver.Call

/-!
# Sorting an answer by schema

The atoms of a schema are found in an answer by the predicate that a text starts
with. A predicate ends where the first character comes that no predicate has, so
the text of an atom is taken for an atom of its own predicate and of no other,
even if one predicate is a prefix of the other (`isAtomOf_application_iff`).

What a search finds follows in two steps. The texts of the schema's predicate are
kept and decoded in order (`Answer.occurrences_eq_ok`). If the schemas in use have
distinct predicates, the kept texts are exactly the texts of atoms of the schema,
and each decodes to the atom it was written from. Loading facts puts these lists
one behind the other.
-/

namespace AnswerSet

/-! ## Predicates do not overlap -/

/-- The predicate is what comes before the first character that no predicate has. -/
theorem takeWhile_name {predicate : String} (hn : isPredicateName predicate = true)
    {rest : List Char} (hr : ∀ c ∈ rest.head?, isPredicateChar c = false) :
    (predicate.toList ++ rest).takeWhile isPredicateChar = predicate.toList :=
  (Text.span_append (fun _ hc => isPredicateChar_of_mem hn hc) hr).1

/-- A text that is taken for an atom of a predicate starts with that name and no longer one. -/
theorem takeWhile_of_isAtomOf {predicate : String} (hn : isPredicateName predicate = true)
    {cs : List Char} (h : isAtomOf predicate.toList cs = true) :
    (Text.trim cs).takeWhile isPredicateChar = predicate.toList := by
  unfold isAtomOf at h
  cases hp : Text.dropPrefix? predicate.toList (Text.trim cs) with
  | none => rw [hp] at h; exact absurd h (by simp)
  | some found =>
      rw [hp] at h
      have hopen : isPredicateChar '(' = false := by decide
      have hstop : isPredicateChar '.' = false := by decide
      have hfound : ∀ c ∈ found.head?, isPredicateChar c = false := by
        have hcases : (found = [] ∨ found.head? = some '(') ∨ found = ['.'] := by simpa using h
        rcases hcases with (rfl | hc) | rfl
        · simp
        · simpa [hc] using hopen
        · simpa using hstop
      rw [Text.dropPrefix?_eq_some_iff.mp hp]
      exact takeWhile_name hn hfound

/-- **The text of an atom is taken for an atom of its own predicate only.** -/
theorem isAtomOf_application_iff {predicate other comma : String} {texts : List String}
    (hn : isPredicateName predicate = true) (ho : isPredicateName other = true) :
    isAtomOf predicate.toList (application comma other texts).toList = true
      ↔ predicate = other := by
  constructor
  · intro h
    have hname := takeWhile_of_isAtomOf hn h
    obtain ⟨rest, he, hrest⟩ := exists_application comma other texts
    have hbehind : ∀ c ∈ rest.head?, isPredicateChar c = false := by
      have hopen : isPredicateChar '(' = false := by decide
      rcases hrest with rfl | ⟨inner, rfl⟩
      · simp
      · simpa using hopen
    rw [trim_application ho, he, takeWhile_name ho hbehind] at hname
    exact String.toList_inj.mp hname.symm
  · rintro rfl
    exact isAtomOf_bare hn

/-! ## Searching an answer -/

/-- The text is one of the atom. To the schema, if it has the atom's predicate, it reads as the
atom that is seen in its place. -/
structure Shows (schema : Schema) (seen : Atom → Atom) (atom : Atom) (text : String) : Prop where
  name : isPredicateName atom.predicate = true
  applied : ∃ comma texts, text = application comma atom.predicate texts
  decode : atom.predicate = schema.predicate →
    schema.decode schema.predicate text = .ok (seen atom)

/-- **A search finds what is seen of the atoms of its predicate, in their order.** -/
theorem Answer.occurrences_eq_ok {schema : Schema}
    (hn : isPredicateName schema.predicate = true) {seen : Atom → Atom} {atoms : List Atom}
    {answer : Answer} (h : List.Forall₂ (Shows schema seen) atoms answer.atoms) :
    answer.occurrences schema
      = .ok ((atoms.filter (·.predicate = schema.predicate)).map seen) := by
  unfold Answer.occurrences
  rw [mapM_eq_ok_iff]
  generalize answer.atoms = printed at h
  induction h with
  | nil => exact .nil
  | @cons atom text atoms printed hshows _ ih =>
      obtain ⟨comma, texts, rfl⟩ := hshows.applied
      have hmatches : matchesPredicate schema.predicate (application comma atom.predicate texts)
          = true ↔ atom.predicate = schema.predicate :=
        (isAtomOf_application_iff hn hshows.name).trans eq_comm
      by_cases hp : atom.predicate = schema.predicate
      · rw [List.filter_cons_of_pos (hmatches.mpr hp), List.filter_cons_of_pos (by simpa using hp),
          List.map_cons]
        exact .cons (hshows.decode hp) ih
      · rw [List.filter_cons_of_neg (fun hm => hp (hmatches.mp hm)),
          List.filter_cons_of_neg (by simpa using hp)]
        exact ih

/-! ## Families of schemas -/

/-- Built schemas that their predicates tell apart. -/
structure IsFamily (family : Schema → Prop) : Prop where
  built : ∀ schema, family schema → schema.Built
  distinct : ∀ a b, family a → family b → a.predicate = b.predicate → a = b

/-- Each text is the atom's, with or without blanks after the commas. -/
def PrintedAs (atoms : List Atom) (texts : List String) : Prop :=
  List.Forall₂ (fun atom text => text = atom.text ∨ text = atom.solverText) atoms texts

theorem Atom.Conforms.decode_printed {atom : Atom} (h : atom.Conforms) (hb : atom.schema.Built)
    {text : String} (ht : text = atom.text ∨ text = atom.solverText) :
    atom.schema.decode atom.schema.predicate text = .ok atom := by
  rcases ht with rfl | rfl
  · exact (atomReadsBack spaced_program hb atom rfl h).bare
  · exact (atomReadsBack spaced_solver hb atom rfl h).bare

section Family

variable {family : Schema → Prop} {atoms : List Atom} {answer : Answer}

/-- **A search by a schema of the family finds the atoms of the schema.** -/
theorem IsFamily.occurrences_eq (hf : IsFamily family)
    (ha : ∀ atom ∈ atoms, family atom.schema ∧ atom.Conforms)
    (hp : PrintedAs atoms answer.atoms) {schema : Schema} (hs : family schema) :
    answer.occurrences schema = .ok (atoms.filter (·.schema = schema)) := by
  have hsame : ∀ atom ∈ atoms, atom.predicate = schema.predicate ↔ atom.schema = schema := by
    intro atom hm
    refine ⟨fun he => hf.distinct _ _ (ha atom hm).1 hs he, fun he => ?_⟩
    rw [← he]
    rfl
  have hshows : List.Forall₂ (Shows schema id) atoms answer.atoms := by
    have hboth := (List.forall₂_and_left atoms answer.atoms).mpr ⟨fun _ hm => hm, hp⟩
    refine hboth.imp fun atom text ⟨hm, ht⟩ => ?_
    obtain ⟨hfam, hconf⟩ := ha atom hm
    have hb := hf.built _ hfam
    refine ⟨hb.name, ?_, fun he => ?_⟩
    · rcases ht with rfl | rfl
      · exact ⟨_, _, Atom.spelled_eq _ atom⟩
      · exact ⟨_, _, Atom.spelled_eq _ atom⟩
    · rw [← (hsame atom hm).mp he]
      exact hconf.decode_printed hb ht
  rw [Answer.occurrences_eq_ok (hf.built schema hs).name hshows, List.map_id]
  exact congrArg Except.ok (List.filter_congr fun atom hm => by simp [hsame atom hm])

end Family

/-- Atoms that are sorted by schema are the same as before if every schema is among the given ones. -/
theorem perm_flatMap_filter {schemas : List Schema} (hn : schemas.Nodup) {atoms : List Atom}
    (ha : ∀ atom ∈ atoms, atom.schema ∈ schemas) :
    (schemas.flatMap fun schema => atoms.filter (·.schema = schema)).Perm atoms := by
  induction schemas generalizing atoms with
  | nil =>
      cases atoms with
      | nil => exact .nil
      | cons atom atoms => exact absurd (ha atom List.mem_cons_self) (by simp)
  | cons schema schemas ih =>
      obtain ⟨hnotin, hn⟩ := List.nodup_cons.mp hn
      rw [List.flatMap_cons]
      -- the later schemas find the same among the atoms of other schemas
      let others := atoms.filter fun atom => !decide (atom.schema = schema)
      have hlater : ∀ s ∈ schemas, atoms.filter (·.schema = s) = others.filter (·.schema = s) := by
        intro s hs
        rw [List.filter_filter]
        refine List.filter_congr fun atom _ => ?_
        by_cases he : atom.schema = s
        · have hne : s ≠ schema := fun h => hnotin (h ▸ hs)
          simp [he, hne]
        · simp [he]
      have hothers : ∀ atom ∈ others, atom.schema ∈ schemas := by
        intro atom hm
        obtain ⟨hm, hne⟩ := List.mem_filter.mp hm
        exact (List.mem_cons.mp (ha atom hm)).resolve_left (by simpa using hne)
      rw [List.flatMap_congr hlater]
      exact ((ih hn hothers).append_left _).trans (List.filter_append_perm _ atoms)

/-! ## Loading facts -/

theorem SolverCall.finish_andThen {α β : Type} (call : SolverCall α) (next : α → Except Error β)
    (outcome : Except SystemError RawOutput) :
    (call.andThen next).finish outcome = (call.finish outcome).bind next := by
  cases outcome with
  | error e => rfl
  | ok raw =>
      change (raw.decode.mapError Error.system).bind (fun output => (call.read output).bind next)
        = ((raw.decode.mapError Error.system).bind call.read).bind next
      cases raw.decode with
      | error e => rfl
      | ok output => rfl

theorem SolverConfig.exists_loadFacts (config : SolverConfig) (text : String)
    (schemas : List Schema) : ∃ solving, config.solveText text [] none = .ok solving
      ∧ config.loadFacts text schemas = .ok (solving.andThen (·.facts schemas)) :=
  ⟨_, rfl, rfl⟩

namespace SolveResult

variable {result : SolveResult} {schemas : List Schema}

theorem facts_eq_ok {answer : Answer} {found : Schema → List Atom}
    (hs : result.status = .hasSolution) (ha : result.answers = [answer])
    (hf : ∀ schema ∈ schemas, answer.occurrences schema = .ok (found schema)) :
    result.facts schemas = .ok (schemas.flatMap found) := by
  have hm : schemas.mapM answer.occurrences = .ok (schemas.map found) := by
    rw [mapM_eq_ok_iff, List.forall₂_map_right_iff]
    exact List.forall₂_same.mpr hf
  unfold SolveResult.facts
  rw [if_neg (not_not_intro hs), ha, List.flatMap_def]
  simp only [hm]
  rfl

theorem facts_of_status (hs : result.status ≠ .hasSolution) :
    result.facts schemas = .error (.output (.factsNotLoaded result.status.describe)) := by
  rw [facts, if_pos hs]

theorem facts_of_count (hs : result.status = .hasSolution) (ha : result.answers.length ≠ 1) :
    result.facts schemas = .error (.output (.severalAnswers result.answers.length)) := by
  unfold SolveResult.facts
  rw [if_neg (not_not_intro hs)]
  split
  · rename_i answer he
    exact absurd (by rw [he]; rfl) ha
  · rfl

end SolveResult

/--
**Decoding an answer sorts it by schema, without loss or repetition.** Let the
answer hold the texts of conforming atoms of a family, with or without blanks
after commas. A search by a schema of the family finds exactly the atoms of the
schema, in their order. Facts are loaded by the same run as a solve. If it has a
solution and this one answer, they are what is found by the given schemas, one
after the other; with another status or number of answers they are an error about
the output. If the schemas are the whole family, each once, the facts are the atoms.
-/
theorem Answer.sorted_by_schema {family : Schema → Prop} (hf : IsFamily family)
    {atoms : List Atom} (ha : ∀ atom ∈ atoms, family atom.schema ∧ atom.Conforms)
    {answer : Answer} (hp : PrintedAs atoms answer.atoms) :
    (∀ schema, family schema →
      answer.occurrences schema = .ok (atoms.filter (·.schema = schema)))
    ∧ (∀ (config : SolverConfig) (text : String) (schemas : List Schema),
        (∀ schema ∈ schemas, family schema) →
        ∃ solving loading, config.solveText text [] none = .ok solving
          ∧ config.loadFacts text schemas = .ok loading
          ∧ loading.invocation = solving.invocation
          ∧ ∀ outcome,
            (∀ e, solving.finish outcome = .error e → loading.finish outcome = .error e)
            ∧ ∀ result, solving.finish outcome = .ok result →
              (result.status = .hasSolution → result.answers = [answer] →
                loading.finish outcome
                  = .ok (schemas.flatMap fun schema => atoms.filter (·.schema = schema)))
              ∧ (result.status ≠ .hasSolution → loading.finish outcome
                  = .error (.output (.factsNotLoaded result.status.describe)))
              ∧ (result.status = .hasSolution → result.answers.length ≠ 1 →
                loading.finish outcome
                  = .error (.output (.severalAnswers result.answers.length))))
    ∧ ∀ schemas : List Schema, schemas.Nodup → (∀ schema, family schema ↔ schema ∈ schemas) →
        (schemas.flatMap fun schema => atoms.filter (·.schema = schema)).Perm atoms := by
  have hfind : ∀ schema, family schema →
      answer.occurrences schema = .ok (atoms.filter (·.schema = schema)) :=
    fun _ hs => hf.occurrences_eq ha hp hs
  refine ⟨hfind, fun config text schemas hs => ?_, fun schemas hn hall => ?_⟩
  · obtain ⟨solving, hsolve, hload⟩ := config.exists_loadFacts text schemas
    refine ⟨solving, _, hsolve, hload, rfl, fun outcome => ⟨fun e he => ?_, fun result hr => ?_⟩⟩
    · rw [SolverCall.finish_andThen, he]
      rfl
    · have hfinish : (solving.andThen (·.facts schemas)).finish outcome = result.facts schemas := by
        rw [SolverCall.finish_andThen, hr]
        rfl
      rw [hfinish]
      refine ⟨fun hst hans => ?_, SolveResult.facts_of_status, SolveResult.facts_of_count⟩
      exact SolveResult.facts_eq_ok hst hans fun schema hm => hfind schema (hs schema hm)
  · exact perm_flatMap_filter hn fun atom hm => (hall _).mp (ha atom hm).1

/-! A predicate, one that goes on with a quote, and one without fields. -/

def numberSchema : Schema := ⟨"a", [⟨"n", .scalar .integer⟩]⟩

def primedSchema : Schema := ⟨"a'", [⟨"x", .any⟩, ⟨"y", .scalar .string⟩]⟩

def flagSchema : Schema := ⟨"ab", []⟩

def mixedAtoms : List Atom :=
  [⟨primedSchema, [.term (.int 1), .term (.str ",a(")]⟩, ⟨flagSchema, []⟩,
    ⟨numberSchema, [.term (.int 2)]⟩]

def mixedAnswer : Answer := ⟨["a'(1,\",a(\")", "ab", "a(2)"], [], false⟩

/-- The quote, the longer predicate and the text in the string are not mixed up. -/
theorem Answer.sorted_by_schema_mixedAnswer :
    IsFamily (· ∈ [numberSchema, flagSchema, primedSchema])
      ∧ (∀ atom ∈ mixedAtoms, atom.schema ∈ [numberSchema, flagSchema, primedSchema] ∧ atom.Conforms)
      ∧ PrintedAs mixedAtoms mixedAnswer.atoms
      ∧ mixedAnswer.occurrences numberSchema = .ok (mixedAtoms.filter (·.schema = numberSchema)) := by
  have hf : IsFamily (· ∈ [numberSchema, flagSchema, primedSchema]) := by
    refine ⟨?_, ?_⟩
    · decide
    · simp only [List.mem_cons, List.not_mem_nil, or_false]
      rintro a b (rfl | rfl | rfl) (rfl | rfl | rfl) he
      all_goals first | rfl | exact absurd he (by decide)
  have ha : ∀ atom ∈ mixedAtoms,
      atom.schema ∈ [numberSchema, flagSchema, primedSchema] ∧ atom.Conforms := by
    intro atom hm
    rcases List.mem_cons.mp hm with rfl | hm
    · exact ⟨by decide, Or.inl ⟨.integer, rfl⟩, rfl, trivial⟩
    rcases List.mem_cons.mp hm with rfl | hm
    · exact ⟨by decide, trivial⟩
    · rw [List.mem_singleton.mp hm]
      exact ⟨by decide, rfl, trivial⟩
  have hp : PrintedAs mixedAtoms mixedAnswer.atoms :=
    .cons (Or.inr (by decide)) (.cons (Or.inl (by decide)) (.cons (Or.inl (by decide)) .nil))
  exact ⟨hf, ha, hp, (Answer.sorted_by_schema hf ha hp).1 numberSchema (by simp)⟩

end AnswerSet
