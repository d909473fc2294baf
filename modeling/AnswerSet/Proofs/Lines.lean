import AnswerSet.Program
import AnswerSet.Proofs.Faults
import AnswerSet.Proofs.Injection

/-!
# One statement per line

A program grows by statements, atoms and lists of statements, and is written with
a line feed behind every statement. If no statement has a line feed of its own,
the lines of the text are the statements in the order in which they were added.

Strings in literals are escaped, so they bring no line feed, whatever they
contain. **The terms of a penalty are the one exception**: strings among them are
written bare. `lines_render_iff` says that the lines are right exactly if none of
these strings has a line feed, as long as symbols and variables have none either.
-/

namespace AnswerSet

/-! ## Growing a program -/

/-- One call that adds to a program. -/
inductive Insertion where
  | add (d : Definition)
  | addAtom (atom : Atom)
  | extend (ds : List Definition)

/-- The statements that are added. -/
def Insertion.definitions : Insertion → List Definition
  | .add d => [d]
  | .addAtom atom => [.define (Disjunction.fact atom)]
  | .extend ds => ds

namespace Program

/-- The program after one more call. -/
def insert (program : Program) : Insertion → Program
  | .add d => program.add d
  | .addAtom atom => program.addAtom atom
  | .extend ds => program.extend ds

/-- The program after the calls in order. -/
def ofInsertions (insertions : List Insertion) : Program := insertions.foldl insert empty

theorem definitions_insert (program : Program) (insertion : Insertion) :
    (program.insert insertion).definitions = program.definitions ++ insertion.definitions := by
  cases insertion <;> rfl

/-- Statements stay in the order in which they were added. -/
theorem definitions_foldl (program : Program) (insertions : List Insertion) :
    (insertions.foldl insert program).definitions
      = program.definitions ++ insertions.flatMap Insertion.definitions := by
  induction insertions generalizing program with
  | nil => simp
  | cons insertion insertions ih =>
      rw [List.foldl_cons, ih, definitions_insert, List.flatMap_cons, List.append_assoc]

theorem definitions_ofInsertions (insertions : List Insertion) :
    (ofInsertions insertions).definitions = insertions.flatMap Insertion.definitions := by
  rw [ofInsertions, definitions_foldl]
  rfl

end Program

/-! ## Line feeds in one statement -/

theorem mem_intercalate {c : Char} {separator text : String} {texts : List String}
    (ht : text ∈ texts) (hc : c ∈ text.toList) : c ∈ (separator.intercalate texts).toList := by
  induction texts with
  | nil => exact absurd ht (by simp)
  | cons first texts ih =>
      cases texts with
      | nil =>
          rw [List.mem_singleton.mp ht] at hc
          rwa [String.intercalate_singleton]
      | cons next texts =>
          rw [String.intercalate_cons_cons, String.toList_append, String.toList_append]
          rcases List.mem_cons.mp ht with rfl | ht
          · simp [hc]
          · exact List.mem_append_right _ (ih ht)

namespace Definition

/-- A string among a penalty's terms stands in the text as it is. -/
theorem mem_render_of_bare {d : Definition} {text s : String} (hr : d.render = .ok text)
    (hs : .str s ∈ d.bareTerms) {c : Char} (hc : c ∈ s.toList) : c ∈ text.toList := by
  match d with
  | .guess _ => exact absurd hs (by simp [bareTerms])
  | .define _ => exact absurd hs (by simp [bareTerms])
  | .raw _ => exact absurd hs (by simp [bareTerms])
  | .assert ⟨.hard, _⟩ => exact absurd hs (by simp [bareTerms])
  | .assert ⟨.soft penalty, body⟩ =>
      obtain ⟨bodyText, _, hbody⟩ := Except.bind_eq_ok.mp hr
      split at hbody
      · exact absurd hbody (by simp [throw, throwThe, MonadExceptOf.throw])
      · -- the penalty is at the end of the text, its terms between commas
        injection hbody with htext
        have hterm : s ∈ penalty.terms.map Penalty.termText :=
          List.mem_map.mpr ⟨.str s, hs, rfl⟩
        have hj : c ∈ (",".intercalate ((penalty.weight.text ++ "@" ++ penalty.level.text)
            :: penalty.terms.map Penalty.termText)).toList :=
          mem_intercalate (List.mem_cons_of_mem _ hterm) hc
        have hpenalty : c ∈ penalty.text.toList := by
          rw [Penalty.text, String.toList_append, String.toList_append]
          exact List.mem_append_left _ (List.mem_append_right _ hj)
        rw [← htext, Constraint.around, String.toList_append]
        exact List.mem_append_right _ hpenalty

/-- **A statement is one line unless a penalty breaks it.** -/
theorem newline_not_mem_render_iff {d : Definition} (h : d.Tame '\n') {text : String}
    (hr : d.render = .ok text) : '\n' ∉ text.toList ↔ d.BareLacks '\n' := by
  constructor
  · intro hn s hs hc
    exact hn (mem_render_of_bare hr hs hc)
  · intro hs
    have hc : '\n' = '"' ∨ '\n' = '\n' := Or.inr rfl
    have halike := d.alike h.notRaw (h.over hc) (h.code_bare hc hs)
    rw [hr] at halike
    generalize d.emptied.render = frame at halike
    cases halike with
    | ok hw => exact hw.newline_not_mem fun _ hc => hc

end Definition

/-! ## Lines of a text -/

/-- Lines behind one another, each with its line feed. -/
def joined (lines : List String) : List Char := lines.flatMap fun line => line.toList ++ ['\n']

theorem joined_cons (line : String) (lines : List String) :
    joined (line :: lines) = line.toList ++ '\n' :: joined lines := by
  simp [joined]

theorem splitAt_joined {lines : List String} (h : ∀ line ∈ lines, '\n' ∉ line.toList) :
    Text.splitAt '\n' (joined lines) = lines.map String.toList ++ [[]] := by
  induction lines with
  | nil => rfl
  | cons line lines ih =>
      obtain ⟨hline, hrest⟩ := List.forall_mem_cons.mp h
      rw [joined_cons, Text.splitAt_append, Text.splitAt_of_not_mem hline, ih hrest, List.map_cons,
        List.cons_append, List.nil_append, List.cons_append]

theorem count_joined_cons (line : String) (lines : List String) :
    (joined (line :: lines)).count '\n'
      = line.toList.count '\n' + 1 + (joined lines).count '\n' := by
  rw [joined_cons, List.count_append, List.count_cons_self]
  omega

theorem length_le_count_joined (lines : List String) :
    lines.length ≤ (joined lines).count '\n' := by
  induction lines with
  | nil => exact Nat.zero_le _
  | cons line lines ih =>
      rw [count_joined_cons, List.length_cons]
      omega

/-- There is one line feed for each line exactly if the lines have none of their own. -/
theorem count_joined_eq_iff {lines : List String} :
    (joined lines).count '\n' = lines.length ↔ ∀ line ∈ lines, '\n' ∉ line.toList := by
  induction lines with
  | nil => simp [joined]
  | cons line lines ih =>
      have hle := length_le_count_joined lines
      rw [count_joined_cons, List.length_cons, List.forall_mem_cons, ← ih, ← List.count_eq_zero]
      omega

/-! ## The text of a program -/

namespace Program

theorem exists_of_render_eq_ok {program : Program} {text : String}
    (h : program.render = .ok text) : ∃ lines : List String, text.toList = joined lines
      ∧ List.Forall₂ (fun d line => Definition.render d = .ok line) program.definitions lines := by
  obtain ⟨lines, hd, ht⟩ := render_eq_ok_iff.mp h
  refine ⟨lines, ?_, hd⟩
  rw [← ht, String.toList_join]
  simp [joined, List.flatMap_map]

/-- As many line feeds as statements, and each statement that was added is the line at its place. -/
def OneLineEach (program : Program) (added : List Definition) (text : String) : Prop :=
  text.toList.count '\n' = program.size ∧ program.size = added.length
    ∧ ∀ (i : Nat) (hi : i < added.length), ∃ line : String,
        added[i].render = .ok line ∧ (Text.splitAt '\n' text.toList)[i]? = some line.toList

theorem oneLineEach_iff {program : Program} {lines : List String} {text : String}
    (ht : text.toList = joined lines)
    (hd : List.Forall₂ (fun d line => Definition.render d = .ok line) program.definitions lines) :
    program.OneLineEach program.definitions text ↔ ∀ line ∈ lines, '\n' ∉ line.toList := by
  have hcount : text.toList.count '\n' = program.size ↔ ∀ line ∈ lines, '\n' ∉ line.toList := by
    rw [ht, size, hd.length_eq]
    exact count_joined_eq_iff
  refine ⟨fun h => hcount.mp h.1, fun h => ⟨hcount.mpr h, rfl, fun i hi => ?_⟩⟩
  have hi' : i < lines.length := by
    rw [← hd.length_eq]
    exact hi
  refine ⟨lines[i], hd.get hi hi', ?_⟩
  rw [ht, splitAt_joined h, List.getElem?_append_left (by simpa using hi')]
  simp [hi']

/--
**One statement per line.** However a program of guesses, definitions and
assertions was put together, if it is written at all, its text has one line per
statement, in the order in which they were added, exactly if no string in the
terms of a penalty has a line feed. Any other string may have any contents.
-/
theorem lines_render_iff {insertions : List Insertion}
    (h : ∀ d ∈ insertions.flatMap Insertion.definitions, d.Tame '\n') {text : String}
    (hr : (ofInsertions insertions).render = .ok text) :
    (ofInsertions insertions).OneLineEach (insertions.flatMap Insertion.definitions) text
      ↔ ∀ d ∈ insertions.flatMap Insertion.definitions, d.BareLacks '\n' := by
  obtain ⟨lines, ht, hd⟩ := exists_of_render_eq_ok hr
  rw [← definitions_ofInsertions] at h ⊢
  rw [oneLineEach_iff ht hd]
  generalize (ofInsertions insertions).definitions = definitions at h hd
  clear ht
  -- statement by statement
  induction hd with
  | nil => simp
  | cons hrender _ ih =>
      obtain ⟨hfirst, hrest⟩ := List.forall_mem_cons.mp h
      rw [List.forall_mem_cons, List.forall_mem_cons, ih hrest,
        Definition.newline_not_mem_render_iff hfirst hrender]

/-- An atom with line feeds in its string. -/
def note : Atom := ⟨Definition.noteSchema, [.term (.str "\n.\n")]⟩

/-- A penalty whose weight has a line feed and whose terms have none. -/
def costRule : Definition :=
  .assert ⟨.soft ⟨.str "\n", .int 1, [.str "x y"]⟩, [.literal (.notAtom note)]⟩

/-- The note, then the rule. -/
def noteInsertions : List Insertion := [.addAtom note, .extend [costRule]]

theorem flatMap_noteInsertions : noteInsertions.flatMap Insertion.definitions
    = [.define (Disjunction.fact note), costRule] := rfl

theorem tame_note : ∀ d ∈ noteInsertions.flatMap Insertion.definitions, d.Tame '\n' := by
  have hb : Definition.noteSchema.Built := by decide
  have hfact : (Definition.define (Disjunction.fact note)).leaves
      = [.predicate Definition.noteSchema, .term (.str "\n.\n")] := rfl
  have hrule : costRule.leaves = [.predicate Definition.noteSchema, .term (.str "\n.\n"),
      .term (.str "\n"), .term (.int 1)] := rfl
  intro d hd
  rw [flatMap_noteInsertions] at hd
  rcases List.mem_pair.mp hd with rfl | rfl
  · refine ⟨rfl, ?_, ?_, by simp [Definition.bareTerms]⟩
    · simp [hfact, hb]
    · simp [hfact, Term.Lacks]
  · refine ⟨rfl, ?_, ?_, by simp [costRule, Definition.bareTerms, Term.Lacks]⟩
    · simp [hrule, hb]
    · simp [hrule, Term.Lacks]

theorem bareLacks_note : ∀ d ∈ noteInsertions.flatMap Insertion.definitions,
    d.BareLacks '\n' := by
  intro d hd s hs
  rw [flatMap_noteInsertions] at hd
  rcases List.mem_pair.mp hd with rfl | rfl
  · exact absurd hs (by simp [Definition.bareTerms])
  · have he : s = "x y" := by simpa [costRule, Definition.bareTerms] using hs
    rw [he]
    decide

/-- Two statements with line feeds in their strings, on two lines. -/
def noteText : String := "note(\"\\n.\\n\").\n :~ not note(\"\\n.\\n\"). [\"\\n\"@1,x y]\n"

/-- The note and the rule are a line each. -/
theorem lines_render_note :
    (ofInsertions noteInsertions).render = .ok noteText
      ∧ (ofInsertions noteInsertions).OneLineEach [.define (Disjunction.fact note), costRule]
        noteText := by
  have hr : (ofInsertions noteInsertions).render = .ok noteText := by decide +kernel
  exact ⟨hr, (lines_render_iff tame_note hr).mpr bareLacks_note⟩

/-- A penalty with a line feed among its terms. -/
def brokenRule : Definition :=
  .assert ⟨.soft ⟨.int 1, .int 1, [.str "x\ny"]⟩, [.literal (.notAtom ⟨⟨"a", []⟩, []⟩)]⟩

/-- **The penalty breaks the line.** No symbol or variable is to blame. -/
theorem not_oneLineEach_brokenRule :
    brokenRule.Tame '\n'
      ∧ (ofInsertions [.add brokenRule]).render = .ok " :~ not a. [1@1,x\ny]\n"
      ∧ ¬ (ofInsertions [.add brokenRule]).OneLineEach [brokenRule] " :~ not a. [1@1,x\ny]\n" := by
  have hleaves : brokenRule.leaves = [.predicate ⟨"a", []⟩, .term (.int 1), .term (.int 1)] := rfl
  have hb : Schema.Built ⟨"a", []⟩ := by decide
  refine ⟨⟨rfl, by simp [hleaves, hb], by simp [hleaves, Term.Lacks],
    by simp [brokenRule, Definition.bareTerms, Term.Lacks]⟩, by decide +kernel, ?_⟩
  intro h
  exact absurd h.1 (by decide)

end Program

end AnswerSet
