import AnswerSet.Program
import AnswerSet.Proofs.Decoding

/-!
# What keeps a program from being written

A statement is written if there is no fault in it. Faults sit in aggregates that
have no bound or count an empty list, in conditional literals without entries, and
in constraints whose body comes out as no text at all. They may sit anywhere in
the literals of heads and bodies, to any depth.

Well-formed literals are described twice: by rules, which say what has to be there
(`Literal.WellFormed`), and by the list of all faults in the order in which they
stand in the text (`Literal.faults`). A literal is well formed exactly if the list
is empty. Writing stops at the first fault, so **it succeeds if the list is empty
and otherwise fails with its head** (`Reports`). That is kept by going on after a
success, which is all that the functions for literals, clauses, rules and programs
do.
-/

namespace AnswerSet

/-! ## Well-formed literals -/

mutual

/-- Atoms and comparisons are well formed, and literals about well-formed aggregates. -/
inductive Literal.WellFormed : Literal → Prop
  | atom (polarity : Polarity) (atom : Atom) : Literal.WellFormed ⟨polarity, .atom atom⟩
  | comparison (polarity : Polarity) (left : Term) (operator : ComparisonOperator)
      (right : Term) : Literal.WellFormed ⟨polarity, .comparison left operator right⟩
  | aggregate (polarity : Polarity) {aggregate : Aggregate} (h : aggregate.WellFormed) :
      Literal.WellFormed ⟨polarity, .aggregate aggregate⟩

/-- An aggregate has a bound and a set that is not empty. -/
inductive Aggregate.WellFormed : Aggregate → Prop
  | literals (kind : AggregateKind) {literals : List Literal}
      (bound : ComparisonOperator × Term) (hne : literals ≠ [])
      (h : ∀ literal ∈ literals, literal.WellFormed) :
      Aggregate.WellFormed ⟨kind, .literals literals, some bound⟩
  | conditional (kind : AggregateKind) {conditional : ConditionalLiteral}
      (bound : ComparisonOperator × Term) (h : conditional.WellFormed) :
      Aggregate.WellFormed ⟨kind, .conditional conditional, some bound⟩

/-- A conditional literal has an entry, and the literals in its tuples and conditions are well
formed. -/
inductive ConditionalLiteral.WellFormed : ConditionalLiteral → Prop
  | intro {entries : List Entry} (hne : entries ≠ [])
      (helements : ∀ entry ∈ entries, ∀ literal, .literal literal ∈ entry.elements →
        literal.WellFormed)
      (hcondition : ∀ entry ∈ entries, ∀ literal ∈ entry.condition, literal.WellFormed) :
      ConditionalLiteral.WellFormed ⟨entries⟩

end

/-! ## Faults in the order of the text -/

mutual

/-- The faults of a literal, whatever it is built from. -/
def Literal.faults : Literal → List RenderError
  | ⟨_, target⟩ => target.faults

def Target.faults : Target → List RenderError
  | .atom _ => []
  | .comparison _ _ _ => []
  | .aggregate aggregate => aggregate.faults

/-- A missing bound comes before whatever is wrong with the set. -/
def Aggregate.faults : Aggregate → List RenderError
  | ⟨kind, source, none⟩ => .missingBound kind :: source.faults kind
  | ⟨kind, source, some _⟩ => source.faults kind

def Source.faults (kind : AggregateKind) : Source → List RenderError
  | .literals [] => [.emptyLiteralSet kind]
  | .literals (literal :: literals) => literal.faults ++ Literal.faultsAll literals
  | .conditional conditional => conditional.faults

def ConditionalLiteral.faults : ConditionalLiteral → List RenderError
  | ⟨[]⟩ => [.emptyConditional]
  | ⟨entry :: entries⟩ => entry.faults ++ Entry.faultsAll entries

/-- The tuple comes before its condition. -/
def Entry.faults : Entry → List RenderError
  | ⟨elements, condition⟩ => Element.faultsAll elements ++ Literal.faultsAll condition

def Element.faults : Element → List RenderError
  | .term _ => []
  | .literal literal => literal.faults

def Literal.faultsAll : List Literal → List RenderError
  | [] => []
  | literal :: literals => literal.faults ++ Literal.faultsAll literals

def Entry.faultsAll : List Entry → List RenderError
  | [] => []
  | entry :: entries => entry.faults ++ Entry.faultsAll entries

def Element.faultsAll : List Element → List RenderError
  | [] => []
  | element :: elements => element.faults ++ Element.faultsAll elements

end

/-! ## No faults, well formed -/

mutual

theorem Literal.faults_eq_nil_iff : ∀ literal : Literal,
    literal.faults = [] ↔ literal.WellFormed
  | ⟨polarity, .atom atom⟩ => ⟨fun _ => .atom polarity atom, fun _ => rfl⟩
  | ⟨polarity, .comparison left operator right⟩ =>
      ⟨fun _ => .comparison polarity left operator right, fun _ => rfl⟩
  | ⟨polarity, .aggregate aggregate⟩ => by
      rw [Literal.faults, Target.faults, Aggregate.faults_eq_nil_iff aggregate]
      refine ⟨.aggregate polarity, fun h => ?_⟩
      cases h with
      | aggregate _ h => exact h

theorem Aggregate.faults_eq_nil_iff : ∀ aggregate : Aggregate,
    aggregate.faults = [] ↔ aggregate.WellFormed
  | ⟨kind, source, none⟩ => by
      rw [Aggregate.faults]
      refine ⟨fun h => absurd h (List.cons_ne_nil _ _), fun h => ?_⟩
      cases h
  | ⟨kind, .literals [], some bound⟩ => by
      rw [Aggregate.faults, Source.faults]
      refine ⟨fun h => absurd h (List.cons_ne_nil _ _), fun h => ?_⟩
      cases h with
      | literals _ _ hne _ => exact absurd rfl hne
  | ⟨kind, .literals (literal :: literals), some bound⟩ => by
      rw [Aggregate.faults, Source.faults, List.append_eq_nil_iff,
        Literal.faults_eq_nil_iff literal, Literal.faultsAll_eq_nil_iff literals,
        ← List.forall_mem_cons]
      refine ⟨.literals kind bound (List.cons_ne_nil _ _), fun h => ?_⟩
      cases h with
      | literals _ _ _ h => exact h
  | ⟨kind, .conditional conditional, some bound⟩ => by
      rw [Aggregate.faults, Source.faults, ConditionalLiteral.faults_eq_nil_iff conditional]
      refine ⟨.conditional kind bound, fun h => ?_⟩
      cases h with
      | conditional _ _ h => exact h

theorem ConditionalLiteral.faults_eq_nil_iff : ∀ conditional : ConditionalLiteral,
    conditional.faults = [] ↔ conditional.WellFormed
  | ⟨[]⟩ => by
      rw [ConditionalLiteral.faults]
      refine ⟨fun h => absurd h (List.cons_ne_nil _ _), fun h => ?_⟩
      cases h with
      | intro hne _ _ => exact absurd rfl hne
  | ⟨entry :: entries⟩ => by
      rw [ConditionalLiteral.faults, List.append_eq_nil_iff, Entry.faults_eq_nil_iff entry,
        Entry.faultsAll_eq_nil_iff entries]
      constructor
      · rintro ⟨⟨he, hc⟩, hrest⟩
        refine .intro (List.cons_ne_nil _ _) (List.forall_mem_cons.mpr ⟨he, ?_⟩)
          (List.forall_mem_cons.mpr ⟨hc, ?_⟩)
        · exact fun other hm => (hrest other hm).1
        · exact fun other hm => (hrest other hm).2
      · intro h
        cases h with
        | intro _ helements hcondition =>
            obtain ⟨he, hes⟩ := List.forall_mem_cons.mp helements
            obtain ⟨hc, hcs⟩ := List.forall_mem_cons.mp hcondition
            exact ⟨⟨he, hc⟩, fun other hm => ⟨hes other hm, hcs other hm⟩⟩

theorem Entry.faults_eq_nil_iff : ∀ entry : Entry, entry.faults = [] ↔
    (∀ literal, .literal literal ∈ entry.elements → literal.WellFormed)
      ∧ ∀ literal ∈ entry.condition, literal.WellFormed
  | ⟨elements, condition⟩ => by
      rw [Entry.faults, List.append_eq_nil_iff, Element.faultsAll_eq_nil_iff elements,
        Literal.faultsAll_eq_nil_iff condition]

theorem Literal.faultsAll_eq_nil_iff : ∀ literals : List Literal,
    Literal.faultsAll literals = [] ↔ ∀ literal ∈ literals, literal.WellFormed
  | [] => ⟨fun _ _ hm => absurd hm (List.not_mem_nil), fun _ => rfl⟩
  | literal :: literals => by
      rw [Literal.faultsAll, List.append_eq_nil_iff, Literal.faults_eq_nil_iff literal,
        Literal.faultsAll_eq_nil_iff literals, List.forall_mem_cons]

theorem Entry.faultsAll_eq_nil_iff : ∀ entries : List Entry,
    Entry.faultsAll entries = [] ↔ ∀ entry ∈ entries,
      (∀ literal, .literal literal ∈ entry.elements → literal.WellFormed)
        ∧ ∀ literal ∈ entry.condition, literal.WellFormed
  | [] => ⟨fun _ _ hm => absurd hm (List.not_mem_nil), fun _ => rfl⟩
  | entry :: entries => by
      rw [Entry.faultsAll, List.append_eq_nil_iff, Entry.faults_eq_nil_iff entry,
        Entry.faultsAll_eq_nil_iff entries, List.forall_mem_cons]

theorem Element.faultsAll_eq_nil_iff : ∀ elements : List Element,
    Element.faultsAll elements = [] ↔
      ∀ literal, .literal literal ∈ elements → literal.WellFormed
  | [] => ⟨fun _ _ hm => absurd hm (List.not_mem_nil), fun _ => rfl⟩
  | .term term :: elements => by
      rw [Element.faultsAll, Element.faults, List.nil_append,
        Element.faultsAll_eq_nil_iff elements]
      simp
  | .literal literal :: elements => by
      rw [Element.faultsAll, Element.faults, List.append_eq_nil_iff,
        Literal.faults_eq_nil_iff literal, Element.faultsAll_eq_nil_iff elements]
      simp [or_imp, forall_and]

end

/-! ## Results and faults -/

/-- There is a result if there are no faults, and otherwise the first fault is the error. -/
inductive Reports {α : Type} : Except RenderError α → List RenderError → Prop
  | ok (a : α) : Reports (.ok a) []
  | error (e : RenderError) (later : List RenderError) : Reports (.error e) (e :: later)

section Reports

variable {α β γ : Type} {x : Except RenderError α} {y : Except RenderError β}
  {es es' : List RenderError}

/-- **Going on after a success.** Later faults come behind the earlier ones. -/
theorem Reports.bind {f : α → Except RenderError β} (h : Reports x es)
    (hf : ∀ a, x = .ok a → Reports (f a) es') : Reports (x.bind f) (es ++ es') := by
  cases h with
  | ok a => exact hf a rfl
  | error e later => exact .error e (later ++ es')

theorem Reports.map (h : Reports x es) (f : α → β) :
    Reports (x.bind fun a => .ok (f a)) es := by
  have hb := h.bind fun a _ => Reports.ok (f a)
  rwa [List.append_nil] at hb

/-- One after the other. -/
theorem Reports.map₂ (h : Reports x es) (h' : Reports y es') (f : α → β → γ) :
    Reports (x.bind fun a => y.bind fun b => .ok (f a b)) (es ++ es') :=
  h.bind fun a _ => h'.map (f a)

theorem Reports.mapM {f : α → Except RenderError β} {faults : α → List RenderError}
    (h : ∀ a, Reports (f a) (faults a)) (as : List α) :
    Reports (as.mapM f) (as.flatMap faults) := by
  induction as with
  | nil => exact .ok []
  | cons a as ih =>
      rw [List.mapM_cons, List.flatMap_cons]
      exact (h a).map₂ ih (· :: ·)

theorem Reports.exists_ok_iff (h : Reports x es) : (∃ a, x = .ok a) ↔ es = [] := by
  cases h with
  | ok a => simp
  | error e later => simp

theorem Reports.eq_error_iff (h : Reports x es) {e : RenderError} :
    x = .error e ↔ es.head? = some e := by
  cases h with
  | ok a => simp
  | error e' later => simp

end Reports

/-! ## Writing literals -/

mutual

theorem Literal.reports : ∀ literal : Literal, Reports literal.render literal.faults
  | ⟨polarity, target⟩ => by
      rw [Literal.render, Literal.faults]
      exact (Target.reports target).map (polarity.marker ++ ·)

theorem Target.reports : ∀ target : Target, Reports target.render target.faults
  | .atom _ => .ok _
  | .comparison _ _ _ => .ok _
  | .aggregate aggregate => Aggregate.reports aggregate

theorem Aggregate.reports : ∀ aggregate : Aggregate, Reports aggregate.render aggregate.faults
  | ⟨_, _, none⟩ => .error _ _
  | ⟨kind, source, some (operator, bound)⟩ => by
      rw [Aggregate.render, Aggregate.faults]
      exact (Source.reports kind source).map (aggregateText kind · operator bound)

theorem Source.reports (kind : AggregateKind) : ∀ source : Source,
    Reports (source.render kind) (source.faults kind)
  | .literals [] => .error _ _
  | .literals (literal :: literals) =>
      (Literal.reports literal).map₂ (Literal.reportsAll literals)
        fun first rest => "; ".intercalate (first :: rest)
  | .conditional conditional => ConditionalLiteral.reports conditional

theorem ConditionalLiteral.reports : ∀ conditional : ConditionalLiteral,
    Reports conditional.render conditional.faults
  | ⟨[]⟩ => .error _ _
  | ⟨entry :: entries⟩ =>
      (Entry.reports entry).map₂ (Entry.reportsAll entries)
        fun first rest => "; ".intercalate (first :: rest)

theorem Entry.reports : ∀ entry : Entry, Reports entry.render entry.faults
  | ⟨elements, condition⟩ =>
      (Element.reportsAll elements).map₂ (Literal.reportsAll condition) entryText

theorem Element.reports : ∀ element : Element, Reports element.render element.faults
  | .term _ => .ok _
  | .literal literal => Literal.reports literal

theorem Literal.reportsAll : ∀ literals : List Literal,
    Reports (Literal.renderAll literals) (Literal.faultsAll literals)
  | [] => .ok _
  | literal :: literals =>
      (Literal.reports literal).map₂ (Literal.reportsAll literals) (· :: ·)

theorem Entry.reportsAll : ∀ entries : List Entry,
    Reports (Entry.renderAll entries) (Entry.faultsAll entries)
  | [] => .ok _
  | entry :: entries => (Entry.reports entry).map₂ (Entry.reportsAll entries) (· :: ·)

theorem Element.reportsAll : ∀ elements : List Element,
    Reports (Element.renderAll elements) (Element.faultsAll elements)
  | [] => .ok _
  | element :: elements =>
      (Element.reports element).map₂ (Element.reportsAll elements) (· :: ·)

end

/-! ## Writing statements -/

/-- The literal or conditional literal is well formed. -/
def Clause.WellFormed : Clause → Prop
  | .literal l => l.WellFormed
  | .conditional c => c.WellFormed

def Clause.faults : Clause → List RenderError
  | .literal l => l.faults
  | .conditional c => c.faults

theorem Clause.faults_eq_nil_iff (clause : Clause) : clause.faults = [] ↔ clause.WellFormed := by
  cases clause with
  | literal l => exact l.faults_eq_nil_iff
  | conditional c => exact c.faults_eq_nil_iff

theorem Clause.reports (clause : Clause) : Reports clause.render clause.faults := by
  cases clause with
  | literal l => exact l.reports
  | conditional c => exact c.reports

theorem reports_clauses (separator : String) (clauses : List Clause) :
    Reports (renderClauses separator clauses) (clauses.flatMap Clause.faults) :=
  (Reports.mapM Clause.reports clauses).map separator.intercalate

/-- What a choice picks from, one by one. -/
def ChoiceSet.clauses : ChoiceSet → List Clause
  | .literal l => [.literal l]
  | .literals ls => ls.map .literal
  | .conditional c => [.conditional c]

theorem ChoiceSet.reports (set : ChoiceSet) :
    Reports set.render (set.clauses.flatMap Clause.faults) := by
  cases set with
  | literal l =>
      rw [clauses, List.flatMap_singleton]
      exact l.reports
  | literals ls =>
      rw [clauses, List.flatMap_map]
      exact (Reports.mapM Literal.reports ls).map ";".intercalate
  | conditional c =>
      rw [clauses, List.flatMap_singleton]
      exact c.reports

/-- Every clause of the body is written and the body is no text. -/
def Rule.IsSilent (rule : Rule Constraint) : Prop :=
  ∃ texts : List String, List.Forall₂ (fun clause text => clause.render = .ok text) rule.body texts
    ∧ "; ".intercalate texts = ""

/-- The same as a check. -/
def Rule.isSilent (rule : Rule Constraint) : Bool :=
  match renderClauses "; " rule.body with
  | .ok text => text.isEmpty
  | .error _ => false

/-- What is put together from the results of a list. -/
theorem mapM_bind_eq_ok_iff {ε α β γ : Type} {f : α → Except ε β} {g : List β → γ} {xs : List α}
    {z : γ} : ((xs.mapM f).bind fun ys => .ok (g ys)) = .ok z ↔
      ∃ ys, List.Forall₂ (fun x y => f x = .ok y) xs ys ∧ g ys = z := by
  refine Except.bind_eq_ok.trans (exists_congr fun ys => and_congr mapM_eq_ok_iff ?_)
  exact ⟨fun h => by injection h, congrArg Except.ok⟩

theorem renderClauses_eq_ok_iff {separator text : String} {clauses : List Clause} :
    renderClauses separator clauses = .ok text ↔
      ∃ texts : List String,
        List.Forall₂ (fun clause text => clause.render = .ok text) clauses texts
          ∧ separator.intercalate texts = text :=
  mapM_bind_eq_ok_iff

theorem Rule.isSilent_iff {rule : Rule Constraint} : rule.isSilent = true ↔ rule.IsSilent := by
  refine Iff.trans ?_ renderClauses_eq_ok_iff
  unfold isSilent
  cases renderClauses "; " rule.body with
  | ok text => simp
  | error e => simp

namespace Definition

/-- The literals and conditional literals of the head and then of the body. -/
def clauses : Definition → List Clause
  | .guess rule => rule.head.set.clauses ++ rule.body
  | .define rule => rule.head.heads ++ rule.body
  | .assert rule => rule.body
  | .raw _ => []

/-- The faults of the clauses, and of a constraint as a whole if it says nothing. -/
def faults : Definition → List RenderError
  | .assert rule =>
    rule.body.flatMap Clause.faults ++ if rule.isSilent then [.emptyBody] else []
  | d => d.clauses.flatMap Clause.faults

theorem faults_eq_nil_iff {d : Definition} : d.faults = [] ↔
    (∀ clause ∈ d.clauses, clause.WellFormed) ∧ ∀ rule, d = .assert rule → ¬ rule.IsSilent := by
  have hclauses : ∀ clauses : List Clause, clauses.flatMap Clause.faults = [] ↔
      ∀ clause ∈ clauses, clause.WellFormed := fun clauses => by
    rw [List.flatMap_eq_nil_iff]
    exact forall₂_congr fun clause _ => clause.faults_eq_nil_iff
  cases d with
  | guess rule => simp [faults, hclauses]
  | define rule => simp [faults, hclauses]
  | assert rule => simp [faults, hclauses, clauses, ← Rule.isSilent_iff]
  | raw text => simp [faults, hclauses]

theorem reports (d : Definition) : Reports d.render d.faults := by
  cases d with
  | guess rule =>
      rw [faults, clauses, List.flatMap_append]
      · exact ((rule.head.set.reports.map _).bind fun head _ =>
          (reports_clauses "; " rule.body).map (ruleText head))
      · exact fun _ h => by cases h
  | define rule =>
      rw [faults, clauses, List.flatMap_append]
      · exact (reports_clauses " | " rule.head.heads).bind fun head _ =>
          (reports_clauses "; " rule.body).map (ruleText head)
      · exact fun _ h => by cases h
  | assert rule =>
      rw [faults]
      refine (reports_clauses "; " rule.body).bind fun body hb => ?_
      rw [Rule.isSilent, hb]
      dsimp only
      split
      · exact .error _ _
      · exact .ok _
  | raw text => exact .ok _

end Definition

namespace Program

/-- The faults of the statements in order. -/
def faults (program : Program) : List RenderError :=
  program.definitions.flatMap Definition.faults

theorem reports (program : Program) : Reports program.render program.faults :=
  (Reports.mapM Definition.reports program.definitions).map _

theorem render_eq_ok_iff {program : Program} {text : String} : program.render = .ok text ↔
    ∃ lines : List String,
      List.Forall₂ (fun d line => Definition.render d = .ok line) program.definitions lines
        ∧ String.join (lines.map (· ++ "\n")) = text :=
  mapM_bind_eq_ok_iff

/--
**Writing fails exactly on faults, with the first one.** A program is written if
and only if all literals and conditional literals in heads and bodies are well
formed and no constraint comes out with a body of no text. The text consists of
the statements in order, each with a line feed behind it, program text trimmed. A
program that is not written has faults, and the error is the first of them: by
statement, head before body, from left to right, a missing bound before the set, a
tuple before its condition, and the empty body of a constraint behind its clauses.
-/
theorem render_faults (program : Program) :
    ((∃ text, program.render = .ok text) ↔
      (∀ d ∈ program.definitions, ∀ clause ∈ d.clauses, clause.WellFormed)
        ∧ ∀ rule, .assert rule ∈ program.definitions → ¬ rule.IsSilent)
    ∧ (∀ text, program.render = .ok text ↔ ∃ lines : List String,
        List.Forall₂ (fun d line => Definition.render d = .ok line) program.definitions lines
          ∧ String.join (lines.map (· ++ "\n")) = text)
    ∧ (∀ text, Definition.render (.raw text) = .ok (Text.strip text))
    ∧ ∀ e, program.render = .error e ↔ program.faults.head? = some e := by
  refine ⟨?_, fun _ => render_eq_ok_iff, fun _ => rfl, fun _ => program.reports.eq_error_iff⟩
  rw [program.reports.exists_ok_iff, faults, List.flatMap_eq_nil_iff]
  constructor
  · intro h
    refine ⟨fun d hd => (Definition.faults_eq_nil_iff.mp (h d hd)).1, fun rule hm => ?_⟩
    exact (Definition.faults_eq_nil_iff.mp (h _ hm)).2 rule rfl
  · rintro ⟨hclauses, hsilent⟩ d hd
    refine Definition.faults_eq_nil_iff.mpr ⟨hclauses d hd, ?_⟩
    rintro rule rfl
    exact hsilent rule hd

/-- The bound is looked at before the set, and an entry may come out as no text. -/
example :
    faults ⟨[.define ⟨⟨[.literal (.ofAggregate ⟨.sum, .conditional ⟨[]⟩, none⟩)]⟩, []⟩,
        .assert ⟨.hard, [.conditional ⟨[⟨[], []⟩]⟩]⟩]⟩
      = [.missingBound .sum, .emptyConditional, .emptyBody] := rfl

end Program

end AnswerSet
