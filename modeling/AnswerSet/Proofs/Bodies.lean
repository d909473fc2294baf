import AnswerSet.Proofs.Leaves
import AnswerSet.Proofs.Requirements
import AnswerSet.Proofs.RoundTrip

/-!
# A statement keeps its body

Whether the arrow of a statement is written is decided by the text of the body, not
by the conditions that are in it. So it matters which clauses come out as no text.
Atoms begin with their predicate, comparisons and aggregates have symbols of their
own, and wherever two things stand side by side there is a separator between them.
What is left is a conditional literal with one entry that has neither a condition
nor anything to show: no element at all, or the symbol without a name
(`Clause.IsBlank`).

**A statement keeps its body unless such a clause is all of it**, and then it is
written as if it had no conditions, or not at all if it is a constraint
(`Definition.keeps_body_iff`).
-/

namespace AnswerSet

/-! ## Texts that are empty -/

/-- Texts behind one another are empty only if there is nothing to separate. -/
theorem intercalate_eq_empty_iff {separator : String} (hs : separator ≠ "")
    {texts : List String} : separator.intercalate texts = "" ↔ texts = [] ∨ texts = [""] := by
  match texts with
  | [] => simp
  | [text] => simp
  | first :: next :: rest =>
      rw [String.intercalate_cons_cons]
      simp [hs]

/-- The same for what the texts are written from. -/
theorem exists_intercalate_eq_empty_iff {α : Type} {R : α → String → Prop} {separator : String}
    (hs : separator ≠ "") {xs : List α} :
    (∃ texts, List.Forall₂ R xs texts ∧ separator.intercalate texts = "") ↔
      xs = [] ∨ ∃ x, xs = [x] ∧ R x "" := by
  constructor
  · intro h
    obtain ⟨texts, hall, he⟩ := h
    rcases (intercalate_eq_empty_iff hs).mp he with rfl | rfl
    · cases hall
      exact Or.inl rfl
    · cases hall with
      | cons hx hrest =>
          cases hrest
          exact Or.inr ⟨_, rfl, hx⟩
  · intro h
    rcases h with rfl | ⟨x, rfl, hx⟩
    · exact ⟨[], .nil, rfl⟩
    · exact ⟨[""], .cons hx .nil, by simp⟩

/-! ## Clauses that come out as no text -/

/-- An atom is of a built schema and a variable has a name, as all that are made have. -/
def Leaf.IsNamed : Leaf → Prop
  | .predicate schema => schema.Built
  | .term (.unbound v) => v.text ≠ ""
  | .term _ => True

/-- The clause shows nothing: it has one entry, without a condition, and in it no element or only
the symbol without a name. -/
inductive Clause.IsBlank : Clause → Prop
  | noElement : IsBlank (.conditional ⟨[⟨[], []⟩]⟩)
  | noName : IsBlank (.conditional ⟨[⟨[.term (.symbol "")], []⟩]⟩)

theorem Term.text_eq_empty_iff {t : Term} (h : (Leaf.term t).IsNamed) :
    t.text = "" ↔ t = .symbol "" := by
  cases t with
  | int n =>
      have hne : (Text.wordText n).toList ≠ [] := wordText_ne_nil n
      refine iff_of_false (fun he => hne ?_) (by simp)
      rw [← Term.text, he]
      rfl
  | str s => simp [Term.text, Text.quote]
  | bool b => cases b <;> simp [Term.text]
  | symbol name => simp [Term.text]
  | unbound v => exact iff_of_false h (by simp)

theorem Atom.text_ne_empty {atom : Atom} (h : atom.schema.Built) : atom.text ≠ "" := by
  rw [Atom.text, Atom.spelled_eq]
  exact application_ne_empty h.name _

theorem Target.render_ne_empty {target : Target} (h : ∀ leaf ∈ target.leaves, leaf.IsNamed) :
    target.render ≠ .ok "" := by
  intro he
  match target with
  | .atom ⟨schema, values⟩ =>
      have hb : schema.Built := h (.predicate schema) (by simp [Target.leaves, Atom.leaves])
      injection he with he
      exact Atom.text_ne_empty hb he
  | .comparison left operator right =>
      injection he with he
      simp at he
  | .aggregate ⟨kind, source, none⟩ => cases he
  | .aggregate ⟨kind, source, some (operator, bound)⟩ =>
      obtain ⟨set, _, hset⟩ := Except.bind_eq_ok.mp he
      injection hset with hset
      simp [aggregateText] at hset

/-- **A literal comes out as text.** -/
theorem Literal.render_ne_empty {l : Literal} (h : ∀ leaf ∈ l.leaves, leaf.IsNamed) :
    l.render ≠ .ok "" := by
  obtain ⟨polarity, target⟩ := l
  rw [Literal.leaves] at h
  have htarget := Target.render_ne_empty h
  rw [Literal.render_eq]
  intro he
  cases hr : target.render with
  | error e => simp [hr, Except.map] at he
  | ok text =>
      have hboth : polarity.marker = "" ∧ text = "" := by simpa [hr, Except.map] using he
      exact htarget (by rw [hr, hboth.2])

theorem Element.render_eq_empty_iff {element : Element}
    (h : ∀ leaf ∈ element.leaves, leaf.IsNamed) :
    element.render = .ok "" ↔ element = .term (.symbol "") := by
  cases element with
  | term t =>
      have ht : t.text = "" ↔ t = .symbol "" :=
        Term.text_eq_empty_iff (h (.term t) (by simp [Element.leaves]))
      rw [Element.render]
      simp [ht]
  | literal l =>
      rw [Element.leaves] at h
      rw [Element.render]
      exact iff_of_false (Literal.render_ne_empty h) (by simp)

theorem Entry.render_eq_ok_iff {entry : Entry} {text : String} : entry.render = .ok text ↔
    ∃ tuple condition : List String,
      List.Forall₂ (fun element text => element.render = .ok text) entry.elements tuple
        ∧ List.Forall₂ (fun l text => l.render = .ok text) entry.condition condition
        ∧ entryText tuple condition = text := by
  obtain ⟨elements, condition⟩ := entry
  rw [Entry.render, Element.renderAll_eq_mapM, Literal.renderAll_eq_mapM]
  refine Except.bind_eq_ok.trans ?_
  constructor
  · intro h
    obtain ⟨tuple, htuple, h⟩ := h
    obtain ⟨texts, htexts, h⟩ := mapM_bind_eq_ok_iff.mp h
    exact ⟨tuple, texts, mapM_eq_ok_iff.mp htuple, htexts, h⟩
  · intro h
    obtain ⟨tuple, texts, htuple, htexts, h⟩ := h
    exact ⟨tuple, mapM_eq_ok_iff.mpr htuple, mapM_bind_eq_ok_iff.mpr ⟨texts, htexts, h⟩⟩

/-- A condition is set off from its tuple, so it shows. -/
theorem entryText_eq_empty_iff {tuple condition : List String} :
    entryText tuple condition = "" ↔ ",".intercalate tuple = "" ∧ condition = [] := by
  cases condition with
  | nil => simp [entryText]
  | cons first rest => simp [entryText]

theorem Entry.render_eq_empty_iff {entry : Entry}
    (h : ∀ leaf ∈ entry.leaves, leaf.IsNamed) : entry.render = .ok "" ↔
      entry.condition = [] ∧ (entry.elements = [] ∨ entry.elements = [.term (.symbol "")]) := by
  obtain ⟨elements, condition⟩ := entry
  have hblank : (∃ tuple, List.Forall₂ (fun element text => Element.render element = .ok text)
      elements tuple ∧ ",".intercalate tuple = "") ↔
        elements = [] ∨ elements = [.term (.symbol "")] := by
    rw [exists_intercalate_eq_empty_iff (by decide)]
    refine or_congr_right ⟨fun hone => ?_, fun hone => ?_⟩
    · obtain ⟨element, rfl, hr⟩ := hone
      have hleaves : ∀ leaf ∈ element.leaves, leaf.IsNamed := fun leaf hl =>
        h leaf (by simp [Entry.leaves, Element.leavesAll, hl])
      rw [(Element.render_eq_empty_iff hleaves).mp hr]
    · exact ⟨_, hone, rfl⟩
  rw [Entry.render_eq_ok_iff, ← hblank]
  constructor
  · intro hr
    obtain ⟨tuple, texts, htuple, htexts, he⟩ := hr
    obtain ⟨hempty, rfl⟩ := entryText_eq_empty_iff.mp he
    exact ⟨List.forall₂_nil_right_iff.mp htexts, tuple, htuple, hempty⟩
  · intro hr
    obtain ⟨rfl, tuple, htuple, hempty⟩ := hr
    exact ⟨tuple, [], htuple, .nil, entryText_eq_empty_iff.mpr ⟨hempty, rfl⟩⟩

theorem ConditionalLiteral.render_eq_ok_iff {entries : List Entry} {text : String} :
    ConditionalLiteral.render ⟨entries⟩ = .ok text ↔ entries ≠ [] ∧ ∃ texts : List String,
      List.Forall₂ (fun entry text => entry.render = .ok text) entries texts
        ∧ "; ".intercalate texts = text := by
  cases entries with
  | nil => simp [ConditionalLiteral.render]
  | cons entry entries =>
      have hmap : ConditionalLiteral.render ⟨entry :: entries⟩
          = ((entry :: entries).mapM Entry.render).bind
            fun texts => .ok ("; ".intercalate texts) := by
        rw [ConditionalLiteral.render, Entry.renderAll_eq_mapM, List.mapM_cons]
        cases entry.render with
        | error e => rfl
        | ok first => cases entries.mapM Entry.render <;> rfl
      rw [hmap, mapM_bind_eq_ok_iff]
      simp

/-- **Only blank clauses come out as no text.** -/
theorem Clause.render_eq_empty_iff {clause : Clause} (h : ∀ leaf ∈ clause.leaves, leaf.IsNamed) :
    clause.render = .ok "" ↔ clause.IsBlank := by
  cases clause with
  | literal l => exact iff_of_false (Literal.render_ne_empty h) (fun hb => by cases hb)
  | conditional c =>
      obtain ⟨entries⟩ := c
      rw [Clause.render, ConditionalLiteral.render_eq_ok_iff,
        exists_intercalate_eq_empty_iff (by decide)]
      constructor
      · intro hr
        obtain ⟨hne, rfl | ⟨entry, rfl, hentry⟩⟩ := hr
        · exact absurd rfl hne
        · have hleaves : ∀ leaf ∈ entry.leaves, leaf.IsNamed := fun leaf hl =>
            h leaf (by simp [Clause.leaves, ConditionalLiteral.leaves, Entry.leavesAll, hl])
          obtain ⟨elements, condition⟩ := entry
          obtain ⟨hcondition, helements⟩ := (Entry.render_eq_empty_iff hleaves).mp hentry
          dsimp only at hcondition helements
          rw [hcondition]
          rcases helements with rfl | rfl
          · exact .noElement
          · exact .noName
      · intro hb
        cases hb with
        | noElement => exact ⟨List.cons_ne_nil _ _, Or.inr ⟨_, rfl, rfl⟩⟩
        | noName => exact ⟨List.cons_ne_nil _ _, Or.inr ⟨_, rfl, rfl⟩⟩

/-! ## Heads, bodies and what is between them -/

namespace Definition

/-- The conditions of a statement. Program text has none. -/
def body : Definition → List Clause
  | .guess rule => rule.body
  | .define rule => rule.body
  | .assert rule => rule.body
  | .raw _ => []

/-- The text of the head, which is none for constraints. -/
def headText : Definition → Except RenderError String
  | .guess rule => rule.head.render
  | .define rule => rule.head.render
  | .assert _ => .ok ""
  | .raw _ => .ok ""

/-- The statement with its body behind the head, between the arrow and what closes it. -/
def withBody (head body : String) : Definition → String
  | .assert rule => head ++ Constraint.textOf rule.head.penalty? body
  | _ => head ++ " :- " ++ body ++ "."

/-- What is written of a statement without conditions. Constraints are refused. -/
def withoutBody (head : String) : Definition → Except RenderError String
  | .assert _ => .error .emptyBody
  | _ => .ok (head ++ ".")

/-- A blank clause is all that the statement has for a body. -/
def BodyIsBlank (d : Definition) : Prop := ∃ clause, d.body = [clause] ∧ clause.IsBlank

section Body

variable {d : Definition} {head body : String} {texts : List String}

theorem renderRule_eq {clauses : List Clause} (hb : renderClauses "; " clauses = .ok body) :
    renderRule (.ok head) clauses = .ok (if body = "" then head ++ "."
      else head ++ " :- " ++ body ++ ".") := by
  have hrule : renderRule (.ok head) clauses = .ok (ruleText head body) := by
    unfold renderRule
    rw [hb]
    rfl
  rw [hrule, ruleText]
  by_cases he : body = ""
  · simp [he]
  · have hempty : body.isEmpty = false := by simpa using he
    simp [hempty, he]

theorem renderConstraint_eq {rule : Rule Constraint}
    (hb : renderClauses "; " rule.body = .ok body) : rule.renderConstraint =
      if body = "" then .error .emptyBody
      else .ok (Constraint.textOf rule.head.penalty? body) := by
  unfold Rule.renderConstraint
  rw [hb]
  by_cases he : body = ""
  · rw [if_pos he, he]
    rfl
  · have hpenalty : Constraint.ofPenalty rule.head.penalty? = rule.head := by
      cases rule.head <;> rfl
    have hempty : ¬ body.isEmpty = true := by simpa using he
    rw [if_neg he, ← Constraint.around_ofPenalty _ he, hpenalty]
    exact if_neg hempty

/-- **The body is written if it is any text**, whatever the clauses. -/
theorem render_of_body (hne : d.body ≠ []) (hh : d.headText = .ok head)
    (hb : renderClauses "; " d.body = .ok body) :
    d.render = if body = "" then d.withoutBody head else .ok (d.withBody head body) := by
  cases d with
  | raw text => exact absurd rfl hne
  | guess rule =>
      have hrule : Definition.render (.guess rule) = renderRule rule.head.render rule.body := rfl
      rw [headText] at hh
      rw [Definition.body] at hb
      rw [hrule, hh, renderRule_eq hb]
      exact apply_ite Except.ok _ _ _
  | define rule =>
      have hrule : Definition.render (.define rule) = renderRule rule.head.render rule.body := rfl
      rw [headText] at hh
      rw [Definition.body] at hb
      rw [hrule, hh, renderRule_eq hb]
      exact apply_ite Except.ok _ _ _
  | assert rule =>
      injection hh with hh
      rw [← hh]
      simp only [withBody, String.empty_append]
      exact renderConstraint_eq hb

theorem withBody_ne_withoutBody (d : Definition) (head body : String) :
    .ok (d.withBody head body) ≠ d.withoutBody head := by
  intro he
  have hne : ¬ head ++ " :- " ++ body ++ "." = head ++ "." := by
    rw [String.append_assoc, String.append_assoc, String.append_right_inj]
    intro heq
    have hlist := congrArg String.toList heq
    simp at hlist
  cases d with
  | assert rule => cases he
  | guess rule => exact hne (Except.ok.inj he)
  | define rule => exact hne (Except.ok.inj he)
  | raw text => exact hne (Except.ok.inj he)

/-- The text of the body is none exactly if the body is blank. -/
theorem bodyIsBlank_iff (hn : ∀ clause ∈ d.body, ∀ leaf ∈ clause.leaves, leaf.IsNamed)
    (hne : d.body ≠ []) (hb : renderClauses "; " d.body = .ok body) :
    body = "" ↔ d.BodyIsBlank := by
  have hempty : body = "" ↔ renderClauses "; " d.body = .ok "" := by simp [hb]
  rw [hempty, renderClauses_eq_ok_iff, exists_intercalate_eq_empty_iff (by decide),
    or_iff_right hne]
  constructor
  · intro h
    obtain ⟨clause, hclause, hr⟩ := h
    have hleaves := hn clause (by simp [hclause])
    exact ⟨clause, hclause, (Clause.render_eq_empty_iff hleaves).mp hr⟩
  · intro h
    obtain ⟨clause, hclause, hblank⟩ := h
    have hleaves := hn clause (by simp [hclause])
    exact ⟨clause, hclause, (Clause.render_eq_empty_iff hleaves).mpr hblank⟩

/--
**A statement keeps its body unless it is a single blank clause.** Let a guess, a
definition or an assertion have conditions, and let its head and all of its
conditions be written. Then the statement is written as its head, an arrow, the
conditions in order and what closes it, if and only if the conditions are not just
one blank clause; and if they are, it is written as if it had none, or refused as
a constraint without a body.
-/
theorem keeps_body_iff (hn : ∀ clause ∈ d.body, ∀ leaf ∈ clause.leaves, leaf.IsNamed)
    (hne : d.body ≠ []) (hh : d.headText = .ok head)
    (ht : List.Forall₂ (fun clause text => clause.render = .ok text) d.body texts) :
    (d.render = .ok (d.withBody head ("; ".intercalate texts)) ↔ ¬ d.BodyIsBlank)
      ∧ (d.render = d.withoutBody head ↔ d.BodyIsBlank) := by
  have hb : renderClauses "; " d.body = .ok ("; ".intercalate texts) :=
    renderClauses_eq_ok_iff.mpr ⟨texts, ht, rfl⟩
  have hrender := render_of_body hne hh hb
  have hdiffer := withBody_ne_withoutBody d head ("; ".intercalate texts)
  rw [← bodyIsBlank_iff hn hne hb]
  by_cases he : "; ".intercalate texts = ""
  · rw [if_pos he] at hrender
    rw [hrender]
    exact ⟨iff_of_false hdiffer.symm (not_not_intro he), iff_of_true rfl he⟩
  · rw [if_neg he] at hrender
    rw [hrender]
    exact ⟨iff_of_true rfl he, iff_of_false hdiffer he⟩

end Body

/-- A conditional literal with one entry and nothing in it. -/
def blankClause : Clause := .conditional ⟨[⟨[], []⟩]⟩

/-- Being late has its price, under two conditions of which one is blank. -/
def lateRule : Definition :=
  .assert ⟨.soft ⟨.int 3, .int 1, [.str "late"]⟩,
    [blankClause, .literal (.notAtom (Constraint.flag "early"))]⟩

/-- With another clause beside it, even a blank one is separated and kept. -/
theorem keeps_body_lateRule :
    (∀ clause ∈ lateRule.body, ∀ leaf ∈ clause.leaves, leaf.IsNamed)
      ∧ lateRule.body ≠ [] ∧ lateRule.headText = .ok ""
      ∧ List.Forall₂ (fun clause text => clause.render = .ok text) lateRule.body
          ["", "not early"]
      ∧ lateRule.render = .ok " :~ ; not early. [3@1,late]" := by
  have hbuilt : Schema.Built ⟨"early", []⟩ := by decide
  have hn : ∀ clause ∈ lateRule.body, ∀ leaf ∈ clause.leaves, leaf.IsNamed := by
    intro clause hc leaf hl
    rcases List.mem_pair.mp hc with rfl | rfl
    · exact absurd hl (by simp [blankClause, Clause.leaves, ConditionalLiteral.leaves,
        Entry.leavesAll, Entry.leaves, Element.leavesAll, Literal.leavesAll])
    · have he : leaf = .predicate ⟨"early", []⟩ := by
        simpa [Clause.leaves, Literal.leaves, Target.leaves, Atom.leaves, Literal.notAtom,
          Constraint.flag, writtenLeaves] using hl
      rw [he]
      exact hbuilt
  have ht : List.Forall₂ (fun clause text => clause.render = .ok text) lateRule.body
      ["", "not early"] := .cons rfl (.cons rfl .nil)
  have hkept : ¬ lateRule.BodyIsBlank := by
    rintro ⟨clause, hone, _⟩
    simp [lateRule, body] at hone
  refine ⟨hn, List.cons_ne_nil _ _, rfl, ht, ?_⟩
  exact ((keeps_body_iff hn (List.cons_ne_nil _ _) rfl ht).1.mpr hkept).trans (by decide)

/-- A door that is open under a blank condition. -/
def openRule : Definition :=
  .define ⟨⟨[.literal (.ofAtom (Constraint.flag "open"))]⟩, [blankClause]⟩

/-- **The condition is lost.** The door is open as a fact, and the constraint that the blank
condition never holds is refused as one without a body. -/
theorem not_keeps_body_openRule :
    List.Forall₂ (fun clause text => clause.render = .ok text) openRule.body [""]
      ∧ openRule.headText = .ok "open"
      ∧ openRule.render = .ok "open."
      ∧ openRule.render ≠ .ok "open :- ."
      ∧ Definition.render (.assert ⟨.hard, openRule.body⟩) = .error .emptyBody := by
  have hr : openRule.render = .ok "open." := by decide
  exact ⟨.cons rfl .nil, by decide, hr, by rw [hr]; decide, by decide⟩

end Definition

end AnswerSet
