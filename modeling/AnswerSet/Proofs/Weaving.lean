import AnswerSet.Proofs.Built
import AnswerSet.Proofs.Leaves
import AnswerSet.Proofs.Lexing
import AnswerSet.Proofs.Scalars

/-!
# A statement and the same statement with its strings emptied

Both are written or neither is, and for the same reason. If they are, the text is
the text of the emptied statement with the strings woven in, in the order of the
leaves (`Definition.alike`).

There is one lemma for each form of the syntax. Strings matter nowhere but in the
terms: no other part of the text depends on their contents, not even whether the
body of a rule comes out empty, which decides about its arrow and about an error.

Which characters the code may have is left open, up to the quote and the line
feed. The lexer needs code without quotes, the lines of a program need code
without line feeds.
-/

namespace AnswerSet

/-- The characters of code: any set that lacks at most the quote and the line feed. -/
structure Alphabet where
  mem : Char → Prop
  mem_of_ne : ∀ c, c ≠ '"' → c ≠ '\n' → mem c

/-- All characters but the quote or the line feed. -/
def Alphabet.without (c : Char) (h : c = '"' ∨ c = '\n') : Alphabet where
  mem d := d ≠ c
  mem_of_ne := by
    rintro d hq hn rfl
    rcases h with rfl | rfl
    · exact hq rfl
    · exact hn rfl

/-- The term is written with the characters of the alphabet, strings aside. -/
def Term.Over (alphabet : Alphabet) : Term → Prop
  | .symbol name => ∀ c ∈ name.toList, alphabet.mem c
  | .unbound v => ∀ c ∈ v.text.toList, alphabet.mem c
  | _ => True

/-- The leaf is written with the characters of the alphabet, strings aside. -/
def Leaf.Over (alphabet : Alphabet) : Leaf → Prop
  | .predicate schema => schema.Built
  | .term t => t.Over alphabet

/-! ## Texts -/

section Texts

variable {alphabet : Alphabet} {s text frame text' frame' : String} {ss ss' : List String}

/-- Code is written the same in both texts. -/
def Code (alphabet : Alphabet) (s : String) : Prop := ∀ c ∈ s.toList, alphabet.mem c

theorem code_of_not_mem (h : '"' ∉ s.toList ∧ '\n' ∉ s.toList := by decide) :
    Code alphabet s := by
  intro c hc
  refine alphabet.mem_of_ne c ?_ ?_
  · rintro rfl
    exact h.1 hc
  · rintro rfl
    exact h.2 hc

theorem Code.append {s' : String} (h : Code alphabet s) (h' : Code alphabet s') :
    Code alphabet (s ++ s') := by
  unfold Code
  rw [String.toList_append]
  exact List.forall_mem_append.mpr ⟨h, h'⟩

/-- The first text is the second one with the strings woven in. -/
def Weaves (alphabet : Alphabet) (text frame : String) (ss : List String) : Prop :=
  Woven alphabet.mem text.toList frame.toList ss

theorem Code.weaves (h : Code alphabet s) : Weaves alphabet s s [] := woven_plain h

theorem Weaves.append (h : Weaves alphabet text frame ss) (h' : Weaves alphabet text' frame' ss') :
    Weaves alphabet (text ++ text') (frame ++ frame') (ss ++ ss') := by
  unfold Weaves
  rw [String.toList_append, String.toList_append]
  exact Woven.append h h'

theorem Weaves.after (h : Weaves alphabet text frame ss) (hs : Code alphabet s) :
    Weaves alphabet (s ++ text) (s ++ frame) ss := hs.weaves.append h

theorem Weaves.before (h : Weaves alphabet text frame ss) (hs : Code alphabet s) :
    Weaves alphabet (text ++ s) (frame ++ s) ss := by
  have hw := h.append hs.weaves
  rwa [List.append_nil] at hw

theorem Weaves.isEmpty_eq (h : Weaves alphabet text frame ss) : text.isEmpty = frame.isEmpty := by
  have hiff := Woven.eq_nil_iff h
  rw [Bool.eq_iff_iff, String.isEmpty_iff, String.isEmpty_iff, ← String.toList_eq_nil_iff,
    ← String.toList_eq_nil_iff]
  exact hiff

/-- Texts one by one. -/
inductive WeavesAll (alphabet : Alphabet) : List String → List String → List String → Prop
  | nil : WeavesAll alphabet [] [] []
  | cons {text frame : String} {texts frames ss ss' : List String}
      (h : Weaves alphabet text frame ss) (hs : WeavesAll alphabet texts frames ss') :
      WeavesAll alphabet (text :: texts) (frame :: frames) (ss ++ ss')

theorem WeavesAll.intercalate {texts frames : List String} (hs : Code alphabet s)
    (h : WeavesAll alphabet texts frames ss) :
    Weaves alphabet (s.intercalate texts) (s.intercalate frames) ss := by
  induction h with
  | nil => exact .nil
  | @cons text frame texts frames ss ss' h hrest ih =>
      cases hrest with
      | nil =>
          rw [List.append_nil, String.intercalate_singleton, String.intercalate_singleton]
          exact h
      | cons h' hrest =>
          rw [String.intercalate_cons_cons, String.intercalate_cons_cons]
          exact (h.before hs).append ih

end Texts

/-! ## Terms and atoms -/

section Atoms

variable {alphabet : Alphabet}

theorem code_name {name : String} (h : isPredicateName name = true) : Code alphabet name :=
  code_of_not_mem ⟨not_mem_of_isPredicateName h (by decide),
    not_mem_of_isPredicateName h (by decide)⟩

theorem code_wordText (n : Int64) : Code alphabet (Text.wordText n) := by
  refine code_of_not_mem ⟨fun h => ?_, fun h => ?_⟩
  · exact (plain_wordText n _ h).neutral.1 rfl
  · exact absurd (plain_wordText n _ h).not_blank (by decide)

theorem Term.weaves {term : Term} (h : term.Over alphabet) :
    Weaves alphabet term.text term.emptied.text (strings [.term term]) := by
  cases term with
  | int n => exact (code_wordText n).weaves
  | str s => exact woven_quote s
  | bool b => cases b <;> exact Code.weaves code_of_not_mem
  | symbol name => exact woven_plain h
  | unbound v => exact woven_plain h

theorem FieldKind.isConstant_emptied (kind : FieldKind) :
    kind.emptied.isConstant = kind.isConstant := by
  cases kind <;> rfl

theorem WeavesAll.application {name comma : String} (hn : Code alphabet name)
    (hc : Code alphabet comma) {texts frames ss : List String}
    (h : WeavesAll alphabet texts frames ss) :
    Weaves alphabet (application comma name texts) (application comma name frames) ss := by
  have hj := h.intercalate hc
  cases h with
  | nil => exact hn.weaves
  | cons _ _ =>
      have hopen : Code alphabet "(" := code_of_not_mem
      have hclose : Code alphabet ")" := code_of_not_mem
      exact (hj.after (hn.append hopen)).before hclose

mutual

theorem Atom.weaves : ∀ atom : Atom, (∀ leaf ∈ atom.leaves, leaf.Over alphabet) →
    Weaves alphabet atom.text atom.emptied.text (strings atom.leaves)
  | ⟨⟨predicate, fields⟩, values⟩, h => by
      rw [Atom.leaves] at h ⊢
      have hb : Schema.Built ⟨predicate, fields⟩ := h _ List.mem_cons_self
      rw [strings_predicate, Atom.emptied, Schema.emptied, Atom.text, Atom.text, Atom.spelled,
        Atom.spelled]
      exact WeavesAll.application (code_name hb.name) code_of_not_mem
        (weavesAll_fields fields values fun leaf hl => h leaf (List.mem_cons_of_mem _ hl))

theorem weavesAll_fields : ∀ (fields : List Field) (values : List FieldValue),
    (∀ leaf ∈ writtenLeaves fields values, leaf.Over alphabet) →
    WeavesAll alphabet (spelledFields ", " fields values)
      (spelledFields ", " (emptiedFields fields) (emptiedValues values))
      (strings (writtenLeaves fields values))
  | [], [], _ => .nil
  | [], _ :: _, _ => .nil
  | ⟨_, _⟩ :: _, [], _ => .nil
  | ⟨name, kind⟩ :: fields, value :: values, h => by
      rw [writtenLeaves] at h ⊢
      rw [emptiedFields, emptiedValues, spelledFields, spelledFields]
      have he : Field.isConstant ⟨name, kind.emptied⟩ = Field.isConstant ⟨name, kind⟩ :=
        kind.isConstant_emptied
      -- emptying makes no field a constant and no constant a field
      by_cases hk : Field.isConstant ⟨name, kind⟩ = true
      · rw [if_pos hk] at h
        rw [if_pos hk, if_pos (he.trans hk), if_pos hk]
        exact weavesAll_fields fields values h
      · rw [if_neg hk] at h
        obtain ⟨hvalue, hrest⟩ := List.forall_mem_append.mp h
        rw [if_neg hk, if_neg (he ▸ hk), if_neg hk, strings_append]
        exact .cons (FieldValue.weaves value hvalue) (weavesAll_fields fields values hrest)

theorem FieldValue.weaves : ∀ value : FieldValue, (∀ leaf ∈ value.leaves, leaf.Over alphabet) →
    Weaves alphabet value.text value.emptied.text (strings value.leaves)
  | .term term, h => by
      rw [FieldValue.leaves] at h ⊢
      exact Term.weaves (h _ List.mem_cons_self)
  | .atom atom, h => by
      rw [FieldValue.leaves] at h ⊢
      exact Atom.weaves atom h

end

end Atoms

/-! ## What can be written -/

/-- Both are written, and what is written is related, or neither is, for the same reason. -/
inductive Alike {α : Type} (R : α → α → List String → Prop) :
    Except RenderError α → Except RenderError α → List String → Prop
  | ok {a b : α} {ss : List String} (h : R a b ss) : Alike R (.ok a) (.ok b) ss
  | error (e : RenderError) (ss : List String) : Alike R (.error e) (.error e) ss

section Alike

variable {α β γ : Type} {R : α → α → List String → Prop} {S : β → β → List String → Prop}
  {x y : Except RenderError α} {ss ss' : List String}

/-- Going on alike after what went alike. -/
theorem Alike.bind {f g : α → Except RenderError β} (h : Alike R x y ss)
    (hf : ∀ a b, R a b ss → Alike S (f a) (g b) ss') : Alike S (x.bind f) (y.bind g) ss' := by
  cases h with
  | ok h => exact hf _ _ h
  | error e => exact .error e ss'

theorem Alike.map {f g : α → β} (h : Alike R x y ss) (hf : ∀ a b, R a b ss → S (f a) (g b) ss') :
    Alike S (x.bind fun a => .ok (f a)) (y.bind fun b => .ok (g b)) ss' :=
  h.bind fun a b hab => .ok (hf a b hab)

/-- One after the other. -/
theorem Alike.map₂ {f g : α → β → γ} {T : γ → γ → List String → Prop} {u v : Except RenderError β}
    {ss'' : List String} (h : Alike R x y ss) (h' : Alike S u v ss')
    (hf : ∀ a b c d, R a b ss → S c d ss' → T (f a c) (g b d) ss'') :
    Alike T (x.bind fun a => u.bind fun c => .ok (f a c))
      (y.bind fun b => v.bind fun d => .ok (g b d)) ss'' :=
  h.bind fun a b hab => h'.map fun c d hcd => hf a b c d hab hcd

end Alike

/-- A literal, a rule or any other piece that is written as one text. -/
abbrev AlikeText (alphabet : Alphabet) :
    Except RenderError String → Except RenderError String → List String → Prop :=
  Alike (Weaves alphabet)

/-- Pieces that are written as one text each. -/
abbrev AlikeTexts (alphabet : Alphabet) :
    Except RenderError (List String) → Except RenderError (List String) → List String → Prop :=
  Alike (WeavesAll alphabet)

section Lists

variable {alphabet : Alphabet} {x y : Except RenderError String}
  {xs ys : Except RenderError (List String)} {ss ss' : List String}

/-- The first piece decides about an error before the others do, in both texts. -/
theorem Alike.cons (h : AlikeText alphabet x y ss) (hs : AlikeTexts alphabet xs ys ss') :
    AlikeTexts alphabet (x.bind fun a => xs.bind fun as => .ok (a :: as))
      (y.bind fun b => ys.bind fun bs => .ok (b :: bs)) (ss ++ ss') :=
  h.map₂ hs fun _ _ _ _ hw hws => hws.cons hw

theorem Alike.joined {separator : String} (hc : Code alphabet separator)
    (h : AlikeText alphabet x y ss) (hs : AlikeTexts alphabet xs ys ss') :
    AlikeText alphabet (x.bind fun a => xs.bind fun as => .ok (separator.intercalate (a :: as)))
      (y.bind fun b => ys.bind fun bs => .ok (separator.intercalate (b :: bs))) (ss ++ ss') :=
  h.map₂ hs fun _ _ _ _ hw hws => (WeavesAll.cons hw hws).intercalate hc

end Lists

section Rendering

variable {alphabet : Alphabet}

theorem code_comparison (operator : ComparisonOperator) : Code alphabet operator.symbol := by
  cases operator <;> exact code_of_not_mem

theorem code_polarity (polarity : Polarity) : Code alphabet polarity.marker := by
  cases polarity <;> exact code_of_not_mem

theorem code_aggregate (kind : AggregateKind) : Code alphabet kind.name := by
  cases kind <;> exact code_of_not_mem

/-- An operator between two terms. -/
theorem weaves_comparison {left right : Term} (operator : ComparisonOperator)
    (hl : left.Over alphabet) (hr : right.Over alphabet) :
    Weaves alphabet (left.text ++ " " ++ operator.symbol ++ " " ++ right.text)
      (left.emptied.text ++ " " ++ operator.symbol ++ " " ++ right.emptied.text)
      (strings ([.term left] ++ [.term right])) := by
  rw [strings_append]
  have hspace : Code alphabet " " := code_of_not_mem
  exact ((((Term.weaves hl).before hspace).before (code_comparison operator)).before hspace).append
    (Term.weaves hr)

theorem weaves_aggregate {set frame : String} {ss : List String} {bound : Term}
    (kind : AggregateKind) (operator : ComparisonOperator) (h : Weaves alphabet set frame ss)
    (hb : bound.Over alphabet) :
    Weaves alphabet (aggregateText kind set operator bound)
      (aggregateText kind frame operator bound.emptied) (ss ++ strings [.term bound]) := by
  have hsign : Code alphabet "#" := code_of_not_mem
  have hbrace : Code alphabet "\x7b" := code_of_not_mem
  have hopen := (hsign.append (code_aggregate kind)).append hbrace
  have hclose : Code alphabet "\x7d " := code_of_not_mem
  have hspace : Code alphabet " " := code_of_not_mem
  have hset := (h.after hopen).before hclose
  exact ((hset.before (code_comparison operator)).before hspace).append (Term.weaves hb)

theorem weaves_entry {elements elements' condition condition' ss ss' : List String}
    (he : WeavesAll alphabet elements elements' ss)
    (hc : WeavesAll alphabet condition condition' ss') :
    Weaves alphabet (entryText elements condition) (entryText elements' condition')
      (ss ++ ss') := by
  have hcomma : Code alphabet "," := code_of_not_mem
  have hspaced : Code alphabet ", " := code_of_not_mem
  have hcolon : Code alphabet " : " := code_of_not_mem
  have htuple := he.intercalate hcomma
  have hcondition := hc.intercalate hspaced
  cases hc with
  | nil =>
      rw [List.append_nil]
      exact htuple
  | cons _ _ => exact (htuple.before hcolon).append hcondition

mutual

theorem Literal.alike : ∀ literal : Literal, (∀ leaf ∈ literal.leaves, leaf.Over alphabet) →
    AlikeText alphabet literal.render literal.emptied.render (strings literal.leaves)
  | ⟨polarity, target⟩, h => by
      rw [Literal.leaves] at h ⊢
      rw [Literal.emptied, Literal.render, Literal.render]
      exact (Target.alike target h).map fun _ _ hw => hw.after (code_polarity polarity)

theorem Target.alike : ∀ target : Target, (∀ leaf ∈ target.leaves, leaf.Over alphabet) →
    AlikeText alphabet target.render target.emptied.render (strings target.leaves)
  | .atom atom, h => by
      rw [Target.leaves] at h ⊢
      exact .ok (Atom.weaves atom h)
  | .comparison left operator right, h => by
      rw [Target.leaves] at h ⊢
      have hl : left.Over alphabet := h _ List.mem_cons_self
      have hr : right.Over alphabet := h _ (List.mem_cons_of_mem _ List.mem_cons_self)
      exact .ok (weaves_comparison operator hl hr)
  | .aggregate aggregate, h => by
      rw [Target.leaves] at h ⊢
      exact Aggregate.alike aggregate h

theorem Aggregate.alike : ∀ aggregate : Aggregate,
    (∀ leaf ∈ aggregate.leaves, leaf.Over alphabet) →
    AlikeText alphabet aggregate.render aggregate.emptied.render (strings aggregate.leaves)
  -- the bound is looked at first, and it is missing from both
  | ⟨kind, source, none⟩, h => .error _ _
  | ⟨kind, source, some (operator, bound)⟩, h => by
      rw [Aggregate.leaves] at h ⊢
      obtain ⟨hset, hbound⟩ := List.forall_mem_append.mp h
      rw [strings_append, Aggregate.emptied, Aggregate.render]
      exact (Source.alike kind source hset).map fun _ _ hw =>
        weaves_aggregate kind operator hw (hbound _ List.mem_cons_self)

theorem Source.alike (kind : AggregateKind) : ∀ source : Source,
    (∀ leaf ∈ source.leaves, leaf.Over alphabet) →
    AlikeText alphabet (source.render kind) (source.emptied.render kind) (strings source.leaves)
  | .literals [], _ => .error _ _
  | .literals (literal :: literals), h => by
      rw [Source.leaves, Literal.leavesAll] at h ⊢
      obtain ⟨hfirst, hrest⟩ := List.forall_mem_append.mp h
      rw [strings_append]
      exact (Literal.alike literal hfirst).joined code_of_not_mem
        (Literal.alikeAll literals hrest)
  | .conditional conditional, h => by
      rw [Source.leaves] at h ⊢
      exact ConditionalLiteral.alike conditional h

theorem ConditionalLiteral.alike : ∀ conditional : ConditionalLiteral,
    (∀ leaf ∈ conditional.leaves, leaf.Over alphabet) →
    AlikeText alphabet conditional.render conditional.emptied.render (strings conditional.leaves)
  | ⟨[]⟩, _ => .error _ _
  | ⟨entry :: entries⟩, h => by
      rw [ConditionalLiteral.leaves, Entry.leavesAll] at h ⊢
      obtain ⟨hfirst, hrest⟩ := List.forall_mem_append.mp h
      rw [strings_append]
      exact (Entry.alike entry hfirst).joined code_of_not_mem (Entry.alikeAll entries hrest)

theorem Entry.alike : ∀ entry : Entry, (∀ leaf ∈ entry.leaves, leaf.Over alphabet) →
    AlikeText alphabet entry.render entry.emptied.render (strings entry.leaves)
  | ⟨elements, condition⟩, h => by
      rw [Entry.leaves] at h ⊢
      obtain ⟨htuple, hcondition⟩ := List.forall_mem_append.mp h
      rw [strings_append]
      exact (Element.alikeAll elements htuple).map₂ (Literal.alikeAll condition hcondition)
        fun _ _ _ _ he hc => weaves_entry he hc

theorem Element.alike : ∀ element : Element, (∀ leaf ∈ element.leaves, leaf.Over alphabet) →
    AlikeText alphabet element.render element.emptied.render (strings element.leaves)
  | .term term, h => by
      rw [Element.leaves] at h ⊢
      exact .ok (Term.weaves (h _ List.mem_cons_self))
  | .literal literal, h => by
      rw [Element.leaves] at h ⊢
      exact Literal.alike literal h

theorem Literal.alikeAll : ∀ literals : List Literal,
    (∀ leaf ∈ Literal.leavesAll literals, leaf.Over alphabet) →
    AlikeTexts alphabet (Literal.renderAll literals)
      (Literal.renderAll (Literal.emptiedAll literals)) (strings (Literal.leavesAll literals))
  | [], _ => .ok .nil
  | literal :: literals, h => by
      rw [Literal.leavesAll] at h ⊢
      obtain ⟨hfirst, hrest⟩ := List.forall_mem_append.mp h
      rw [strings_append]
      exact (Literal.alike literal hfirst).cons (Literal.alikeAll literals hrest)

theorem Entry.alikeAll : ∀ entries : List Entry,
    (∀ leaf ∈ Entry.leavesAll entries, leaf.Over alphabet) →
    AlikeTexts alphabet (Entry.renderAll entries) (Entry.renderAll (Entry.emptiedAll entries))
      (strings (Entry.leavesAll entries))
  | [], _ => .ok .nil
  | entry :: entries, h => by
      rw [Entry.leavesAll] at h ⊢
      obtain ⟨hfirst, hrest⟩ := List.forall_mem_append.mp h
      rw [strings_append]
      exact (Entry.alike entry hfirst).cons (Entry.alikeAll entries hrest)

theorem Element.alikeAll : ∀ elements : List Element,
    (∀ leaf ∈ Element.leavesAll elements, leaf.Over alphabet) →
    AlikeTexts alphabet (Element.renderAll elements)
      (Element.renderAll (Element.emptiedAll elements)) (strings (Element.leavesAll elements))
  | [], _ => .ok .nil
  | element :: elements, h => by
      rw [Element.leavesAll] at h ⊢
      obtain ⟨hfirst, hrest⟩ := List.forall_mem_append.mp h
      rw [strings_append]
      exact (Element.alike element hfirst).cons (Element.alikeAll elements hrest)

end

/-! ## Rules -/

theorem Clause.alike (clause : Clause) (h : ∀ leaf ∈ clause.leaves, leaf.Over alphabet) :
    AlikeText alphabet clause.render clause.emptied.render (strings clause.leaves) := by
  cases clause with
  | literal l => exact Literal.alike l h
  | conditional c => exact ConditionalLiteral.alike c h

/-- Clauses are written alike if each of them is. -/
theorem alike_clauses {separator : String} (hs : Code alphabet separator) (clauses : List Clause)
    (h : ∀ leaf ∈ clauses.flatMap Clause.leaves, leaf.Over alphabet) :
    AlikeText alphabet (renderClauses separator clauses)
      (renderClauses separator (clauses.map Clause.emptied))
      (strings (clauses.flatMap Clause.leaves)) := by
  have hall : AlikeTexts alphabet (clauses.mapM Clause.render)
      ((clauses.map Clause.emptied).mapM Clause.render)
      (strings (clauses.flatMap Clause.leaves)) := by
    induction clauses with
    | nil => exact .ok .nil
    | cons clause clauses ih =>
        rw [List.flatMap_cons] at h ⊢
        obtain ⟨hfirst, hrest⟩ := List.forall_mem_append.mp h
        rw [strings_append, List.map_cons, List.mapM_cons, List.mapM_cons]
        exact (clause.alike hfirst).cons (ih hrest)
  exact hall.map fun _ _ hws => hws.intercalate hs

theorem weaves_rule {head head' body body' : String} {ss ss' : List String}
    (hh : Weaves alphabet head head' ss) (hb : Weaves alphabet body body' ss') :
    Weaves alphabet (ruleText head body) (ruleText head' body') (ss ++ ss') := by
  have harrow : Code alphabet (if body.isEmpty then "" else " :- ") := by
    split <;> exact code_of_not_mem
  have hstop : Code alphabet "." := code_of_not_mem
  unfold ruleText
  -- the arrow is there in both texts or in neither
  rw [← hb.isEmpty_eq]
  exact ((hh.before harrow).append hb).before hstop

theorem alike_rule {head head' : Except RenderError String} {ss : List String}
    (hh : AlikeText alphabet head head' ss) (body : List Clause)
    (h : ∀ leaf ∈ body.flatMap Clause.leaves, leaf.Over alphabet) :
    AlikeText alphabet (renderRule head body) (renderRule head' (body.map Clause.emptied))
      (ss ++ strings (body.flatMap Clause.leaves)) :=
  hh.map₂ (alike_clauses code_of_not_mem body h) fun _ _ _ _ hw hb => weaves_rule hw hb

theorem alike_literals (literals : List Literal)
    (h : ∀ leaf ∈ Literal.leavesAll literals, leaf.Over alphabet) :
    AlikeTexts alphabet (literals.mapM Literal.render)
      ((Literal.emptiedAll literals).mapM Literal.render)
      (strings (Literal.leavesAll literals)) := by
  rw [← Literal.renderAll_eq_mapM, ← Literal.renderAll_eq_mapM]
  exact Literal.alikeAll literals h

theorem ChoiceSet.alike (set : ChoiceSet) (h : ∀ leaf ∈ set.leaves, leaf.Over alphabet) :
    AlikeText alphabet set.render set.emptied.render (strings set.leaves) := by
  cases set with
  | literal l => exact Literal.alike l h
  | literals ls => exact (alike_literals ls h).map fun _ _ hws =>
      hws.intercalate code_of_not_mem
  | conditional c => exact ConditionalLiteral.alike c h

/-- The set keeps its place among the bounds. -/
theorem weaves_bounds {set frame : String} {choices : ChoiceSet} {bounds : ChoiceBounds}
    (h : ∀ leaf ∈ Choice.leaves ⟨choices, bounds⟩, leaf.Over alphabet)
    (hw : Weaves alphabet set frame (strings choices.leaves)) :
    Weaves alphabet (bounds.around set) (bounds.emptied.around frame)
      (strings (Choice.leaves ⟨choices, bounds⟩)) := by
  have hle : Code alphabet " <= " := code_of_not_mem
  have heq : Code alphabet " = " := code_of_not_mem
  match bounds with
  | .exactly count =>
      have hcount : count.Over alphabet := h (.term count) (by simp [Choice.leaves])
      rw [Choice.leaves, strings_append]
      exact (hw.before heq).append (Term.weaves hcount)
  | .within none none =>
      simp only [Choice.leaves, boundLeaves, Option.map_none, Option.toList_none, List.nil_append,
        List.append_nil]
      exact hw
  | .within (some lo) none =>
      have hlo : lo.Over alphabet := h (.term lo) (by simp [Choice.leaves, boundLeaves])
      simp only [Choice.leaves, boundLeaves, Option.map_none, Option.toList_none, List.append_nil]
      rw [strings_append]
      exact ((Term.weaves hlo).before hle).append hw
  | .within none (some hi) =>
      have hhi : hi.Over alphabet := h (.term hi) (by simp [Choice.leaves, boundLeaves])
      simp only [Choice.leaves, boundLeaves, Option.map_none, Option.toList_none, List.nil_append]
      rw [strings_append]
      exact (hw.before hle).append (Term.weaves hhi)
  | .within (some lo) (some hi) =>
      have hlo : lo.Over alphabet := h (.term lo) (by simp [Choice.leaves, boundLeaves])
      have hhi : hi.Over alphabet := h (.term hi) (by simp [Choice.leaves, boundLeaves])
      rw [Choice.leaves, strings_append, strings_append]
      exact ((((Term.weaves hlo).before hle).append hw).before hle).append (Term.weaves hhi)

theorem Choice.alike (choice : Choice) (h : ∀ leaf ∈ choice.leaves, leaf.Over alphabet) :
    AlikeText alphabet choice.render choice.emptied.render (strings choice.leaves) := by
  obtain ⟨set, bounds⟩ := choice
  have hset : ∀ leaf ∈ set.leaves, leaf.Over alphabet := by
    intro leaf hl
    refine h leaf ?_
    cases bounds <;> simp [Choice.leaves, hl]
  have hopen : Code alphabet "\x7b" := code_of_not_mem
  have hclose : Code alphabet "\x7d" := code_of_not_mem
  exact (set.alike hset).map fun _ _ hw => weaves_bounds h ((hw.after hopen).before hclose)

/-! ## Penalties -/

/-- A penalty's terms are the same in both texts. -/
theorem weavesAll_bare (terms : List Term)
    (h : ∀ term ∈ terms, Code alphabet (Penalty.termText term)) :
    WeavesAll alphabet (terms.map Penalty.termText) (terms.map Penalty.termText) [] := by
  induction terms with
  | nil => exact .nil
  | cons term terms ih =>
      obtain ⟨hterm, hrest⟩ := List.forall_mem_cons.mp h
      exact .cons hterm.weaves (ih hrest)

theorem weaves_penalty {penalty : Penalty} (h : ∀ leaf ∈ penalty.leaves, leaf.Over alphabet)
    (hbare : ∀ term ∈ penalty.terms, Code alphabet (Penalty.termText term)) :
    Weaves alphabet penalty.text (Penalty.text { penalty with
      weight := penalty.weight.emptied, level := penalty.level.emptied })
      (strings penalty.leaves) := by
  obtain ⟨weight, level, terms⟩ := penalty
  obtain ⟨hweight, hrest⟩ := List.forall_mem_cons.mp h
  obtain ⟨hlevel, _⟩ := List.forall_mem_cons.mp hrest
  have hat : Code alphabet "@" := code_of_not_mem
  have hcomma : Code alphabet "," := code_of_not_mem
  have hopen : Code alphabet "[" := code_of_not_mem
  have hclose : Code alphabet "]" := code_of_not_mem
  have hcost := ((Term.weaves hweight).before hat).append (Term.weaves hlevel)
  have hall := WeavesAll.cons hcost (weavesAll_bare terms hbare)
  rw [List.append_nil, ← strings_append] at hall
  exact ((hall.intercalate hcomma).after hopen).before hclose

theorem weaves_constraint {constraint : Constraint} {body frame : String} {ss : List String}
    (h : ∀ leaf ∈ constraint.leaves, leaf.Over alphabet)
    (hbare : ∀ penalty, constraint = .soft penalty → ∀ term ∈ penalty.terms,
      Code alphabet (Penalty.termText term)) (hw : Weaves alphabet body frame ss) :
    Weaves alphabet (constraint.around body) (constraint.emptied.around frame)
      (ss ++ strings constraint.leaves) := by
  cases constraint with
  | hard =>
      rw [Constraint.leaves, strings_nil, List.append_nil]
      have hhead : Code alphabet "" := code_of_not_mem
      exact weaves_rule hhead.weaves hw
  | soft penalty =>
      have harrow : Code alphabet " :~ " := code_of_not_mem
      have hstop : Code alphabet ". " := code_of_not_mem
      exact ((hw.after harrow).before hstop).append (weaves_penalty h (hbare penalty rfl))

/-! ## Statements -/

/--
**A statement is written as its emptied form with its strings woven in**, or both
cannot be written for the same reason.
-/
theorem Definition.alike (d : Definition) (hr : d.isRaw = false)
    (h : ∀ leaf ∈ d.leaves, leaf.Over alphabet)
    (hbare : ∀ term ∈ d.bareTerms, Code alphabet (Penalty.termText term)) :
    AlikeText alphabet d.render d.emptied.render (strings d.leaves) := by
  match d with
  | .raw text => exact absurd hr (by simp [Definition.isRaw])
  | .guess ⟨choice, body⟩ =>
      obtain ⟨hhead, hbody⟩ := List.forall_mem_append.mp h
      rw [Definition.leaves, strings_append]
      exact alike_rule (choice.alike hhead) body hbody
  | .define ⟨⟨heads⟩, body⟩ =>
      obtain ⟨hhead, hbody⟩ := List.forall_mem_append.mp h
      rw [Definition.leaves, strings_append]
      exact alike_rule (alike_clauses code_of_not_mem heads hhead) body hbody
  | .assert ⟨constraint, body⟩ =>
      obtain ⟨hbody, hhead⟩ := List.forall_mem_append.mp h
      rw [Definition.leaves, strings_append]
      refine (alike_clauses code_of_not_mem body hbody).bind fun text frame hw => ?_
      -- whether the body is missing does not depend on the strings
      rw [← hw.isEmpty_eq]
      split
      · exact .error _ _
      · refine .ok (weaves_constraint hhead ?_ hw)
        rintro penalty rfl
        exact hbare

end Rendering

end AnswerSet
