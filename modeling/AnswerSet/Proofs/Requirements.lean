import AnswerSet.Proofs.Faults

/-!
# What a requirement rules out

To require that one of some literals holds under some conditions is to rule out
that the conditions hold and none of the literals does. So the constraint has the
negated literals and the conditions for its body. Negation adds a marker and never
takes one away. That is no loss of meaning: a marker turns the truth value of what
is behind it (`Interpretation.literal_negate`). A literal that has two markers
already cannot be negated, and then there is no constraint.

The conditions may be collected before the literals are given or added afterwards,
one at a time or several at once, and penalties may be charged anywhere in between.
All of these ways lead to the same (`Requires.eq_map`): the negated literals, the
conditions in the order in which they were given, and the last penalty.
-/

namespace AnswerSet

/-! ## Interpretations -/

/-- A truth value for every target and every conditional literal. -/
structure Interpretation where
  target : Target → Bool
  conditional : ConditionalLiteral → Bool

namespace Interpretation

/-- The truth value of a literal. Two markers give the value of the target again. -/
def literal (i : Interpretation) (l : Literal) : Bool :=
  match l.polarity with
  | .affirmed => i.target l.target
  | .negated => !i.target l.target
  | .doublyNegated => i.target l.target

/-- The truth value of a clause. -/
def clause (i : Interpretation) : Clause → Bool
  | .literal l => i.literal l
  | .conditional c => i.conditional c

end Interpretation

/-! ## Negating a literal -/

section Negate

variable {l m : Literal}

theorem Literal.negate_eq_error_iff {e : ConstructionError} :
    l.negate = .error e ↔ e = .thirdNegation ∧ l.polarity = .doublyNegated := by
  obtain ⟨polarity, target⟩ := l
  cases polarity with
  | affirmed => exact iff_of_false (fun h => by cases h) (fun h => by cases h.2)
  | negated => exact iff_of_false (fun h => by cases h) (fun h => by cases h.2)
  | doublyNegated =>
      constructor
      · intro h
        injection h with h
        exact ⟨h.symm, rfl⟩
      · intro h
        rw [h.1]
        rfl

/-- The markers before and after. The target stays. -/
theorem Literal.negate_cases (h : l.negate = .ok m) :
    (l.polarity = .affirmed ∧ m = ⟨.negated, l.target⟩)
      ∨ (l.polarity = .negated ∧ m = ⟨.doublyNegated, l.target⟩) := by
  obtain ⟨polarity, target⟩ := l
  cases polarity with
  | affirmed =>
      injection h with h
      exact Or.inl ⟨rfl, h.symm⟩
  | negated =>
      injection h with h
      exact Or.inr ⟨rfl, h.symm⟩
  | doublyNegated => cases h

/-- **Another marker turns the truth value.** -/
theorem Interpretation.literal_negate (i : Interpretation) (h : l.negate = .ok m) :
    i.literal m = !i.literal l := by
  rcases Literal.negate_cases h with ⟨hp, hm⟩ | ⟨hp, hm⟩
  · rw [hm, Interpretation.literal, Interpretation.literal, hp]
  · rw [hm, Interpretation.literal, Interpretation.literal, hp, Bool.not_not]

theorem Literal.render_eq (l : Literal) :
    l.render = l.target.render.map (l.polarity.marker ++ ·) := by
  obtain ⟨polarity, target⟩ := l
  rw [Literal.render]
  cases target.render <;> rfl

/-- It is written in front of the literal. -/
theorem Literal.render_negate_iff (h : l.negate = .ok m) {text : String} :
    m.render = .ok text ↔ ∃ own, l.render = .ok own ∧ "not " ++ own = text := by
  have hmarker : m.target = l.target ∧ m.polarity.marker = "not " ++ l.polarity.marker := by
    rcases Literal.negate_cases h with ⟨hp, hm⟩ | ⟨hp, hm⟩
    · rw [hm, hp]
      exact ⟨rfl, rfl⟩
    · rw [hm, hp]
      exact ⟨rfl, rfl⟩
  rw [Literal.render_eq, Literal.render_eq, hmarker.1, hmarker.2]
  cases l.target.render with
  | error e => simp [Except.map]
  | ok own => simp [Except.map, String.append_assoc]

end Negate

/-! ## Negating all of them -/

/-- Each literal with one more marker. -/
def Negates (ds ms : List Literal) : Prop := List.Forall₂ (fun d m => d.negate = .ok m) ds ms

section Negates

variable {ds ms : List Literal}

/-- The first literal with two markers ends it, and nothing else does. -/
theorem mapM_negate_eq_error_iff {e : ConstructionError} : ds.mapM Literal.negate = .error e ↔
    e = .thirdNegation ∧ ∃ d ∈ ds, d.polarity = .doublyNegated := by
  have hthird : ∀ {e'}, ds.mapM Literal.negate = .error e' →
      e' = .thirdNegation ∧ ∃ d ∈ ds, d.polarity = .doublyNegated := by
    intro e' h
    obtain ⟨before, d, after, rfl, _, hd⟩ := mapM_eq_error_iff.mp h
    obtain ⟨he, hp⟩ := Literal.negate_eq_error_iff.mp hd
    exact ⟨he, d, by simp, hp⟩
  constructor
  · exact hthird
  · rintro ⟨rfl, d, hm, hp⟩
    cases h : ds.mapM Literal.negate with
    | error e' => rw [(hthird h).1]
    | ok ms =>
        obtain ⟨m, hd⟩ := mapM_ok_iff.mp ⟨ms, h⟩ d hm
        rw [Literal.negate_eq_error_iff.mpr ⟨rfl, hp⟩] at hd
        cases hd

theorem Negates.all_true_iff (h : Negates ds ms) (i : Interpretation) :
    (∀ m ∈ ms, i.literal m = true) ↔ ∀ d ∈ ds, i.literal d = false := by
  induction h with
  | nil => simp
  | @cons d m ds ms hd _ ih =>
      rw [List.forall_mem_cons, List.forall_mem_cons, ih, i.literal_negate hd, Bool.not_eq_true']

/-- **The body is written** as the literals, each behind a marker, and the conditions. -/
theorem Negates.render_iff (h : Negates ds ms) {cs : List Clause} {texts : List String} :
    List.Forall₂ (fun clause text => clause.render = .ok text) (ms.map .literal ++ cs) texts ↔
      ∃ own conditions : List String, List.Forall₂ (fun d text => d.render = .ok text) ds own
        ∧ List.Forall₂ (fun c text => c.render = .ok text) cs conditions
        ∧ own.map ("not " ++ ·) ++ conditions = texts := by
  induction h generalizing texts with
  | nil =>
      constructor
      · intro ht
        exact ⟨[], texts, .nil, ht, rfl⟩
      · intro ho
        obtain ⟨own, conditions, hown, hconditions, he⟩ := ho
        cases hown
        rw [← he]
        exact hconditions
  | @cons d m ds ms hd _ ih =>
      rw [List.map_cons, List.cons_append, List.forall₂_cons_left_iff]
      constructor
      · intro ht
        obtain ⟨text, rest, hm, hrest, rfl⟩ := ht
        obtain ⟨first, hfirst, rfl⟩ := (Literal.render_negate_iff hd).mp hm
        obtain ⟨own, conditions, hown, hconditions, rfl⟩ := ih.mp hrest
        exact ⟨first :: own, conditions, .cons hfirst hown, hconditions, rfl⟩
      · intro ho
        obtain ⟨own, conditions, hown, hconditions, rfl⟩ := ho
        obtain ⟨first, rest, hfirst, hrest, rfl⟩ := List.forall₂_cons_left_iff.mp hown
        exact ⟨_, _, (Literal.render_negate_iff hd).mpr ⟨first, hfirst, rfl⟩,
          ih.mpr ⟨rest, conditions, hrest, hconditions, rfl⟩, rfl⟩

end Negates

/-! ## All ways to state a requirement -/

/-- The conditions that were collected, in order. -/
inductive When.Collects : When → List Clause → Prop
  | new (c : Clause) : Collects (.new c) [c]
  | all (cs : List Clause) : Collects (.all cs) cs
  | andAlso {condition : When} {cs : List Clause} (c : Clause) :
      Collects condition cs → Collects (condition.andAlso c) (cs ++ [c])

theorem When.Collects.body_eq {condition : When} {cs : List Clause} (h : condition.Collects cs) :
    condition.body = cs := by
  induction h with
  | new c => rfl
  | all cs => rfl
  | andAlso c _ ih => rw [When.andAlso, ih]

namespace Constraint

/--
What comes of requiring one of the disjuncts, under the conditions and with the
last penalty that was charged. Without disjuncts, it is the conditions that must
not hold.
-/
inductive Requires : List Literal → List Clause → Option Penalty →
    Except ConstructionError (Rule Constraint) → Prop
  | require (ds : List Literal) : Requires ds [] none (require ds)
  | unconditional : Requires [] [] none (.ok unconditional)
  | holds {condition : When} {cs : List Clause} (ds : List Literal) :
      condition.Collects cs → Requires ds cs none (condition.holds ds)
  | never {condition : When} {cs : List Clause} :
      condition.Collects cs → Requires [] cs none (.ok condition.never)
  | when {ds : List Literal} {cs : List Clause} {penalty : Option Penalty}
      {outcome : Except ConstructionError (Rule Constraint)} (c : Clause) :
      Requires ds cs penalty outcome →
      Requires ds (cs ++ [c]) penalty (outcome.map (·.when c))
  | whenAll {ds : List Literal} {cs : List Clause} {penalty : Option Penalty}
      {outcome : Except ConstructionError (Rule Constraint)} (more : List Clause) :
      Requires ds cs penalty outcome →
      Requires ds (cs ++ more) penalty (outcome.map (·.whenAll more))
  | otherwise {ds : List Literal} {cs : List Clause} {penalty : Option Penalty}
      {outcome : Except ConstructionError (Rule Constraint)} (charge : Penalty) :
      Requires ds cs penalty outcome →
      Requires ds cs (some charge) (outcome.map (otherwise · charge))

/-- Hard without a penalty, and soft with one. -/
def ofPenalty : Option Penalty → Constraint
  | none => .hard
  | some penalty => .soft penalty

section Requires

variable {ds : List Literal} {cs : List Clause} {penalty : Option Penalty}
  {outcome : Except ConstructionError (Rule Constraint)}

theorem require_eq_map (ds : List Literal) :
    require ds = (ds.mapM Literal.negate).map fun ms => ⟨.hard, ms.map .literal⟩ := by
  unfold require
  cases ds.mapM Literal.negate <;> rfl

/-- **All ways lead to the same constraint.** -/
theorem Requires.eq_map (h : Requires ds cs penalty outcome) :
    outcome = (ds.mapM Literal.negate).map fun ms => ⟨ofPenalty penalty, ms.map .literal ++ cs⟩ := by
  induction h with
  | require ds =>
      rw [require_eq_map]
      simp only [List.append_nil]
      rfl
  | unconditional => rfl
  | @holds condition cs ds hc =>
      rw [When.holds, require_eq_map, hc.body_eq]
      cases ds.mapM Literal.negate <;> rfl
  | @never condition cs hc =>
      rw [When.never, hc.body_eq]
      rfl
  | @when ds cs penalty outcome c _ ih =>
      rw [ih]
      cases ds.mapM Literal.negate with
      | error e => rfl
      | ok ms => simp [Except.map, Rule.when]
  | @whenAll ds cs penalty outcome more _ ih =>
      rw [ih]
      cases ds.mapM Literal.negate with
      | error e => rfl
      | ok ms => simp [Except.map, Rule.whenAll]
  | @otherwise ds cs penalty outcome charge _ ih =>
      rw [ih]
      cases ds.mapM Literal.negate <;> rfl

theorem Requires.eq_ok_iff (h : Requires ds cs penalty outcome) {rule : Rule Constraint} :
    outcome = .ok rule ↔
      ∃ ms, Negates ds ms ∧ rule = ⟨ofPenalty penalty, ms.map .literal ++ cs⟩ := by
  rw [h.eq_map]
  constructor
  · intro he
    cases hm : ds.mapM Literal.negate with
    | error e => rw [hm] at he; cases he
    | ok ms =>
        rw [hm] at he
        injection he with he
        exact ⟨ms, mapM_eq_ok_iff.mp hm, he.symm⟩
  · intro he
    obtain ⟨ms, hm, rfl⟩ := he
    rw [mapM_eq_ok_iff.mpr hm]
    rfl

theorem Requires.eq_error_iff (h : Requires ds cs penalty outcome) {e : ConstructionError} :
    outcome = .error e ↔ e = .thirdNegation ∧ ∃ d ∈ ds, d.polarity = .doublyNegated := by
  rw [h.eq_map, ← mapM_negate_eq_error_iff]
  cases ds.mapM Literal.negate <;> simp [Except.map]

end Requires

/-! ## What it says and how it is written -/

/-- A constraint around the text of its body. -/
def textOf : Option Penalty → (body : String) → String
  | none, body => " :- " ++ body ++ "."
  | some penalty, body => " :~ " ++ body ++ ". " ++ penalty.text

theorem around_ofPenalty (penalty : Option Penalty) {body : String} (h : body ≠ "") :
    (ofPenalty penalty).around body = textOf penalty body := by
  cases penalty with
  | none =>
      have he : body.isEmpty = false := by simpa using h
      simp [ofPenalty, around, textOf, ruleText, he]
  | some penalty => rfl

theorem renderConstraint_eq_ok_iff {penalty : Option Penalty} {body : List Clause}
    {text : String} : Rule.renderConstraint ⟨ofPenalty penalty, body⟩ = .ok text ↔
      ∃ texts : List String, List.Forall₂ (fun clause text => clause.render = .ok text) body texts
        ∧ "; ".intercalate texts ≠ "" ∧ text = textOf penalty ("; ".intercalate texts) := by
  refine Except.bind_eq_ok.trans ?_
  constructor
  · intro h
    obtain ⟨written, hbody, hrest⟩ := h
    obtain ⟨texts, hall, rfl⟩ := renderClauses_eq_ok_iff.mp hbody
    split at hrest
    · cases hrest
    · rename_i hne
      have hne : "; ".intercalate texts ≠ "" := by simpa using hne
      injection hrest with hrest
      exact ⟨texts, hall, hne, by rw [← hrest, around_ofPenalty penalty hne]⟩
  · intro h
    obtain ⟨texts, hall, hne, rfl⟩ := h
    refine ⟨_, renderClauses_eq_ok_iff.mpr ⟨texts, hall, rfl⟩, ?_⟩
    rw [if_neg (by simpa using hne), around_ofPenalty penalty hne]
    rfl

/--
**A constraint says what was required.** In whatever way the conditions were given,
requiring fails if and only if a disjunct has two markers of negation already.
Otherwise all clauses of the constraint are true in an interpretation exactly if
all conditions are and no disjunct is. The constraint is written if all of its
clauses are and come out as text: first the disjuncts, each behind a marker, then
the conditions, in order. Charging penalties changes nothing but the arrow and what
stands behind the full stop, which is the last penalty.
-/
theorem requires_rules_out {ds : List Literal} {cs : List Clause} {penalty : Option Penalty}
    {outcome : Except ConstructionError (Rule Constraint)} (h : Requires ds cs penalty outcome) :
    (∀ e, outcome = .error e ↔ e = .thirdNegation ∧ ∃ d ∈ ds, d.polarity = .doublyNegated)
    ∧ ∀ rule, outcome = .ok rule →
      (∀ i : Interpretation, (∀ clause ∈ rule.body, i.clause clause = true) ↔
        (∀ c ∈ cs, i.clause c = true) ∧ ∀ d ∈ ds, i.literal d = false)
      ∧ ∀ text, rule.renderConstraint = .ok text ↔
          ∃ own conditions : List String,
            List.Forall₂ (fun d text => d.render = .ok text) ds own
            ∧ List.Forall₂ (fun c text => c.render = .ok text) cs conditions
            ∧ "; ".intercalate (own.map ("not " ++ ·) ++ conditions) ≠ ""
            ∧ text = textOf penalty ("; ".intercalate (own.map ("not " ++ ·) ++ conditions)) := by
  refine ⟨fun e => h.eq_error_iff, fun rule hrule => ?_⟩
  obtain ⟨ms, hms, rfl⟩ := h.eq_ok_iff.mp hrule
  constructor
  · intro i
    have hmarked : (∀ clause ∈ ms.map Clause.literal, i.clause clause = true)
        ↔ ∀ m ∈ ms, i.literal m = true := List.forall_mem_map
    rw [List.forall_mem_append, hmarked, hms.all_true_iff i]
    exact and_comm
  · intro text
    rw [renderConstraint_eq_ok_iff]
    constructor
    · intro ht
      obtain ⟨texts, hall, hne, he⟩ := ht
      obtain ⟨own, conditions, hown, hconditions, rfl⟩ := hms.render_iff.mp hall
      exact ⟨own, conditions, hown, hconditions, hne, he⟩
    · intro ht
      obtain ⟨own, conditions, hown, hconditions, hne, he⟩ := ht
      exact ⟨_, hms.render_iff.mpr ⟨own, conditions, hown, hconditions, rfl⟩, hne, he⟩

/-- An atom without fields. -/
def flag (name : String) : Atom := ⟨⟨name, []⟩, []⟩

/-- On a working day that is no holiday, the shop is closed or has staff. -/
def staffing : Except ConstructionError (Rule Constraint) :=
  let condition := When.new (.literal (.ofAtom (flag "day")))
  (condition.andAlso (.literal (.notAtom (flag "holiday")))).holds
    [.notAtom (flag "open"), .ofAtom (flag "staff")]

/-- The same on busy days only, at the second of two prices. -/
def busyStaffing : Except ConstructionError (Rule Constraint) :=
  let priced := staffing.map (otherwise · ⟨.int 5, .int 1, []⟩)
  (priced.map (·.when (.literal (.ofAtom (flag "busy"))))).map
    (otherwise · ⟨.int 2, .int 1, [.str "staff"]⟩)

/-- Two disjuncts of different polarity, conditions from both ends and two penalties. -/
theorem requires_rules_out_busyStaffing :
    ∃ rule, busyStaffing = .ok rule
      ∧ (∀ i : Interpretation, (∀ clause ∈ rule.body, i.clause clause = true) ↔
          (∀ c ∈ [Clause.literal (.ofAtom (flag "day")), .literal (.notAtom (flag "holiday")),
            .literal (.ofAtom (flag "busy"))], i.clause c = true)
          ∧ ∀ d ∈ [Literal.notAtom (flag "open"), .ofAtom (flag "staff")], i.literal d = false)
      ∧ rule.renderConstraint
          = .ok " :~ not not open; not staff; day; not holiday; busy. [2@1,staff]" := by
  have hrequires : Requires [.notAtom (flag "open"), .ofAtom (flag "staff")]
      [.literal (.ofAtom (flag "day")), .literal (.notAtom (flag "holiday")),
        .literal (.ofAtom (flag "busy"))]
      (some ⟨.int 2, .int 1, [.str "staff"]⟩) busyStaffing :=
    ((Requires.holds _ (.andAlso _ (.new _))).otherwise _).when _ |>.otherwise _
  obtain ⟨rule, hrule⟩ : ∃ rule, busyStaffing = .ok rule := ⟨_, rfl⟩
  obtain ⟨hmeans, htext⟩ := (requires_rules_out hrequires).2 rule hrule
  refine ⟨rule, hrule, hmeans, (htext _).mpr ?_⟩
  exact ⟨["not open", "staff"], ["day", "not holiday", "busy"],
    .cons rfl (.cons rfl .nil), .cons rfl (.cons rfl (.cons rfl .nil)), by decide, by decide⟩

end Constraint

end AnswerSet
