import AnswerSet.Proofs.StatusLine

/-!
# The best answer of an optimum

A solver that optimises lists its models as it finds them, each better than those
before, and reports an optimum when there is no better one. The last model is the
optimum then. But a model may be listed without its atoms. Such a model is no answer,
and what is presented as the best answer is the last one that is left
(`getLast?_answers`).

It is the best of all answers, since leaving models out keeps the rest in order. **It
is the optimum exactly if the last model lists its atoms**, and else a model that the
solver improved on, although its answer says that it is optimal (`best_of_optimum`).
-/

namespace AnswerSet

/-- Each model is better than those before: its costs come first in lexicographic order. -/
def Witness.Improve (witnesses : List Witness) : Prop :=
  witnesses.Pairwise fun earlier later => later.costs < earlier.costs

namespace SolveResult

variable {optimal : Bool} {witnesses earlier : List Witness} {last : Witness} {answer : Answer}

/-- The model lists its atoms, and the answer holds what is listed. -/
structure Lists (optimal : Bool) (witness : Witness) (answer : Answer) : Prop where
  atoms : witness.atoms = some answer.atoms
  costs : answer.costs = witness.costs
  optimal : answer.optimal = optimal

/-- The answer is that of the last model that lists its atoms. -/
def ListsLast (optimal : Bool) (witnesses : List Witness) (answer : Answer) : Prop :=
  ∃ before witness after, witnesses = before ++ witness :: after
    ∧ Lists optimal witness answer ∧ ∀ w ∈ after, w.atoms = none

theorem answer?_eq_none_iff {witness : Witness} :
    answer? optimal witness = none ↔ witness.atoms = none := Option.map_eq_none_iff

theorem answer?_eq_some_iff {witness : Witness} :
    answer? optimal witness = some answer ↔ Lists optimal witness answer := by
  constructor
  · intro h
    obtain ⟨atoms, hatoms, rfl⟩ := Option.map_eq_some_iff.mp h
    exact ⟨hatoms, rfl, rfl⟩
  · intro h
    refine Option.map_eq_some_iff.mpr ⟨answer.atoms, h.atoms, ?_⟩
    rw [← h.costs, ← h.optimal]

/-- Models without atoms behind the last answer are passed over. -/
theorem getLast?_answers : (witnesses.filterMap (answer? optimal)).getLast? = some answer
    ↔ ListsLast optimal witnesses answer := by
  rw [List.getLast?_filterMap, List.findSome?_eq_some_iff]
  constructor
  · intro h
    obtain ⟨after, witness, before, hsplit, hw, hafter⟩ := h
    refine ⟨before.reverse, witness, after.reverse, ?_, answer?_eq_some_iff.mp hw, ?_⟩
    · rw [List.reverse_eq_iff.mp hsplit]
      simp
    · intro w hm
      exact answer?_eq_none_iff.mp (hafter w (List.mem_reverse.mp hm))
  · intro h
    obtain ⟨before, witness, after, rfl, hw, hafter⟩ := h
    refine ⟨after.reverse, witness, before.reverse, by simp, answer?_eq_some_iff.mpr hw, ?_⟩
    intro w hm
    exact answer?_eq_none_iff.mpr (hafter w (List.mem_reverse.mp hm))

/-- Leaving models out keeps the others in order. -/
theorem answers_improve (h : Witness.Improve witnesses) :
    (witnesses.filterMap (answer? optimal)).Pairwise fun a b => b.costs < a.costs := by
  refine List.Pairwise.filterMap _ ?_ h
  intro v w hlt a ha b hb
  rw [(answer?_eq_some_iff.mp ha).costs, (answer?_eq_some_iff.mp hb).costs]
  exact hlt

/-- **The best answer is better than the other answers.** -/
theorem best?_improves {result : SolveResult}
    (h : result.answers.Pairwise fun a b => b.costs < a.costs) (hb : result.best? = some answer) :
    ∀ other ∈ result.answers, other = answer ∨ answer.costs < other.costs := by
  obtain ⟨others, hothers⟩ := List.getLast?_eq_some_iff.mp hb
  rw [hothers] at h ⊢
  intro other hm
  rcases List.mem_append.mp hm with hm | hm
  · exact Or.inr ((List.pairwise_append.mp h).2.2 other hm answer List.mem_cons_self)
  · exact Or.inl (List.mem_singleton.mp hm)

/-- The last answer is that of the last model, or of one before if the last has no atoms. -/
theorem ListsLast.cases (h : ListsLast optimal (earlier ++ [last]) answer) :
    Lists optimal last answer
      ∨ last.atoms = none ∧ ∃ witness ∈ earlier, Lists optimal witness answer := by
  obtain ⟨before, witness, after, hsplit, hw, hafter⟩ := h
  -- the last model is the one that was found, or the last of those that were passed over
  rcases List.eq_nil_or_concat after with rfl | ⟨between, final, rfl⟩
  · obtain ⟨_, hlast⟩ := List.append_inj' hsplit rfl
    injection hlast with hlast _
    rw [hlast]
    exact Or.inl hw
  · have hends : earlier ++ [last] = (before ++ witness :: between) ++ [final] := by
      rw [hsplit]
      simp
    obtain ⟨hearlier, hlast⟩ := List.append_inj' hends rfl
    injection hlast with hlast _
    refine Or.inr ⟨?_, witness, ?_, hw⟩
    · rw [hlast]
      exact hafter final (by simp)
    · rw [hearlier]
      simp

/-- If the last model lists its atoms, its costs are those of the last answer. -/
theorem ListsLast.costs_of_lists (h : ListsLast optimal (earlier ++ [last]) answer)
    (hlists : last.atoms ≠ none) : answer.costs = last.costs := by
  rcases h.cases with hw | ⟨hnone, _⟩
  · exact hw.costs
  · exact absurd hnone hlists

/-- Where the models improve, the last answer has the costs of the last model only if that one lists
its atoms, and else higher ones. -/
theorem ListsLast.costs (h : ListsLast optimal (earlier ++ [last]) answer)
    (hi : Witness.Improve (earlier ++ [last])) :
    (answer.costs = last.costs ↔ last.atoms ≠ none)
      ∧ (last.atoms = none → last.costs < answer.costs) := by
  rcases h.cases with hw | ⟨hnone, witness, hm, hw⟩
  · have hlists : last.atoms ≠ none := by
      rw [hw.atoms]
      exact Option.some_ne_none _
    exact ⟨iff_of_true hw.costs hlists, fun hnone => absurd hnone hlists⟩
  · have hlt : last.costs < answer.costs := by
      rw [hw.costs]
      exact (List.pairwise_append.mp hi).2.2 witness hm last List.mem_cons_self
    have hne : answer.costs ≠ last.costs := by
      intro he
      rw [he] at hlt
      exact List.lt_irrefl _ hlt
    exact ⟨iff_of_false hne (not_not_intro hnone), fun _ => hlt⟩

theorem ofCalls_of_parse {stdout : String} {report : Report} {result : SolveResult}
    (hr : Report.read? stdout = some report) (hp : SolveResult.parse stdout = .ok result)
    (ho : report.result = "OPTIMUM FOUND") : ofCalls true report.calls = .ok result := by
  obtain ⟨told, calls⟩ := report
  obtain rfl : told = "OPTIMUM FOUND" := ho
  unfold SolveResult.parse at hp
  rw [hr] at hp
  exact hp

/--
**The best answer is the optimum exactly if the optimum lists its atoms.** Let the
solver's output be accepted with an optimum. The best answer is that of the last model
which lists its atoms, and there is none only if no model does. If the last model of
all lists its atoms, the costs of the best answer are its costs.

Let each model of the first call also be better than those before. Then the best answer
is better than all other answers. Its costs are those of the last model only if that
model lists its atoms, and if it does not, they are higher.
-/
theorem best_of_optimum {stdout : String} {report : Report} {result : SolveResult}
    (hr : Report.read? stdout = some report) (hp : SolveResult.parse stdout = .ok result)
    (ho : report.result = "OPTIMUM FOUND") (hc : report.calls.head? = some (earlier ++ [last])) :
    (∀ answer, result.best? = some answer ↔ ListsLast true (earlier ++ [last]) answer)
      ∧ (result.best? = none ↔ ∀ witness ∈ earlier ++ [last], witness.atoms = none)
      ∧ (∀ answer, result.best? = some answer → last.atoms ≠ none → answer.costs = last.costs)
      ∧ (Witness.Improve (earlier ++ [last]) → ∀ answer, result.best? = some answer →
        (∀ other ∈ result.answers, other = answer ∨ answer.costs < other.costs)
          ∧ (answer.costs = last.costs ↔ last.atoms ≠ none)
          ∧ (last.atoms = none → last.costs < answer.costs)) := by
  obtain ⟨witnesses, hw, rfl⟩ := ofCalls_eq_ok (ofCalls_of_parse hr hp ho)
  rw [Option.mem_def, hc] at hw
  injection hw with hw
  rw [← hw]
  refine ⟨fun answer => getLast?_answers, ?_, ?_, ?_⟩
  · rw [best?, List.getLast?_eq_none_iff, List.filterMap_eq_nil_iff]
    exact forall₂_congr fun _ _ => answer?_eq_none_iff
  · intro answer hb hlists
    exact (getLast?_answers.mp hb).costs_of_lists hlists
  · intro hi answer hb
    exact ⟨best?_improves (answers_improve hi) hb, (getLast?_answers.mp hb).costs hi⟩

/-! An optimum that lists its atoms, and one that does not. -/

def optimumListedText : String :=
  "\x7b\"Result\": \"OPTIMUM FOUND\", \"Call\": [\x7b\"Witnesses\": ["
    ++ "\x7b\"Value\": [\"pick(3)\"], \"Costs\": [7]\x7d, \x7b\"Costs\": [5]\x7d, "
    ++ "\x7b\"Value\": [\"pick(1)\"], \"Costs\": [2]\x7d]\x7d]\x7d"

def optimumOmittedText : String :=
  "\x7b\"Result\": \"OPTIMUM FOUND\", \"Call\": [\x7b\"Witnesses\": ["
    ++ "\x7b\"Value\": [\"pick(3)\"], \"Costs\": [7]\x7d, \x7b\"Costs\": [2]\x7d]\x7d]\x7d"

def firstModel : Witness := ⟨some ["pick(3)"], [7]⟩

def listedOptimum : Witness := ⟨some ["pick(1)"], [2]⟩

def omittedOptimum : Witness := ⟨none, [2]⟩

/-- A model without atoms between the others does no harm. -/
theorem best_of_optimum_listed :
    Report.read? optimumListedText
        = some ⟨"OPTIMUM FOUND", [[firstModel, ⟨none, [5]⟩] ++ [listedOptimum]]⟩
      ∧ Witness.Improve ([firstModel, ⟨none, [5]⟩] ++ [listedOptimum])
      ∧ ∃ result answer, SolveResult.parse optimumListedText = .ok result
        ∧ result.best? = some answer ∧ answer.costs = listedOptimum.costs
        ∧ ∀ other ∈ result.answers, other = answer ∨ answer.costs < other.costs := by
  have hr : Report.read? optimumListedText
      = some ⟨"OPTIMUM FOUND", [[firstModel, ⟨none, [5]⟩] ++ [listedOptimum]]⟩ := by
    decide +kernel
  have hp : SolveResult.parse optimumListedText = .ok ⟨.hasSolution,
      [⟨["pick(3)"], [7], true⟩, ⟨["pick(1)"], [2], true⟩], false, none⟩ := by
    unfold SolveResult.parse
    rw [hr]
    rfl
  have hi : Witness.Improve ([firstModel, ⟨none, [5]⟩] ++ [listedOptimum]) := by
    unfold Witness.Improve
    decide
  have hlists : listedOptimum.atoms ≠ none := Option.some_ne_none _
  obtain ⟨hothers, hcosts, _⟩ :=
    (best_of_optimum hr hp rfl rfl).2.2.2 hi ⟨["pick(1)"], [2], true⟩ rfl
  exact ⟨hr, hi, _, _, hp, rfl, hcosts.mpr hlists, hothers⟩

/-- **The answer that is presented as the optimum is the worse one.** -/
theorem not_best_of_optimum_omitted :
    Report.read? optimumOmittedText
        = some ⟨"OPTIMUM FOUND", [[firstModel] ++ [omittedOptimum]]⟩
      ∧ Witness.Improve ([firstModel] ++ [omittedOptimum])
      ∧ ∃ result answer, SolveResult.parse optimumOmittedText = .ok result
        ∧ result.best? = some answer ∧ answer.optimal = true
        ∧ answer.costs ≠ omittedOptimum.costs := by
  have hr : Report.read? optimumOmittedText
      = some ⟨"OPTIMUM FOUND", [[firstModel] ++ [omittedOptimum]]⟩ := by decide
  have hp : SolveResult.parse optimumOmittedText
      = .ok ⟨.hasSolution, [⟨["pick(3)"], [7], true⟩], false, none⟩ := by
    unfold SolveResult.parse
    rw [hr]
    rfl
  have hi : Witness.Improve ([firstModel] ++ [omittedOptimum]) := by
    unfold Witness.Improve
    decide
  exact ⟨hr, hi, _, ⟨["pick(3)"], [7], true⟩, hp, rfl, rfl, by decide⟩

end SolveResult

end AnswerSet
