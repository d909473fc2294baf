import AnswerSet.CommandLine.Display

/-!
# The status that is shown

The solver's result is not kept. What is kept of it is a status, which does not
tell an optimum from any other solution, and a flag on each answer. The line that
is shown puts the result together again from these two.

A flag needs an answer to stand on. An optimum is shown as one exactly if some
witness of the first call lists its atoms (`firstLine_resultText_iff`). **If none
does, the optimum is shown as an ordinary solution**, although the run found one.
-/

namespace AnswerSet

/-- Some witness of the first call lists its atoms. -/
def Report.ListsAtoms (report : Report) : Prop :=
  ∃ witnesses ∈ report.calls.head?, ∃ witness ∈ witnesses, witness.atoms ≠ none

/-! ## What the result keeps -/

namespace SolveResult

/-- **Every answer has the flag of the run**, so one of them has it if the run has and there is an
answer at all. -/
theorem any_optimal_iff {optimal : Bool} {witnesses : List Witness} :
    (witnesses.filterMap (answer? optimal)).any (·.optimal) = true
      ↔ optimal = true ∧ ∃ witness ∈ witnesses, witness.atoms ≠ none := by
  rw [List.any_eq_true]
  constructor
  · rintro ⟨answer, hm, ho⟩
    obtain ⟨witness, hw, ha⟩ := List.mem_filterMap.mp hm
    obtain ⟨atoms, hatoms, rfl⟩ := Option.map_eq_some_iff.mp ha
    exact ⟨ho, witness, hw, by rw [hatoms]; exact Option.some_ne_none atoms⟩
  · rintro ⟨ho, witness, hw, hne⟩
    obtain ⟨atoms, hatoms⟩ := Option.ne_none_iff_exists'.mp hne
    refine ⟨⟨atoms, witness.costs, optimal⟩, List.mem_filterMap.mpr ⟨witness, hw, ?_⟩, ho⟩
    rw [answer?, hatoms]
    rfl

/-- A result with a solution has its answers from the first call. -/
theorem ofCalls_eq_ok {optimal : Bool} {calls : List (List Witness)} {result : SolveResult}
    (h : ofCalls optimal calls = .ok result) :
    ∃ witnesses ∈ calls.head?,
      result = ⟨.hasSolution, witnesses.filterMap (answer? optimal), false, none⟩ := by
  cases calls with
  | nil => exact absurd h (by simp [ofCalls])
  | cons witnesses calls =>
      injection h with h
      exact ⟨witnesses, rfl, h.symm⟩

end SolveResult

/-! ## The line that is shown -/

namespace CommandLine

/-- An ordinary solution is what is shown unless there is an optimum with an answer. -/
theorem statusLine_ofCalls {optimal : Bool} (report : Report) {result : SolveResult}
    (h : SolveResult.ofCalls optimal report.calls = .ok result) :
    (optimal = true ∧ report.ListsAtoms ∧ statusLine result = "OPTIMUM FOUND")
      ∨ (¬ (optimal = true ∧ report.ListsAtoms) ∧ statusLine result = "SATISFIABLE") := by
  obtain ⟨witnesses, hw, rfl⟩ := SolveResult.ofCalls_eq_ok h
  have hlists : report.ListsAtoms ↔ ∃ witness ∈ witnesses, witness.atoms ≠ none := by
    unfold Report.ListsAtoms
    rw [Option.mem_def.mp hw]
    simp
  have hline : ∀ answers, statusLine ⟨.hasSolution, answers, false, none⟩
      = if answers.any (·.optimal) then "OPTIMUM FOUND" else "SATISFIABLE" := fun _ => rfl
  rw [hline, hlists, ← and_assoc, ← SolveResult.any_optimal_iff]
  by_cases hany : (witnesses.filterMap (SolveResult.answer? optimal)).any (·.optimal) = true
  · exact Or.inl ⟨hany, if_pos hany⟩
  · exact Or.inr ⟨hany, if_neg hany⟩

/-- The text up to its first line feed. -/
def firstLine (text : String) : String := .ofList (text.toList.takeWhile (· ≠ '\n'))

theorem firstLine_append {line rest : String} (h : '\n' ∉ line.toList) :
    firstLine (line ++ "\n" ++ rest) = line := by
  have hline : ∀ c ∈ line.toList, decide (c ≠ '\n') = true := fun c hc =>
    decide_eq_true fun he => h (he ▸ hc)
  have hrest : ("\n" ++ rest).toList = '\n' :: rest.toList := by simp
  unfold firstLine
  rw [String.append_assoc, String.toList_append, hrest, List.takeWhile_append_of_pos hline,
    List.takeWhile_cons_of_neg (by simp), List.append_nil, String.ofList_toList]

theorem newline_not_mem_statusLine (result : SolveResult) :
    '\n' ∉ (statusLine result).toList := by
  unfold statusLine
  split
  · decide
  · split <;> decide
  · split <;> decide

theorem firstLine_resultText (result : SolveResult) :
    firstLine (resultText result) = statusLine result :=
  firstLine_append (newline_not_mem_statusLine result)

/--
**An optimum is shown only beside an answer.** Let the solver's output be accepted,
with one of the three known results. Then the first line that is shown is this
result, unless it is an optimum and no witness of the first call lists its atoms;
and in that case the line tells an ordinary solution.
-/
theorem firstLine_resultText_iff {stdout : String} {report : Report} {result : SolveResult}
    (hr : Report.read? stdout = some report) (hp : SolveResult.parse stdout = .ok result)
    (hk : report.result ∈ ["UNSATISFIABLE", "SATISFIABLE", "OPTIMUM FOUND"]) :
    (firstLine (resultText result) = report.result
        ↔ (report.result = "OPTIMUM FOUND" → report.ListsAtoms))
      ∧ (report.result = "OPTIMUM FOUND" → ¬ report.ListsAtoms →
        firstLine (resultText result) = "SATISFIABLE") := by
  have hreport : SolveResult.ofReport report = .ok result := by
    unfold SolveResult.parse at hp
    rwa [hr] at hp
  have hunsat : "UNSATISFIABLE" ≠ "OPTIMUM FOUND" := by decide
  have hsat : "SATISFIABLE" ≠ "OPTIMUM FOUND" := by decide
  rw [firstLine_resultText]
  obtain ⟨told, calls⟩ := report
  simp only [List.mem_cons, List.not_mem_nil, or_false] at hk
  rcases hk with rfl | rfl | rfl
  · -- no answers are looked for
    injection hreport with hreport
    rw [← hreport]
    exact ⟨iff_of_true rfl fun he => absurd he hunsat, fun he => absurd he hunsat⟩
  · have hline : statusLine result = "SATISFIABLE" := by
      rcases statusLine_ofCalls ⟨"SATISFIABLE", calls⟩ hreport with h | h
      · exact absurd h.1 Bool.false_ne_true
      · exact h.2
    exact ⟨iff_of_true hline fun he => absurd he hsat, fun _ _ => hline⟩
  · rcases statusLine_ofCalls ⟨"OPTIMUM FOUND", calls⟩ hreport with h | h
    · exact ⟨iff_of_true h.2.2 fun _ => h.2.1, fun _ hn => absurd h.2.1 hn⟩
    · have hnone : ¬ Report.ListsAtoms ⟨"OPTIMUM FOUND", calls⟩ := fun hl => h.1 ⟨rfl, hl⟩
      refine ⟨iff_of_false ?_ fun hl => hnone (hl rfl), fun _ _ => h.2⟩
      rw [h.2]
      exact hsat

/-! An optimum of which only the last model lists its atoms, and one of which none does. -/

def lastListedText : String :=
  "\x7b\"Result\": \"OPTIMUM FOUND\", "
    ++ "\"Call\": [\x7b\"Witnesses\": [\x7b\x7d, \x7b\"Value\": [\"a\"]\x7d]\x7d]\x7d"

def noneListedText : String :=
  "\x7b\"Result\": \"OPTIMUM FOUND\", "
    ++ "\"Call\": [\x7b\"Witnesses\": [\x7b\"Costs\": [3]\x7d]\x7d]\x7d"

/-- One listed model is enough. -/
theorem firstLine_lastListed :
    Report.read? lastListedText = some ⟨"OPTIMUM FOUND", [[⟨none, []⟩, ⟨some ["a"], []⟩]]⟩
      ∧ SolveResult.parse lastListedText = .ok ⟨.hasSolution, [⟨["a"], [], true⟩], false, none⟩
      ∧ firstLine (resultText ⟨.hasSolution, [⟨["a"], [], true⟩], false, none⟩)
        = "OPTIMUM FOUND" := by
  have hr : Report.read? lastListedText
      = some ⟨"OPTIMUM FOUND", [[⟨none, []⟩, ⟨some ["a"], []⟩]]⟩ := by decide
  have hp : SolveResult.parse lastListedText
      = .ok ⟨.hasSolution, [⟨["a"], [], true⟩], false, none⟩ := by
    unfold SolveResult.parse
    rw [hr]
    rfl
  refine ⟨hr, hp, (firstLine_resultText_iff hr hp (by simp)).1.mpr fun _ => ?_⟩
  exact ⟨_, rfl, ⟨some ["a"], []⟩, by simp, by simp⟩

/-- The optimum was found and is shown as an ordinary solution. -/
theorem firstLine_noneListed :
    Report.read? noneListedText = some ⟨"OPTIMUM FOUND", [[⟨none, [3]⟩]]⟩
      ∧ SolveResult.parse noneListedText = .ok ⟨.hasSolution, [], false, none⟩
      ∧ firstLine (resultText ⟨.hasSolution, [], false, none⟩) = "SATISFIABLE"
      ∧ firstLine (resultText ⟨.hasSolution, [], false, none⟩) ≠ "OPTIMUM FOUND" := by
  have hr : Report.read? noneListedText = some ⟨"OPTIMUM FOUND", [[⟨none, [3]⟩]]⟩ := by decide
  have hp : SolveResult.parse noneListedText = .ok ⟨.hasSolution, [], false, none⟩ := by
    unfold SolveResult.parse
    rw [hr]
    rfl
  have hline : firstLine (resultText ⟨.hasSolution, [], false, none⟩) = "SATISFIABLE" :=
    firstLine_resultText _
  exact ⟨hr, hp, hline, by rw [hline]; decide⟩

end CommandLine

end AnswerSet
