import AnswerSet.Proofs.JsonPrinting
import AnswerSet.SolveResult

/-!
# What a report tells

A document tells a report if it is an object with a text as its result and, unless
they are left out, with lists of calls, of their witnesses, and of what belongs to
a witness (`Report.Told`). In none of these objects may a name stand twice. Where a
member stands among the others does not matter, and the others may be anything.

From each text of such a document the report is read (`Report.read?_of_told`), and
what the report says becomes the result of the solve (`SolveResult.parse_told`).
-/

namespace AnswerSet

/-! ## Documents that tell a report -/

namespace Json

/-- The names of the members. -/
def names (members : List (String × Json)) : List String := members.map Prod.fst

/-- What the member of a name lists, which is nothing if there is no such member. -/
inductive Lists {α : Type} (item : Json → α → Prop) (members : List (String × Json))
    (name : String) : List α → Prop
  | missing (h : name ∉ names members) : Lists item members name []
  | items {values : List Json} {items : List α} (h : (name, .array values) ∈ members)
      (hi : List.Forall₂ item values items) : Lists item members name items

end Json

open Json

/-- The atoms that a witness lists, if it lists any. -/
inductive Witness.TellsAtoms (members : List (String × Json)) : Option (List String) → Prop
  | missing (h : "Value" ∉ names members) : TellsAtoms members none
  | null (h : ("Value", .null) ∈ members) : TellsAtoms members none
  | atoms {texts : List String} (h : ("Value", .array (texts.map .str)) ∈ members) :
      TellsAtoms members (some texts)

/-- The witness that an object tells. -/
inductive Witness.Told : Json → Witness → Prop
  | record {members : List (String × Json)} {atoms : Option (List String)} {costs : List Int64}
      (hn : (names members).Nodup) (ha : Witness.TellsAtoms members atoms)
      (hc : Lists (fun value cost => value = .integer cost.toInt) members "Costs" costs) :
      Told (.record members) ⟨atoms, costs⟩

/-- The witnesses of the call that an object tells. -/
inductive Report.TellsCall : Json → List Witness → Prop
  | record {members : List (String × Json)} {witnesses : List Witness}
      (hn : (names members).Nodup) (hw : Lists Witness.Told members "Witnesses" witnesses) :
      TellsCall (.record members) witnesses

/-- The report that an object tells. -/
inductive Report.Told : Json → Report → Prop
  | record {members : List (String × Json)} {result : String} {calls : List (List Witness)}
      (hn : (names members).Nodup) (hr : ("Result", .str result) ∈ members)
      (hc : Lists Report.TellsCall members "Call" calls) : Told (.record members) ⟨result, calls⟩

/-! ## Members of records -/

namespace Json

variable {members : List (String × Json)} {name : String}

theorem filter_eq_nil (h : name ∉ names members) : members.filter (·.1 = name) = [] := by
  rw [List.filter_eq_nil_iff]
  intro member hm hname
  exact h (List.mem_map.mpr ⟨member, hm, of_decide_eq_true hname⟩)

theorem filter_eq_singleton (hn : (names members).Nodup) {value : Json}
    (h : (name, value) ∈ members) : members.filter (·.1 = name) = [(name, value)] := by
  induction members with
  | nil => cases h
  | cons member members ih =>
      obtain ⟨hfirst, hn⟩ := List.nodup_cons.mp hn
      rcases List.mem_cons.mp h with rfl | h
      · rw [List.filter_cons_of_pos (by simp), filter_eq_nil hfirst]
      · have hne : member.1 ≠ name := by
          rintro rfl
          exact hfirst (List.mem_map.mpr ⟨_, h, rfl⟩)
        rw [List.filter_cons_of_neg (by simpa using hne), ih hn h]

theorem member?_of_not_mem (h : name ∉ names members) : member? members name = some none := by
  rw [member?, filter_eq_nil h]

theorem member?_of_mem (hn : (names members).Nodup) {value : Json} (h : (name, value) ∈ members) :
    member? members name = some (some value) := by
  rw [member?, filter_eq_singleton hn h]

theorem fields?_record (required : Nat) (fields : List String) :
    (record members).fields? required fields = fields.mapM (member? members) := by
  have texts : (members.map fun member => (some member.1, member.2)).mapM
      (fun member => member.1.map (·, member.2)) = some members := by
    induction members with
    | nil => rfl
    | cons member members ih => simp [List.mapM_cons, ih]
  exact congrArg (·.bind fun texts => fields.mapM (member? texts)) texts

/-- A list is read if its items are. -/
theorem mapM_of_forall₂ {α : Type} {item : Json → α → Prop} {item? : Json → Option α}
    (hitem : ∀ value a, item value a → item? value = some a) {values : List Json} {items : List α}
    (h : List.Forall₂ item values items) : values.mapM item? = some items := by
  induction h with
  | nil => rfl
  | cons h _ ih => simp [List.mapM_cons, hitem _ _ h, ih]

/-- **A list is read from the member that lists it.** -/
theorem listOrEmpty?_of_lists {α : Type} {item : Json → α → Prop} {item? : Json → Option α}
    (hitem : ∀ value a, item value a → item? value = some a) (hn : (names members).Nodup)
    {items : List α} (h : Lists item members name items) :
    ∃ found, member? members name = some found ∧ listOrEmpty? item? found = some items := by
  cases h with
  | missing h => exact ⟨none, member?_of_not_mem h, rfl⟩
  | items h hi => exact ⟨_, member?_of_mem hn h, mapM_of_forall₂ hitem hi⟩

end Json

/-! ## Reading what is told -/

theorem Witness.atoms?_of_tellsAtoms {members : List (String × Json)}
    {atoms : Option (List String)} (hn : (names members).Nodup) (h : TellsAtoms members atoms) :
    ∃ found, member? members "Value" = some found ∧ Witness.atoms? found = some atoms := by
  cases h with
  | missing h => exact ⟨none, member?_of_not_mem h, rfl⟩
  | null h => exact ⟨_, member?_of_mem hn h, rfl⟩
  | @atoms texts h =>
      refine ⟨_, member?_of_mem hn h, ?_⟩
      have read : (texts.map Json.str).mapM Json.text? = some texts := by
        have htext : ∀ (value : Json) (text : String),
            value = .str text → value.text? = some text := by
          rintro _ text rfl
          rfl
        exact mapM_of_forall₂ htext (by simp)
      simp [Witness.atoms?, list?, read]

theorem Witness.ofJson?_of_told {value : Json} {witness : Witness}
    (h : Witness.Told value witness) : Witness.ofJson? value = some witness := by
  cases h with
  | record hn ha hc =>
      have hword : ∀ (value : Json) (cost : Int64),
          value = .integer cost.toInt → value.word? = some cost := by
        rintro _ cost rfl
        exact Text.word?_toInt cost
      obtain ⟨atoms, hatoms, hread⟩ := Witness.atoms?_of_tellsAtoms hn ha
      obtain ⟨costs, hcosts, hlist⟩ := listOrEmpty?_of_lists hword hn hc
      simp [Witness.ofJson?, fields?_record, List.mapM_cons, hatoms, hread, hcosts, hlist]

theorem Report.call?_of_tellsCall {value : Json} {witnesses : List Witness}
    (h : Report.TellsCall value witnesses) : Report.call? value = some witnesses := by
  cases h with
  | record hn hw =>
      obtain ⟨found, hfound, hlist⟩ :=
        listOrEmpty?_of_lists (fun _ _ h => Witness.ofJson?_of_told h) hn hw
      simp [Report.call?, fields?_record, List.mapM_cons, hfound, hlist]

/-- **A report is read from the document that tells it.** -/
theorem Report.ofJson?_of_told {value : Json} {report : Report} (h : Report.Told value report) :
    Report.ofJson? value = some report := by
  cases h with
  | @record members result calls hn hr hc =>
      obtain ⟨found, hfound, hlist⟩ :=
        listOrEmpty?_of_lists (fun _ _ h => Report.call?_of_tellsCall h) hn hc
      have htext : (Json.str result).text? = some result := rfl
      simp [Report.ofJson?, fields?_record, List.mapM_cons, member?_of_mem hn hr, hfound, hlist,
        htext]

theorem Report.read?_of_told {text : String} {value : Json} {report : Report}
    (ht : IsTextOf text value) (h : Report.Told value report) :
    Report.read? text = some report := by
  simp [Report.read?, read?_of_isTextOf ht, Report.ofJson?_of_told h]

/-! ## The result of the solve -/

namespace SolveResult

/-- **The result is what the report tells.** A result with a solution needs a call, and has
an answer for each witness of the first call that lists its atoms. -/
theorem parse_told {text : String} {value : Json} {report : Report} (ht : IsTextOf text value)
    (h : Report.Told value report) :
    (report.result = "UNSATISFIABLE" → parse text = .ok ⟨.noSolution, [], false, none⟩) ∧
    (report.result ∉ ["UNSATISFIABLE", "SATISFIABLE", "OPTIMUM FOUND"] →
      parse text = .ok ⟨.unknown, [], false, none⟩) ∧
    (report.result ∈ ["SATISFIABLE", "OPTIMUM FOUND"] → report.calls = [] →
      parse text = .error .noCall) ∧
    ∀ witnesses calls, report.result ∈ ["SATISFIABLE", "OPTIMUM FOUND"] →
      report.calls = witnesses :: calls →
      parse text = .ok ⟨.hasSolution, witnesses.filterMap fun witness => witness.atoms.map
        fun atoms => ⟨atoms, witness.costs, report.result = "OPTIMUM FOUND"⟩, false, none⟩ := by
  have hparse : parse text = ofReport report := by rw [parse, Report.read?_of_told ht h]
  rw [hparse]
  obtain ⟨result, calls⟩ := report
  refine ⟨?_, ?_, ?_, ?_⟩
  · rintro rfl
    rfl
  · intro hresult
    simp only [List.mem_cons, List.not_mem_nil, or_false, not_or] at hresult
    obtain ⟨hunsat, hsat, hopt⟩ := hresult
    unfold ofReport
    split <;> simp_all [ofStatus]
  · intro hresult hcalls
    simp only [List.mem_cons, List.not_mem_nil, or_false] at hresult
    subst hcalls
    rcases hresult with rfl | rfl <;> rfl
  · intro witnesses calls hresult hcalls
    simp only [List.mem_cons, List.not_mem_nil, or_false] at hresult
    subst hcalls
    rcases hresult with rfl | rfl <;> rfl

/-- A model without its atoms, and the optimum after it. -/
def optimumCall : Json :=
  .record [("Witnesses", .array [
    .record [("Costs", .array [.integer 3]), ("Time", .nonInteger)],
    .record [("Value", .array [.str "a", .str "b"]), ("Costs", .array [.integer (-1)])]])]

/-- A report with two calls, the second of them without witnesses. -/
def optimumReport : Json :=
  .record [("Solver", .str "clingo"), ("Call", .array [optimumCall, .record [("Stop", .null)]]),
    ("Result", .str "OPTIMUM FOUND")]

theorem tellsCall_optimumCall :
    Report.TellsCall optimumCall [⟨none, [3]⟩, ⟨some ["a", "b"], [-1]⟩] := by
  refine .record (by decide) (.items List.mem_cons_self (.cons ?_ (.cons ?_ .nil)))
  · exact .record (by decide) (.missing (by decide)) (.items List.mem_cons_self (.cons rfl .nil))
  · exact .record (by decide) (.atoms List.mem_cons_self)
      (.items (List.mem_cons_of_mem _ List.mem_cons_self) (.cons rfl .nil))

theorem parse_optimumReport :
    IsTextOf (optimumReport.pretty 0) optimumReport ∧
    Report.Told optimumReport
      ⟨"OPTIMUM FOUND", [[⟨none, [3]⟩, ⟨some ["a", "b"], [-1]⟩], []]⟩ ∧
    parse (optimumReport.pretty 0) =
      .ok ⟨.hasSolution, [⟨["a", "b"], [-1], true⟩], false, none⟩ := by
  have text := isTextOf_pretty optimumReport 0
  have told : Report.Told optimumReport
      ⟨"OPTIMUM FOUND", [[⟨none, [3]⟩, ⟨some ["a", "b"], [-1]⟩], []]⟩ := by
    refine .record (by decide) (by simp) (.items (List.mem_cons_of_mem _ List.mem_cons_self)
      (.cons tellsCall_optimumCall (.cons ?_ .nil)))
    exact .record (by decide) (.missing (by decide))
  exact ⟨text, told, (parse_told text told).2.2.2 _ _ (by decide) rfl⟩

/-- A result that names a lone surrogate is a string without a text, so it is none of the known
ones. It is no unknown result either: the report cannot be read. -/
theorem parse_loneSurrogate :
    IsTextOf "\x7b\n  \"Result\": \"\\ud800\"\n\x7d" (.object [(some "Result", .string none)]) ∧
    parse "\x7b\n  \"Result\": \"\\ud800\"\n\x7d" = .error .malformedReport ∧
    parse "\x7b\n  \"Result\": \"\\ud800\"\n\x7d" ≠ .ok ⟨.unknown, [], false, none⟩ := by
  have text := isTextOf_pretty (.object [(some "Result", .string none)]) 0
  have printed : (Json.object [(some "Result", .string none)]).pretty 0 =
      "\x7b\n  \"Result\": \"\\ud800\"\n\x7d" := by decide
  rw [printed] at text
  have read : Report.read? "\x7b\n  \"Result\": \"\\ud800\"\n\x7d" = none := by
    simp only [Report.read?, read?_of_isTextOf text]
    rfl
  have parsed : parse "\x7b\n  \"Result\": \"\\ud800\"\n\x7d" = .error .malformedReport := by
    rw [parse, read]
  exact ⟨text, parsed, by simp [parsed]⟩

end SolveResult

end AnswerSet
