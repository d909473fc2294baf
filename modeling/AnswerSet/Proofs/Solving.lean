import AnswerSet.Proofs.Trimming
import AnswerSet.Solver.Call
import Mathlib.Data.List.Infix

/-!
# How a solve ends

The outcome of a solve depends on four things that know nothing of one another:
the options it was given, whether its run was stopped, how the solver exited, and
what the solver printed. They are looked at in this order, and the first one that
settles the outcome settles it for good.

* An option that touches the form of the report is refused, and there is no run.
* A run that was stopped has told nothing, whatever else it left behind.
* An error exit is an error, also if a proper report was printed.
* Otherwise the report is the result, and the error stream is its warning.

`SolveResult.Settles` has a rule for each way in which a run can end. No two of
them apply to the same run, and one always does. So the rules say what the outcome
is and not only what it may be, which is why `SolveResult.ofOutput_eq_iff` is an
equivalence.
-/

namespace AnswerSet

/-! ## Options that are refused -/

theorem Text.occursIn_iff {needle cs : List Char} : occursIn needle cs = true ↔ needle <:+: cs := by
  induction cs with
  | nil => rw [occursIn, List.isEmpty_iff, List.infix_nil]
  | cons c cs ih =>
      rw [occursIn, Bool.or_eq_true, List.isPrefixOf_iff_prefix, ih, List.infix_cons_iff]

/-- The option touches the form of the report: the name of the reserved option stands in it. -/
def TouchesReport (option : String) : Prop := "--outf".toList <:+: option.toList

instance (option : String) : Decidable (TouchesReport option) :=
  decidable_of_iff (Text.occursIn "--outf".toList option.toList = true) Text.occursIn_iff

section Options

variable {options : List String}

theorem validateOptions_eq_ok (h : ∀ option ∈ options, ¬ TouchesReport option) :
    validateOptions options = .ok () := by
  have hnone : options.find? (fun option => Text.occursIn reservedOption.toList option.toList)
      = none := by
    refine List.find?_eq_none.mpr fun option hm hin => ?_
    exact h option hm (Text.occursIn_iff.mp hin)
  unfold validateOptions
  rw [hnone]

/-- Of the options that touch the report, the first one is named. -/
theorem validateOptions_eq_error {before after : List String} {option : String}
    (hbefore : ∀ earlier ∈ before, ¬ TouchesReport earlier) (h : TouchesReport option) :
    validateOptions (before ++ option :: after) = .error (.reservedOption option) := by
  have hsome : (before ++ option :: after).find?
      (fun option => Text.occursIn reservedOption.toList option.toList) = some option := by
    refine List.find?_eq_some_iff_append.mpr ⟨Text.occursIn_iff.mpr h, before, after, rfl, ?_⟩
    intro earlier hm
    rw [Bool.not_eq_true', Bool.eq_false_iff]
    exact fun hin => hbefore earlier hm (Text.occursIn_iff.mp hin)
  unfold validateOptions
  rw [hsome]

/-- The report is asked for once, if the given options leave it alone. -/
theorem countP_reportOptions (h : ∀ option ∈ options, ¬ TouchesReport option) :
    (options ++ reportOptions).countP (fun option => decide (TouchesReport option)) = 1 := by
  have hnone : options.countP (fun option => decide (TouchesReport option)) = 0 :=
    List.countP_eq_zero.mpr fun option hm => by simpa using h option hm
  rw [List.countP_append, hnone]
  decide

end Options

/-! ## What a run leaves behind -/

theorem Text.isEmpty_strip_iff {s : String} : (strip s).isEmpty = true ↔ Blank s.toList := by
  rw [String.isEmpty_iff, ← String.toList_eq_nil_iff, toList_strip, trim_eq_nil_iff]

namespace ProcessOutput

variable {output : ProcessOutput}

/-- The run ended with none of the codes that stand for errors, or a signal ended it. -/
def EndsWell (output : ProcessOutput) : Prop := ∀ code ∈ output.exitCode, code ∉ [1, 65]

/-- The warning is what the error stream says without the blanks around it, unless it says
nothing. -/
inductive Warns (output : ProcessOutput) : Option String → Prop
  | silent : Text.Blank output.stderr.toList → Warns output none
  | said {warning : String} : ¬ Text.Blank output.stderr.toList →
      warning = Text.strip output.stderr → Warns output (some warning)

theorem warns_warning? (output : ProcessOutput) : output.Warns output.warning? := by
  unfold warning?
  by_cases hb : Text.Blank output.stderr.toList
  · rw [if_pos (Text.isEmpty_strip_iff.mpr hb)]
    exact .silent hb
  · rw [if_neg (mt Text.isEmpty_strip_iff.mp hb)]
    exact .said hb rfl

theorem Warns.eq {warning : Option String} (h : output.Warns warning) :
    output.warning? = warning := by
  unfold warning?
  cases h with
  | silent hb => exact if_pos (Text.isEmpty_strip_iff.mpr hb)
  | said hb he =>
      rw [if_neg (mt Text.isEmpty_strip_iff.mp hb), he]

theorem check_of_failed {code : Int} (hc : output.exitCode = some code) (h : code ∈ [1, 65]) :
    output.check = .error (.process code (Text.strip output.stderr)) := by
  unfold check
  rw [hc]
  exact if_pos (List.contains_iff_mem.mpr h)

theorem check_of_endsWell (h : output.EndsWell) : output.check = .ok output.warning? := by
  unfold check
  cases hc : output.exitCode with
  | none => rfl
  | some code =>
      have hcode : code ∉ [1, 65] := h code (by rw [hc]; rfl)
      exact if_neg (mt List.contains_iff_mem.mp hcode)

theorem failed_or_endsWell (output : ProcessOutput) :
    (∃ code, output.exitCode = some code ∧ code ∈ [1, 65]) ∨ output.EndsWell := by
  by_cases h : ∃ code, output.exitCode = some code ∧ code ∈ [1, 65]
  · exact Or.inl h
  · exact Or.inr fun code hc hm => h ⟨code, hc, hm⟩

end ProcessOutput

namespace SolveResult

/-- The rules by which what a run left behind settles the outcome of a solve. -/
inductive Settles (output : ProcessOutput) : Except Error SolveResult → Prop
  | stopped : output.killed = true → Settles output (.ok ⟨.unknown, [], true, none⟩)
  | failed {code : Int} : output.killed = false → output.exitCode = some code → code ∈ [1, 65] →
      Settles output (.error (.process code (Text.strip output.stderr)))
  | unreadable {cause : OutputError} : output.killed = false → output.EndsWell →
      parse output.stdout = .error cause → Settles output (.error (.output cause))
  | told {result : SolveResult} {warning : Option String} : output.killed = false →
      output.EndsWell → parse output.stdout = .ok result → output.Warns warning →
      Settles output (.ok { result with warning })

section Settles

variable {output : ProcessOutput}

theorem ofOutput_of_killed (hk : output.killed = true) :
    ofOutput output = .ok ⟨.unknown, [], true, none⟩ := by
  unfold ofOutput
  rw [hk]
  rfl

theorem ofOutput_of_failed (hk : output.killed = false) {code : Int}
    (hc : output.exitCode = some code) (hm : code ∈ [1, 65]) :
    ofOutput output = .error (.process code (Text.strip output.stderr)) := by
  unfold ofOutput
  rw [hk, if_neg Bool.false_ne_true, ProcessOutput.check_of_failed hc hm]
  rfl

/-- Of a run that was not stopped and ended well, the report decides. -/
theorem ofOutput_of_endsWell (hk : output.killed = false) (h : output.EndsWell) :
    ofOutput output = ((parse output.stdout).mapError .output).map
      (·.withWarning output.warning?) := by
  unfold ofOutput
  rw [hk, if_neg Bool.false_ne_true, ProcessOutput.check_of_endsWell h]
  cases parse output.stdout with
  | error cause => rfl
  | ok result => rfl

/-- Some rule applies to every run. -/
theorem settles_ofOutput (output : ProcessOutput) : Settles output (ofOutput output) := by
  cases hk : output.killed with
  | true =>
      rw [ofOutput_of_killed hk]
      exact .stopped hk
  | false =>
      rcases output.failed_or_endsWell with ⟨code, hc, hm⟩ | hwell
      · rw [ofOutput_of_failed hk hc hm]
        exact .failed hk hc hm
      · rw [ofOutput_of_endsWell hk hwell]
        cases hp : parse output.stdout with
        | error cause => exact .unreadable hk hwell hp
        | ok result => exact .told hk hwell hp output.warns_warning?

/-- **The rules say what the outcome is.** -/
theorem ofOutput_eq_iff {outcome : Except Error SolveResult} :
    ofOutput output = outcome ↔ Settles output outcome := by
  constructor
  · rintro rfl
    exact settles_ofOutput output
  · intro h
    cases h with
    | stopped hk => exact ofOutput_of_killed hk
    | failed hk hc hm => exact ofOutput_of_failed hk hc hm
    | unreadable hk hwell hp =>
        rw [ofOutput_of_endsWell hk hwell, hp]
        rfl
    | told hk hwell hp hw =>
        rw [ofOutput_of_endsWell hk hwell, hp, hw.eq]
        rfl

end Settles

end SolveResult

/-! ## The whole of it -/

namespace SolverCall

variable {α : Type} {raw : RawOutput} {output : ProcessOutput}

theorem finish_of_decode (call : SolverCall α) (h : raw.decode = .ok output) :
    call.finish (.ok raw) = call.read output := by
  change (raw.decode.mapError Error.system).bind call.read = _
  rw [h]
  rfl

/-- Nothing is asked of the bytes of a run that was stopped. -/
theorem exists_decode_of_killed (h : raw.killed = true) :
    ∃ output, raw.decode = .ok output ∧ output.killed = true := by
  unfold RawOutput.decode
  rw [h, if_pos rfl]
  exact ⟨_, rfl, rfl⟩

end SolverCall

/--
**Every solve is settled by one order of precedence.** If an option touches the
form of the report, the first such option is refused and nothing is run. Otherwise
one run is made. Its arguments are the given options, the two that ask for the
report and the file of the program, so the reserved option is given exactly once.
What the run leaves behind settles the outcome by the rules.
-/
theorem SolverConfig.solveText_settles (config : SolverConfig) (text : String)
    (options : List String) (timeout : Option Nat) :
    (∀ before option after, options = before ++ option :: after →
        (∀ earlier ∈ before, ¬ TouchesReport earlier) → TouchesReport option →
        config.solveText text options timeout = .error (.reservedOption option))
    ∧ ((∀ option ∈ options, ¬ TouchesReport option) →
        ∃ call, config.solveText text options timeout = .ok call
          ∧ call.invocation
            = ⟨config, options ++ ["--outf=2", "--quiet=0,1"], text, timeout⟩
          ∧ (∀ file, call.invocation.arguments file
            = options ++ ["--outf=2", "--quiet=0,1"] ++ [file])
          ∧ (options ++ ["--outf=2", "--quiet=0,1"]).countP
            (fun option => decide (TouchesReport option)) = 1
          ∧ (∀ output outcome,
            call.read output = outcome ↔ SolveResult.Settles output outcome)
          ∧ (∀ raw output, raw.decode = .ok output →
            call.finish (.ok raw) = call.read output)
          ∧ ∀ raw : RawOutput, raw.killed = true →
            call.finish (.ok raw) = .ok ⟨.unknown, [], true, none⟩) := by
  refine ⟨fun before option after ho hbefore h => ?_, fun h => ?_⟩
  · unfold SolverConfig.solveText
    rw [ho, validateOptions_eq_error hbefore h]
    rfl
  · let call : SolverCall SolveResult :=
      (config.run text (options ++ reportOptions) timeout).andThen SolveResult.ofOutput
    have hcall : config.solveText text options timeout = .ok call := by
      unfold SolverConfig.solveText
      rw [validateOptions_eq_ok h]
      rfl
    refine ⟨call, hcall, rfl, fun _ => rfl, countP_reportOptions h, ?_, ?_, ?_⟩
    · exact fun _ _ => SolveResult.ofOutput_eq_iff
    · exact fun _ _ hraw => call.finish_of_decode hraw
    · intro raw hk
      obtain ⟨output, hraw, hout⟩ := SolverCall.exists_decode_of_killed hk
      rw [call.finish_of_decode hraw]
      exact SolveResult.ofOutput_of_killed hout

/-! A report with a warning beside it, and the same report before an error exit and in a run that
was stopped. -/

def unsatisfiableText : String := "\x7b\"Result\": \"UNSATISFIABLE\", \"Call\": []\x7d"

def warnedRun : ProcessOutput := ⟨unsatisfiableText, " atom does not occur\n", some 20, false⟩

def failedRun : ProcessOutput := ⟨unsatisfiableText, "unsafe variable\n", some 65, false⟩

def stoppedRun : ProcessOutput := ⟨unsatisfiableText, "unsafe variable\n", some 1, true⟩

def warnedBytes : RawOutput :=
  ⟨unsatisfiableText.toUTF8, " atom does not occur\n".toUTF8, some 20, false⟩

def stoppedBytes : RawOutput :=
  ⟨unsatisfiableText.toUTF8, "unsafe variable\n".toUTF8, some 1, true⟩

/-- After the error exit the report is of no use, and neither report nor error exit is in a run that
was stopped. Of two reserved options the first is named, and it need not stand at the front. -/
theorem SolverConfig.solveText_settles_failedRun :
    SolveResult.parse unsatisfiableText = .ok (.ofStatus .noSolution)
      ∧ (∀ option ∈ ["--models=0"], ¬ TouchesReport option)
      ∧ warnedBytes.decode = .ok warnedRun
      ∧ (∃ call, (ofEnvironment none).solveText "a." ["--models=0"] none = .ok call
        ∧ call.read warnedRun = .ok ⟨.noSolution, [], false, some "atom does not occur"⟩
        ∧ call.read failedRun = .error (.process 65 "unsafe variable")
        ∧ call.read stoppedRun = .ok ⟨.unknown, [], true, none⟩
        ∧ call.finish (.ok warnedBytes)
          = .ok ⟨.noSolution, [], false, some "atom does not occur"⟩
        ∧ call.finish (.ok stoppedBytes) = .ok ⟨.unknown, [], true, none⟩)
      ∧ (ofEnvironment none).solveText "a." ["--models=0", "-x--outf", "--outf=0"] none
        = .error (.reservedOption "-x--outf") := by
  have hparse : SolveResult.parse unsatisfiableText = .ok (.ofStatus .noSolution) := by decide
  have hfree : ∀ option ∈ ["--models=0"], ¬ TouchesReport option := by decide
  have hdecode : warnedBytes.decode = .ok warnedRun := RawOutput.decode_toUTF8 _ _ _
  have hsettles := SolverConfig.solveText_settles (ofEnvironment none) "a."
  obtain ⟨call, hcall, -, -, -, hread, hbytes, hstop⟩ := (hsettles ["--models=0"] none).2 hfree
  have hwell : warnedRun.EndsWell := by simp [ProcessOutput.EndsWell, warnedRun]
  have hwarns : warnedRun.Warns (some "atom does not occur") :=
    .said (by decide) (by decide)
  have hwarned : SolveResult.Settles warnedRun
      (.ok ⟨.noSolution, [], false, some "atom does not occur"⟩) := .told rfl hwell hparse hwarns
  have hfailed : SolveResult.Settles failedRun (.error (.process 65 "unsafe variable")) :=
    .failed rfl rfl (by decide)
  have hstopped : SolveResult.Settles stoppedRun (.ok ⟨.unknown, [], true, none⟩) := .stopped rfl
  refine ⟨hparse, hfree, hdecode, ⟨call, hcall, ?_, ?_, ?_, ?_, hstop stoppedBytes rfl⟩, ?_⟩
  · exact (hread _ _).mpr hwarned
  · exact (hread _ _).mpr hfailed
  · exact (hread _ _).mpr hstopped
  · rw [hbytes warnedBytes warnedRun hdecode]
    exact (hread _ _).mpr hwarned
  · exact (hsettles _ none).1 ["--models=0"] "-x--outf" ["--outf=0"] rfl hfree (by decide)

end AnswerSet
