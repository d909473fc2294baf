import AnswerSet.Proofs.Application
import AnswerSet.Proofs.Scalars

/-!
# Blanks outside of strings

The solver writes no blank but in strings, while programs have one behind each
comma. So leaving out the blanks that stand outside of strings takes the text of
a program to the solver's text of the same atom and leaves the solver's text as
it is. That holds part by part: a plain value has no such blank, a comma loses
those behind it, and an application is squeezed argument by argument, since a
steady argument leaves the scanner where it was.
-/

namespace AnswerSet

namespace Scan

/-- Does the scanner stand outside of strings? -/
def isOutside : Scan → Bool
  | outside _ => true
  | _ => false

/-- The text without the blanks that are met outside of strings. -/
def squeeze : Scan → List Char → List Char
  | _, [] => []
  | scan, c :: cs =>
    if scan.isOutside && Text.isBlank c then squeeze (scan.step c) cs
    else c :: squeeze (scan.step c) cs

theorem squeeze_append (scan : Scan) (cs ds : List Char) :
    scan.squeeze (cs ++ ds) = scan.squeeze cs ++ (scan.run cs).squeeze ds := by
  induction cs generalizing scan with
  | nil => rfl
  | cons c cs ih =>
      rw [List.cons_append, squeeze, squeeze, ih, run_cons]
      split
      · rfl
      · rfl

theorem squeeze_of_not_blank {cs : List Char} (h : ∀ c ∈ cs, Text.isBlank c = false)
    (scan : Scan) : scan.squeeze cs = cs := by
  induction cs generalizing scan with
  | nil => rfl
  | cons c cs ih =>
      rw [squeeze, h c List.mem_cons_self, Bool.and_false, if_neg Bool.false_ne_true,
        ih fun d hd => h d (List.mem_cons_of_mem _ hd)]

theorem squeeze_blank {cs : List Char} (h : Text.Blank cs) (d : Nat) :
    (outside d).squeeze cs = [] := by
  induction cs with
  | nil => rfl
  | cons c cs ih =>
      have hc := h c List.mem_cons_self
      have hskip : ((outside d).isOutside && Text.isBlank c) = true := by rw [hc]; rfl
      rw [squeeze, if_pos hskip, step_neutral (neutral_of_isBlank hc)]
      exact ih fun e he => h e (List.mem_cons_of_mem _ he)

/-! ## Plain values -/

theorem squeeze_escape (d : Nat) (cs : List Char) :
    (inside d).squeeze (Text.escape cs) = Text.escape cs := by
  fun_induction Text.escape cs with
  | case1 => rfl
  | case2 rest ih => exact congrArg (fun cs => '\\' :: '\\' :: cs) ih
  | case3 rest ih => exact congrArg (fun cs => '\\' :: '"' :: cs) ih
  | case4 rest ih => exact congrArg (fun cs => '\\' :: 'n' :: cs) ih
  | case5 c rest backslash quote newline ih =>
      rw [squeeze, step_inside backslash quote, ih]
      rfl

theorem squeeze_quote (s : String) (d : Nat) :
    (outside d).squeeze (Text.quote s).toList = (Text.quote s).toList := by
  have hclose : (inside d).squeeze ['"'] = ['"'] := rfl
  rw [Text.toList_quote, squeeze, step_quote, squeeze_append, squeeze_escape, run_escape, hclose]
  rfl

theorem squeeze_plain {cs : List Char} (h : ∀ c ∈ cs, IsPlain c) (scan : Scan) :
    scan.squeeze cs = cs := squeeze_of_not_blank (fun c hc => (h c hc).not_blank) scan

theorem squeeze_scalar {kind : ScalarKind} {term : Term} (h : term.scalarKind? = some kind)
    (d : Nat) : (outside d).squeeze term.text.toList = term.text.toList := by
  rcases scalarKind?_cases h with ⟨n, rfl, _⟩ | ⟨s, rfl, _⟩ | ⟨b, rfl, _⟩
  · exact squeeze_plain (plain_wordText n) _
  · exact squeeze_quote s d
  · cases b <;> exact squeeze_plain (plain_name (by decide)) _

/-! ## Applications -/

/-- The text is steady, and without the blanks outside of its strings it is the other one. -/
structure Squeezes (text tight : String) : Prop where
  steady : Steady text.toList
  squeeze : ∀ d, (outside d).squeeze text.toList = tight.toList

section Application

variable {comma predicate : String} {texts tights : List String}

theorem squeeze_comma (hc : Spaced comma) (d : Nat) : (outside d).squeeze comma.toList = [','] := by
  obtain ⟨pad, hb, hp⟩ := hc
  have hcomma : (outside d).squeeze [','] = [','] := rfl
  rw [hp, ← List.singleton_append, squeeze_append, hcomma]
  exact congrArg (',' :: ·) (squeeze_blank hb d)

/-- A joined row is squeezed piece by piece. -/
theorem squeeze_join (hc : Spaced comma) (h : List.Forall₂ Squeezes texts tights) (d : Nat) :
    (outside d).squeeze (comma.toList.intercalate (texts.map String.toList))
      = [','].intercalate (tights.map String.toList) := by
  induction h with
  | nil => rfl
  | @cons text tight texts tights hs hrest ih =>
      cases hrest with
      | nil =>
          rw [List.map_singleton, List.map_singleton, List.intercalate_singleton,
            List.intercalate_singleton]
          exact hs.squeeze d
      | cons hnext hrest =>
          simp only [List.map_cons, List.intercalate_cons_cons] at ih ⊢
          -- behind a steady text and a comma, the scanner is where it was
          have hrun : (outside d).run text.toList = outside d := hs.steady.2 d (Nat.zero_le d)
          rw [squeeze_append, squeeze_append, run_append, hrun, run_neutral hc.neutral,
            hs.squeeze d, squeeze_comma hc, ih]

theorem steady_of_squeezes (h : List.Forall₂ Squeezes texts tights) :
    ∀ text ∈ texts, Steady text.toList := by
  induction h with
  | nil => simp
  | cons hs _ ih => exact List.forall_mem_cons.mpr ⟨hs.steady, ih⟩

/-- **An application is squeezed argument by argument.** -/
theorem squeezes_application (hn : isPredicateName predicate = true) (hc : Spaced comma)
    (h : List.Forall₂ Squeezes texts tights) :
    Squeezes (application comma predicate texts) (application "," predicate tights) := by
  refine ⟨steady_application hn hc (steady_of_squeezes h), fun d => ?_⟩
  have hname : (outside d).squeeze predicate.toList = predicate.toList :=
    squeeze_plain (plain_name hn) _
  cases h with
  | nil => exact hname
  | @cons text tight texts tights hs hrest =>
      have hjoin := squeeze_join hc (.cons hs hrest) (d + 1)
      have hclose : ∀ scan : Scan, scan.squeeze [')'] = [')'] := fun scan => by
        have hb : Text.isBlank ')' = false := by decide
        exact squeeze_of_not_blank (List.forall_mem_singleton.mpr hb) scan
      rw [toList_application_cons, toList_application_cons, squeeze_append, hname,
        run_neutral (neutral_name hn), squeeze, step_open, squeeze_append, hjoin, hclose]
      rfl

end Application

end Scan

end AnswerSet
