import AnswerSet.Atom.Arguments
import AnswerSet.Proofs.Trimming

/-!
# What the argument scanner does to a text

The scanner's state is a depth and a position relative to strings. Two facts
about it carry everything else:

* **Starting deeper is harmless.** Two scans of one text that differ only in
  depth stay in step, and the gap between them never grows (`near_run`). It
  shrinks only where the shallow scan meets a parenthesis that closes nothing.
* **A gap of one that survives means nothing was lost.** If the scan from one
  level deeper ends one level deeper, the text never closes a parenthesis that it
  did not open, and a scan from any depth returns to where it started
  (`run_raise`).

So a text is described by how it behaves as an argument: `Uncut` when no comma
in it separates, `Closes k` when from depth `k` it ends outside of strings and
no deeper, and `Keeps k` when from every depth from `k` on it ends where it
started.
-/

namespace AnswerSet.Scan

/-! ## One step at a time -/

/-- A character that neither opens nor closes anything outside of strings. -/
def Neutral (c : Char) : Prop := c ≠ '"' ∧ c ≠ '(' ∧ c ≠ ')'

theorem not_neutral {c : Char} (h : ¬ Neutral c) : c = '"' ∨ c = '(' ∨ c = ')' := by
  by_cases hq : c = '"'
  · exact Or.inl hq
  · by_cases ho : c = '('
    · exact Or.inr (Or.inl ho)
    · exact Or.inr (Or.inr (Decidable.byContradiction fun hc => h ⟨hq, ho, hc⟩))

@[simp] theorem run_nil (s : Scan) : s.run [] = s := rfl

@[simp] theorem run_cons (s : Scan) (c : Char) (cs : List Char) :
    s.run (c :: cs) = (s.step c).run cs := rfl

@[simp] theorem run_append (s : Scan) (cs ds : List Char) :
    s.run (cs ++ ds) = (s.run cs).run ds := List.foldl_append

@[simp] theorem step_open (d : Nat) : (outside d).step '(' = outside (d + 1) := rfl

@[simp] theorem step_close (d : Nat) : (outside d).step ')' = outside (d - 1) := rfl

@[simp] theorem step_quote (d : Nat) : (outside d).step '"' = inside d := rfl

theorem step_neutral {c : Char} (h : Neutral c) (d : Nat) : (outside d).step c = outside d := by
  unfold step
  split
  · exact absurd rfl h.1
  · exact absurd rfl h.2.1
  · exact absurd rfl h.2.2
  all_goals simp_all

theorem run_neutral {cs : List Char} (h : ∀ c ∈ cs, Neutral c) (d : Nat) :
    (outside d).run cs = outside d := by
  induction cs with
  | nil => rfl
  | cons c cs ih =>
      rw [run_cons, step_neutral (h c List.mem_cons_self)]
      exact ih (fun x hx => h x (List.mem_cons_of_mem _ hx))

/-- Only a quote or a parenthesis leads out to a place outside of strings. -/
theorem eq_of_step_neutral {s : Scan} {c : Char} {d : Nat} (h : Neutral c)
    (hs : s.step c = outside d) : s = outside d := by
  cases s with
  | outside e => rwa [step_neutral h] at hs
  | inside e =>
      unfold step at hs
      split at hs <;> simp_all [Neutral]
  | escaped e => simp [step] at hs

theorem eq_of_run_neutral {cs : List Char} (h : ∀ c ∈ cs, Neutral c) {s : Scan} {d : Nat}
    (hs : s.run cs = outside d) : s = outside d := by
  induction cs generalizing s with
  | nil => exact hs
  | cons c cs ih =>
      have ht := ih (fun x hx => h x (List.mem_cons_of_mem _ hx)) hs
      exact eq_of_step_neutral (h c List.mem_cons_self) ht

/-- The state before a closing parenthesis that leads outside. -/
theorem eq_of_step_close {s : Scan} {d : Nat} (hs : s.step ')' = outside d) :
    ∃ e, s = outside e ∧ e - 1 = d := by
  cases s with
  | outside e => exact ⟨e, rfl, by simpa using hs⟩
  | inside e => simp [step] at hs
  | escaped e => simp [step] at hs

/-! ## Two scans of one text -/

/-- The same place in a text, the second scan up to `k` levels deeper. -/
def Near (k : Nat) : Scan → Scan → Prop
  | outside d, outside e => d ≤ e ∧ e ≤ d + k
  | inside d, inside e => d ≤ e ∧ e ≤ d + k
  | escaped d, escaped e => d ≤ e ∧ e ≤ d + k
  | _, _ => False

theorem near_step {k : Nat} {s t : Scan} (h : Near k s t) (c : Char) :
    Near k (s.step c) (t.step c) := by
  cases s with
  | outside d =>
      cases t with
      | outside e =>
          have hd : d ≤ e ∧ e ≤ d + k := h
          by_cases hc : Neutral c
          · rw [step_neutral hc, step_neutral hc]; exact h
          · rcases not_neutral hc with rfl | rfl | rfl
            · exact hd
            · show d + 1 ≤ e + 1 ∧ e + 1 ≤ d + 1 + k
              omega
            · -- at depth zero, only the deeper scan comes up
              show d - 1 ≤ e - 1 ∧ e - 1 ≤ d - 1 + k
              omega
      | inside e => exact absurd h id
      | escaped e => exact absurd h id
  | inside d =>
      cases t with
      | outside e => exact absurd h id
      | inside e =>
          have hd : d ≤ e ∧ e ≤ d + k := h
          unfold step
          split <;> simp_all [Near]
      | escaped e => exact absurd h id
  | escaped d =>
      cases t with
      | outside e => exact absurd h id
      | inside e => exact absurd h id
      | escaped e => exact h

theorem near_run {k : Nat} {s t : Scan} (h : Near k s t) (cs : List Char) :
    Near k (s.run cs) (t.run cs) := by
  induction cs generalizing s t with
  | nil => exact h
  | cons c cs ih => exact ih (near_step h c)

/-- The scan from `k` levels deeper ends outside of strings when the first one does. -/
theorem run_deeper {cs : List Char} {d e : Nat} (k : Nat) (h : (outside d).run cs = outside e) :
    ∃ f, (outside (d + k)).run cs = outside f ∧ e ≤ f ∧ f ≤ e + k := by
  have hn : Near k (outside d) (outside (d + k)) := ⟨by omega, by omega⟩
  have hr := near_run hn cs
  rw [h] at hr
  cases hs : (outside (d + k)).run cs with
  | outside f => rw [hs] at hr; exact ⟨f, rfl, hr.1, hr.2⟩
  | inside f => rw [hs] at hr; exact absurd hr id
  | escaped f => rw [hs] at hr; exact absurd hr id

/-- The same place, `k` levels deeper. -/
def raise (k : Nat) : Scan → Scan
  | outside d => outside (d + k)
  | inside d => inside (d + k)
  | escaped d => escaped (d + k)

/-- A step either commutes with starting deeper or closes what was not opened. -/
theorem step_raise (s : Scan) (c : Char) :
    (∀ k, (s.raise k).step c = (s.step c).raise k) ∨ (s = outside 0 ∧ c = ')') := by
  cases s with
  | outside d =>
      by_cases hc : Neutral c
      · refine Or.inl fun k => ?_
        show (outside (d + k)).step c = ((outside d).step c).raise k
        rw [step_neutral hc, step_neutral hc]
        rfl
      · rcases not_neutral hc with rfl | rfl | rfl
        · exact Or.inl fun k => rfl
        · exact Or.inl fun k => by simp [raise]; omega
        · cases d with
          | zero => exact Or.inr ⟨rfl, rfl⟩
          | succ d => exact Or.inl fun k => by simp [raise]
  | inside d =>
      refine Or.inl fun k => ?_
      show (inside (d + k)).step c = ((inside d).step c).raise k
      unfold step
      split <;> simp_all [raise]
  | escaped d => exact Or.inl fun k => rfl

/--
**What survives one level survives every level.** A closing parenthesis that
closes nothing brings the two scans together, and from there on they agree.
-/
theorem run_raise {s : Scan} {cs : List Char} (h : (s.raise 1).run cs = (s.run cs).raise 1)
    (k : Nat) : (s.raise k).run cs = (s.run cs).raise k := by
  induction cs generalizing s with
  | nil => rfl
  | cons c cs ih =>
      rw [run_cons, run_cons] at h ⊢
      rcases step_raise s c with hs | ⟨rfl, rfl⟩
      · rw [hs] at h ⊢
        exact ih h
      · -- both scans stand at depth zero now, so they cannot end a level apart
        exfalso
        have hz : (outside 0).run cs = ((outside 0).run cs).raise 1 := h
        revert hz
        cases (outside 0).run cs <;> simp [raise]

/-! ## A text as an argument -/

/-- No comma of the text separates. -/
def Uncut : Scan → List Char → Prop
  | _, [] => True
  | s, c :: cs => s.separates c = false ∧ (s.step c).Uncut cs

/-- From depth `k`, the text ends outside of strings and no deeper than it started. -/
def Closes (k : Nat) (cs : List Char) : Prop := ∃ e, e ≤ k ∧ (outside k).run cs = outside e

/-- From every depth from `k` on, the text ends where it started. -/
def Keeps (k : Nat) (cs : List Char) : Prop := ∀ d, k ≤ d → (outside d).run cs = outside d

@[simp] theorem uncut_nil (s : Scan) : s.Uncut [] := trivial

@[simp] theorem uncut_cons {s : Scan} {c : Char} {cs : List Char} :
    s.Uncut (c :: cs) ↔ s.separates c = false ∧ (s.step c).Uncut cs := Iff.rfl

@[simp] theorem uncut_append {s : Scan} {cs ds : List Char} :
    s.Uncut (cs ++ ds) ↔ s.Uncut cs ∧ (s.run cs).Uncut ds := by
  induction cs generalizing s with
  | nil => simp
  | cons c cs ih => simp [ih, and_assoc]

theorem separates_eq_false_iff {s : Scan} {c : Char} :
    s.separates c = false ↔ (s = outside 0 → c ≠ ',') := by
  unfold separates
  by_cases hs : s = outside 0
  · simp [hs]
  · simp [hs]

theorem uncut_of_not_mem {cs : List Char} (h : ',' ∉ cs) (s : Scan) : s.Uncut cs := by
  induction cs generalizing s with
  | nil => trivial
  | cons c cs ih =>
      refine ⟨separates_eq_false_iff.mpr fun _ hc => h (by simp [hc]), ?_⟩
      exact ih (fun hm => h (List.mem_cons_of_mem _ hm)) _

theorem uncut_of_near {k : Nat} {s t : Scan} {cs : List Char} (h : Near k s t)
    (hu : s.Uncut cs) : t.Uncut cs := by
  induction cs generalizing s t with
  | nil => trivial
  | cons c cs ih =>
      refine ⟨separates_eq_false_iff.mpr fun ht => ?_, ih (near_step h c) hu.2⟩
      -- a scan that is no deeper than depth zero stands there as well
      have hs : s = outside 0 := by
        subst ht
        cases s with
        | outside d =>
            have hd : d ≤ 0 ∧ 0 ≤ d + k := h
            rw [Nat.le_zero.mp hd.1]
        | inside d => exact absurd h id
        | escaped d => exact absurd h id
      exact separates_eq_false_iff.mp hu.1 hs

/-- What no comma cuts at the top level, none cuts further down. -/
theorem Uncut.deeper {cs : List Char} (h : (outside 0).Uncut cs) (d : Nat) :
    (outside d).Uncut cs := by
  have hn : Near d (outside 0) (outside d) := ⟨Nat.zero_le d, by omega⟩
  exact uncut_of_near hn h

theorem Closes.succ {k : Nat} {cs : List Char} (h : Closes k cs) : Closes (k + 1) cs := by
  obtain ⟨e, he, hr⟩ := h
  obtain ⟨f, hf, _, hle⟩ := run_deeper 1 hr
  exact ⟨f, by omega, hf⟩

theorem Keeps.closes {k : Nat} {cs : List Char} (h : Keeps k cs) : Closes k cs :=
  ⟨k, Nat.le_refl k, h k (Nat.le_refl k)⟩

theorem Keeps.mono {k m : Nat} {cs : List Char} (h : Keeps k cs) (hkm : k ≤ m) : Keeps m cs :=
  fun d hd => h d (Nat.le_trans hkm hd)

theorem keeps_of_neutral {cs : List Char} (h : ∀ c ∈ cs, Neutral c) : Keeps 0 cs :=
  fun d _ => run_neutral h d

/-- Two neighbouring depths decide about all the deeper ones. -/
theorem keeps_of_two {k : Nat} {cs : List Char} (h0 : (outside k).run cs = outside k)
    (h1 : (outside (k + 1)).run cs = outside (k + 1)) : Keeps k cs := by
  intro d hd
  obtain ⟨j, rfl⟩ := Nat.exists_eq_add_of_le hd
  have h : ((outside k).raise 1).run cs = ((outside k).run cs).raise 1 := by
    rw [h0]
    exact h1
  have hj := run_raise h j
  rw [h0] at hj
  exact hj

end AnswerSet.Scan
