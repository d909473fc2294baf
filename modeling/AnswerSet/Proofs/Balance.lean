import AnswerSet.Proofs.Scalars

/-!
# Literals and parentheses, without the scanner

A text can be read as a sequence of complete literals and of characters outside of
them, and some of its parentheses are then open at its end. This says nothing about
how one goes over the text, so it is what the scanner has to agree with. It comes
in two readings. In the lenient one a parenthesis may close nothing, in the strict
one each closes one that is open.

**The scanner is outside of strings at a depth exactly if the text can be read so**
(`opens_iff_run`), and the strict reading is what a text does that moves every depth
by the same amount (`opens_strictly_iff_run`). The step is the same in both cases: a
character goes to where the scanner stands, and this is one of three places.
-/

namespace AnswerSet

open Scan

/-! ## Literals -/

/-- What stands between the quotes of a literal: a backslash takes the next character with it. -/
inductive LiteralBody : List Char → Prop
  | nil : LiteralBody []
  | plain {cs : List Char} {c : Char} :
      LiteralBody cs → c ≠ '\\' → c ≠ '"' → LiteralBody (cs ++ [c])
  | escaped {cs : List Char} {c : Char} : LiteralBody cs → LiteralBody (cs ++ ['\\', c])

/-- The text is one complete literal. -/
def IsLiteral (cs : List Char) : Prop := ∃ body, LiteralBody body ∧ cs = '"' :: (body ++ ['"'])

theorem LiteralBody.run {cs : List Char} (h : LiteralBody cs) (d : Nat) :
    (inside d).run cs = inside d := by
  induction h with
  | nil => rfl
  | plain _ hb hq ih => rw [run_append, ih, run_cons, step_inside hb hq, run_nil]
  | escaped _ ih => rw [run_append, ih]; rfl

theorem IsLiteral.run {cs : List Char} (h : IsLiteral cs) (d : Nat) :
    (outside d).run cs = outside d := by
  obtain ⟨body, hbody, rfl⟩ := h
  rw [run_cons, step_quote, run_append, hbody.run]
  rfl

/-! ## Open parentheses -/

/-- The text is made of complete literals and characters outside of them, and leaves so many
parentheses open. Where it is lenient, a parenthesis may close nothing. -/
inductive Opens (lenient : Prop) : List Char → Nat → Prop
  | nil : Opens lenient [] 0
  | literal {cs l : List Char} {d : Nat} : Opens lenient cs d → IsLiteral l →
      Opens lenient (cs ++ l) d
  | opening {cs : List Char} {d : Nat} : Opens lenient cs d → Opens lenient (cs ++ ['(']) (d + 1)
  | closing {cs : List Char} {d : Nat} : Opens lenient cs (d + 1) → Opens lenient (cs ++ [')']) d
  | surplus {cs : List Char} : lenient → Opens lenient cs 0 → Opens lenient (cs ++ [')']) 0
  | other {cs : List Char} {c : Char} {d : Nat} : Opens lenient cs d → Neutral c →
      Opens lenient (cs ++ [c]) d

/-- All literals are complete and all parentheses outside of them are matched. -/
def Balanced (cs : List Char) : Prop := Opens False cs 0

section Opens

variable {lenient : Prop} {cs : List Char} {d : Nat}

/-- Further down the text does the same, if it closes nothing that is not open. -/
theorem Opens.run (h : Opens lenient cs d) {k : Nat} (hk : lenient → k = 0) :
    (outside k).run cs = outside (k + d) := by
  induction h with
  | nil => rfl
  | literal _ hl ih => rw [run_append, ih, hl.run]
  | opening _ ih => rw [run_append, ih]; rfl
  | closing _ ih => rw [run_append, ih]; rfl
  | surplus hl _ ih => rw [run_append, ih, hk hl]; rfl
  | other _ hn ih => rw [run_append, ih, run_cons, step_neutral hn, run_nil]

/-! ## Where the scanner stands -/

/-- What has been read when the scanner stands somewhere: whole literals, or in a string, a literal
that has begun. -/
def Reads (lenient : Prop) (cs : List Char) : Scan → Prop
  | outside d => Opens lenient cs d
  | inside d => ∃ front body, Opens lenient front d ∧ LiteralBody body
      ∧ cs = front ++ '"' :: body
  | escaped d => ∃ front body, Opens lenient front d ∧ LiteralBody body
      ∧ cs = front ++ '"' :: (body ++ ['\\'])

/-- One more character is read, unless it closes what is not open where that is not allowed. -/
theorem Reads.step {s : Scan} {c : Char} (h : Reads lenient cs s)
    (hc : lenient ∨ ¬ (s = outside 0 ∧ c = ')')) : Reads lenient (cs ++ [c]) (s.step c) := by
  cases s with
  | outside d =>
      by_cases hn : Neutral c
      · rw [step_neutral hn]
        exact Opens.other h hn
      · rcases not_neutral hn with rfl | rfl | rfl
        · exact ⟨cs, [], h, .nil, rfl⟩
        · exact Opens.opening h
        · cases d with
          | zero => exact Opens.surplus (hc.resolve_right fun hz => hz ⟨rfl, rfl⟩) h
          | succ d => exact Opens.closing h
  | inside d =>
      obtain ⟨front, body, hfront, hbody, rfl⟩ := h
      by_cases hb : c = '\\'
      · subst hb
        exact ⟨front, body, hfront, hbody, by simp⟩
      · by_cases hq : c = '"'
        · subst hq
          rw [List.append_assoc]
          exact Opens.literal hfront ⟨body, hbody, rfl⟩
        · rw [step_inside hb hq]
          exact ⟨front, body ++ [c], hfront, .plain hbody hb hq, by simp⟩
  | escaped d =>
      obtain ⟨front, body, hfront, hbody, rfl⟩ := h
      exact ⟨front, body ++ ['\\', c], hfront, .escaped hbody, by simp⟩

/-- If a text does the same one level down, so did its beginning, and its last character closes
nothing that is not open. -/
theorem run_raise_init {c : Char}
    (h : ((outside 0).raise 1).run (cs ++ [c]) = ((outside 0).run (cs ++ [c])).raise 1) :
    ((outside 0).raise 1).run cs = ((outside 0).run cs).raise 1
      ∧ ¬ ((outside 0).run cs = outside 0 ∧ c = ')') := by
  have hnear : Near 1 (outside 0) ((outside 0).raise 1) := ⟨by omega, by omega⟩
  have hinit := near_run hnear cs
  rw [run_append, run_append, run_cons, run_cons, run_nil, run_nil] at h
  generalize (outside 0).run cs = s at h hinit ⊢
  generalize ((outside 0).raise 1).run cs = t at h hinit ⊢
  -- the two scans stand in the same place of the text, at the same depth or one level apart
  have happart : t = s ∨ t = s.raise 1 := by
    cases s <;> cases t <;> simp only [Near] at hinit <;>
      simp only [raise, Scan.outside.injEq, Scan.inside.injEq, Scan.escaped.injEq] <;> omega
  have hne : t ≠ s := by
    rintro rfl
    cases hstep : t.step c <;> rw [hstep] at h <;> simp [raise] at h
  have ht := happart.resolve_left hne
  refine ⟨ht, ?_⟩
  rintro ⟨rfl, rfl⟩
  rw [ht] at h
  simp [raise] at h

theorem reads_run
    (h : lenient ∨ ((outside 0).raise 1).run cs = ((outside 0).run cs).raise 1) :
    Reads lenient cs ((outside 0).run cs) := by
  induction cs using List.reverseRecOn with
  | nil => exact Opens.nil
  | append_singleton cs c ih =>
      rw [run_append]
      rcases h with hl | hraise
      · exact (ih (Or.inl hl)).step (Or.inl hl)
      · obtain ⟨hinit, hlast⟩ := run_raise_init hraise
        exact (ih (Or.inr hinit)).step (Or.inr hlast)

/-- **The scanner is at a depth outside of strings exactly where the text leaves it.** -/
theorem opens_iff_run : Opens True cs d ↔ (outside 0).run cs = outside d := by
  constructor
  · intro h
    have hrun := h.run fun _ => rfl
    rwa [Nat.zero_add] at hrun
  · intro h
    have hreads : Reads True cs ((outside 0).run cs) := reads_run (Or.inl trivial)
    rwa [h] at hreads

/-- **A text that moves every depth by the same amount** closes nothing that it did not open. -/
theorem opens_strictly_iff_run :
    Opens False cs d ↔ ∀ k, (outside k).run cs = outside (k + d) := by
  constructor
  · intro h k
    exact h.run False.elim
  · intro h
    have hzero : (outside 0).run cs = outside d := by rw [h 0, Nat.zero_add]
    have hraise : ((outside 0).raise 1).run cs = ((outside 0).run cs).raise 1 := by
      rw [hzero]
      show (outside (0 + 1)).run cs = outside (d + 1)
      rw [h, Nat.zero_add, Nat.add_comm]
    have hreads : Reads False cs ((outside 0).run cs) := reads_run (Or.inr hraise)
    rwa [hzero] at hreads

/-- **A balanced text keeps every depth.** -/
theorem balanced_iff_keeps : Balanced cs ↔ Keeps 0 cs := by
  rw [Balanced, opens_strictly_iff_run]
  constructor
  · intro h d _
    exact h d
  · intro h k
    exact h k (Nat.zero_le k)

end Opens

end AnswerSet
