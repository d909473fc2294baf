import AnswerSet.Proofs.Scanning
import Mathlib.Data.List.Forall2

/-!
# The pieces between separating commas

Cutting a text gives a row of pieces: every piece but the last is closed, so that
the comma behind it separates, and no comma inside any piece does
(`row_pieces`). Conversely such a row, joined by commas, is cut into the same
pieces again (`pieces_join`).

Inside of parentheses more is true. If the whole row stands one level deeper and
none of its commas separates there, no piece but the last closes a parenthesis
that it did not open (`Row.steady`). The last one still can, which is why the
statements below treat it apart.
-/

namespace AnswerSet.Scan

/-- A text that a separating comma can follow. -/
def Closed (cs : List Char) : Prop := (outside 0).Uncut cs ∧ Closes 0 cs

/-- A text that reads the same wherever it stands among arguments. -/
def Steady (cs : List Char) : Prop := (outside 0).Uncut cs ∧ Keeps 0 cs

theorem Steady.closed {cs : List Char} (h : Steady cs) : Closed cs := ⟨h.1, h.2.closes⟩

theorem Closed.run {cs : List Char} (h : Closed cs) : (outside 0).run cs = outside 0 := by
  obtain ⟨e, he, hr⟩ := h.2
  rw [hr, Nat.le_zero.mp he]

theorem closed_of_run {cs : List Char} (hu : (outside 0).Uncut cs)
    (hr : (outside 0).run cs = outside 0) : Closed cs := ⟨hu, 0, Nat.le_refl 0, hr⟩

/-! ## Rows -/

/-- All pieces but the last satisfy `each`, and the last satisfies `last`. -/
def Row (each last : List Char → Prop) : List (List Char) → Prop
  | [] => True
  | [p] => last p
  | p :: q :: ps => each p ∧ Row each last (q :: ps)

section Row

variable {each last each' last' : List Char → Prop}

/-- A row carries over to related pieces. -/
theorem Row.of_forall₂ {R : List Char → List Char → Prop} {ps qs : List (List Char)}
    (hR : List.Forall₂ R ps qs) (he : ∀ p q, R p q → each p → each' q)
    (hl : ∀ p q, R p q → last p → last' q) (h : Row each last ps) : Row each' last' qs := by
  induction hR with
  | nil => trivial
  | @cons p q ps qs hpq hrest ih =>
      cases hrest with
      | nil => exact hl p q hpq h
      | cons _ _ => exact ⟨he p q hpq h.1, ih h.2⟩

theorem Row.imp {ps : List (List Char)} (he : ∀ p, each p → each' p) (hl : ∀ p, last p → last' p)
    (h : Row each last ps) : Row each' last' ps := by
  have hs : List.Forall₂ Eq ps ps := List.forall₂_same.mpr fun p _ => rfl
  refine h.of_forall₂ hs ?_ ?_
  · rintro p q rfl hp
    exact he p hp
  · rintro p q rfl hp
    exact hl p hp

theorem Row.map {ps : List (List Char)} {f : List Char → List Char}
    (he : ∀ p, each p → each' (f p)) (hl : ∀ p, last p → last' (f p))
    (h : Row each last ps) : Row each' last' (ps.map f) := by
  have hf : List.Forall₂ (fun p q => q = f p) ps (ps.map f) := by
    rw [List.forall₂_map_right_iff]
    exact List.forall₂_same.mpr fun p _ => rfl
  refine h.of_forall₂ hf ?_ ?_
  · rintro p q rfl hp
    exact he p hp
  · rintro p q rfl hp
    exact hl p hp

theorem row_of_forall {ps : List (List Char)} (h : ∀ p ∈ ps, each p) : Row each each ps := by
  induction ps with
  | nil => trivial
  | cons p ps ih =>
      cases ps with
      | nil => exact h p List.mem_cons_self
      | cons q ps =>
          exact ⟨h p List.mem_cons_self, ih fun x hx => h x (List.mem_cons_of_mem _ hx)⟩

end Row

/-! ## Cutting gives a row -/

theorem pieces_cons (s : Scan) (c : Char) (cs : List Char) :
    s.pieces (c :: cs) = if s.separates c then [] :: (s.step c).pieces cs
      else Text.consFirst c ((s.step c).pieces cs) := rfl

theorem separates_iff {s : Scan} {c : Char} : s.separates c = true ↔ s = outside 0 ∧ c = ',' := by
  simp [separates]

/-- The first piece is scanned from where the scan starts, the others from the outside. -/
theorem exists_pieces (s : Scan) (cs : List Char) :
    ∃ p ps, s.pieces cs = p :: ps ∧ s.Uncut p
      ∧ (ps ≠ [] → s.run p = outside 0) ∧ Row Closed (outside 0).Uncut ps := by
  induction cs generalizing s with
  | nil => exact ⟨[], [], rfl, trivial, fun h => absurd rfl h, trivial⟩
  | cons c cs ih =>
      rw [pieces_cons]
      by_cases hs : s.separates c = true
      · -- the comma ends an empty first piece, and the next one is scanned from the outside
        obtain ⟨rfl, rfl⟩ := separates_iff.mp hs
        obtain ⟨p, ps, he, hu, hr, hrow⟩ := ih ((outside 0).step ',')
        rw [if_pos hs, he]
        refine ⟨[], p :: ps, rfl, trivial, fun _ => rfl, ?_⟩
        cases ps with
        | nil => exact hu
        | cons q qs => exact ⟨closed_of_run hu (hr (by simp)), hrow⟩
      · obtain ⟨p, ps, he, hu, hr, hrow⟩ := ih (s.step c)
        rw [if_neg hs, he]
        refine ⟨c :: p, ps, rfl, ⟨by simpa using hs, hu⟩, hr, hrow⟩

/-- **Every piece but the last is closed, and no piece contains a separating comma.** -/
theorem row_pieces (cs : List Char) : Row Closed (outside 0).Uncut ((outside 0).pieces cs) := by
  obtain ⟨p, ps, he, hu, hr, hrow⟩ := exists_pieces (outside 0) cs
  rw [he]
  cases ps with
  | nil => exact hu
  | cons q qs => exact ⟨closed_of_run hu (hr (by simp)), hrow⟩

theorem pieces_ne_nil (s : Scan) (cs : List Char) : s.pieces cs ≠ [] := by
  obtain ⟨p, ps, he, _⟩ := exists_pieces s cs
  rw [he]
  simp

/-- Nothing but the commas is lost. -/
theorem join_pieces (s : Scan) (cs : List Char) : [','].intercalate (s.pieces cs) = cs := by
  induction cs generalizing s with
  | nil => exact List.intercalate_singleton
  | cons c cs ih =>
      obtain ⟨p, ps, he, _⟩ := exists_pieces (s.step c) cs
      have hj := ih (s.step c)
      rw [he] at hj
      rw [pieces_cons, he]
      split
      · rename_i hs
        rw [List.intercalate_cons_cons, hj, (separates_iff.mp hs).2]
        rfl
      · rw [Text.consFirst, List.intercalate_cons_cons_left, hj]

/-! ## A row is cut where it was joined -/

theorem pieces_of_uncut {s : Scan} {cs : List Char} (h : s.Uncut cs) : s.pieces cs = [cs] := by
  induction cs generalizing s with
  | nil => rfl
  | cons c cs ih =>
      rw [pieces_cons, h.1, ih h.2]
      rfl

theorem pieces_append_comma {s : Scan} {cs : List Char} (h : s.Uncut cs)
    (hr : s.run cs = outside 0) (ds : List Char) :
    s.pieces (cs ++ ',' :: ds) = cs :: (outside 0).pieces ds := by
  induction cs generalizing s with
  | nil =>
      have hs : s = outside 0 := hr
      subst hs
      rfl
  | cons c cs ih =>
      rw [List.cons_append, pieces_cons, h.1, ih h.2 hr]
      rfl

/-- **A row that is joined by commas is cut into the same pieces.** -/
theorem pieces_join {ps : List (List Char)} (hne : ps ≠ []) (h : Row Closed (outside 0).Uncut ps) :
    (outside 0).pieces ([','].intercalate ps) = ps := by
  induction ps with
  | nil => exact absurd rfl hne
  | cons p ps ih =>
      cases ps with
      | nil =>
          rw [List.intercalate_singleton]
          exact pieces_of_uncut h
      | cons q qs =>
          have hc : Closed p := h.1
          rw [List.intercalate_cons_cons, List.append_assoc]
          show (outside 0).pieces (p ++ ',' :: [','].intercalate (q :: qs)) = _
          rw [pieces_append_comma hc.1 hc.run, ih (by simp) h.2]

/-- Blanks behind the commas belong to the pieces. -/
theorem intercalate_pad (pad p : List Char) (ps : List (List Char)) :
    (',' :: pad).intercalate (p :: ps) = [','].intercalate (p :: ps.map (pad ++ ·)) := by
  induction ps generalizing p with
  | nil => simp
  | cons q qs ih =>
      rw [List.map_cons, List.intercalate_cons_cons, List.intercalate_cons_cons, ih q]
      cases qs with
      | nil => simp
      | cons r rs => simp [List.intercalate_cons_cons]

/-! ## One level deeper -/

/-- Outside of strings, but inside of parentheses, nothing separates. -/
theorem uncut_of_neutral {cs : List Char} (h : ∀ c ∈ cs, Neutral c) (d : Nat) :
    (outside (d + 1)).Uncut cs := by
  induction cs with
  | nil => trivial
  | cons c cs ih =>
      refine ⟨separates_eq_false_iff.mpr (by simp), ?_⟩
      rw [step_neutral (h c List.mem_cons_self)]
      exact ih fun x hx => h x (List.mem_cons_of_mem _ hx)

/--
**Pieces that hold together one level deeper are steady.** If a piece closed a
parenthesis that it did not open, the comma behind it would separate.
-/
theorem Row.steady {ps : List (List Char)} (hu : (outside 1).Uncut ([','].intercalate ps))
    (h : Row Closed (outside 0).Uncut ps) : Row Steady (outside 0).Uncut ps := by
  induction ps with
  | nil => trivial
  | cons p ps ih =>
      cases ps with
      | nil => exact h
      | cons q qs =>
          have hc : Closed p := h.1
          rw [List.intercalate_cons_cons, List.append_assoc, uncut_append] at hu
          -- at which depth does the comma behind `p` stand, one level deeper?
          have hcomma := separates_eq_false_iff.mp hu.2.1
          obtain ⟨f, hf, _, hle⟩ := run_deeper 1 hc.run
          have hf' : (outside 1).run p = outside f := hf
          rw [hf'] at hcomma hu
          have hf1 : f = 1 := by
            rcases Nat.eq_zero_or_pos f with h0 | h0
            · exact absurd rfl (hcomma (by rw [h0]))
            · omega
          subst hf1
          exact ⟨⟨hc.1, keeps_of_two hc.run hf'⟩, ih hu.2.2 h.2⟩

section Join

variable {sep : List Char} {last Q : List Char → Prop} {ps : List (List Char)}

/-- Steady pieces and separators in front of a text do not change where it leads. -/
theorem run_steady_append {p : List Char} (hp : Steady p) (hsep : ∀ c ∈ sep, Neutral c)
    (cs : List Char) (d : Nat) : (outside d).run (p ++ sep ++ cs) = (outside d).run cs := by
  rw [run_append, run_append, hp.2 d (Nat.zero_le d), run_neutral hsep]

/-- What holds of a joined row because of where it leads holds of its last piece. -/
theorem Row.last_of_join (hQ : ∀ a b, (∀ d, (outside d).run a = (outside d).run b) → Q a → Q b)
    (hsep : ∀ c ∈ sep, Neutral c) (h : Row Steady last ps) (hj : Q (sep.intercalate ps)) :
    Row Steady (fun p => last p ∧ Q p) ps := by
  induction ps with
  | nil => trivial
  | cons p ps ih =>
      cases ps with
      | nil =>
          rw [List.intercalate_singleton] at hj
          exact ⟨h, hj⟩
      | cons q qs =>
          rw [List.intercalate_cons_cons] at hj
          exact ⟨h.1, ih h.2 (hQ _ _ (run_steady_append h.1 hsep _) hj)⟩

/-- What holds of the last piece because of where it leads holds of the joined row. -/
theorem Row.join_of_last (hQ : ∀ a b, (∀ d, (outside d).run a = (outside d).run b) → Q a → Q b)
    (hsep : ∀ c ∈ sep, Neutral c) (hne : ps ≠ []) (h : Row Steady Q ps) :
    Q (sep.intercalate ps) := by
  induction ps with
  | nil => exact absurd rfl hne
  | cons p ps ih =>
      cases ps with
      | nil =>
          rw [List.intercalate_singleton]
          exact h
      | cons q qs =>
          rw [List.intercalate_cons_cons]
          refine hQ _ _ (fun d => ?_) (ih (by simp) h.2)
          exact (run_steady_append h.1 hsep _ d).symm

/-- No comma of a joined row separates one level deeper. -/
theorem Row.uncut_join (hsep : ∀ c ∈ sep, Neutral c) (h : Row Steady (outside 0).Uncut ps)
    (d : Nat) : (outside (d + 1)).Uncut (sep.intercalate ps) := by
  induction ps with
  | nil => trivial
  | cons p ps ih =>
      cases ps with
      | nil =>
          rw [List.intercalate_singleton]
          exact Uncut.deeper h (d + 1)
      | cons q qs =>
          have hp : Steady p := h.1
          rw [List.intercalate_cons_cons, uncut_append, uncut_append, run_append,
            hp.2 (d + 1) (Nat.zero_le _), run_neutral hsep]
          exact ⟨⟨hp.1.deeper (d + 1), uncut_of_neutral hsep d⟩, ih h.2⟩

theorem closes_congr {k : Nat} (a b : List Char)
    (h : ∀ d, (outside d).run a = (outside d).run b) (ha : Closes k a) : Closes k b := by
  obtain ⟨e, he, hr⟩ := ha
  exact ⟨e, he, by rw [← h k]; exact hr⟩

theorem keeps_congr {k : Nat} (a b : List Char)
    (h : ∀ d, (outside d).run a = (outside d).run b) (ha : Keeps k a) : Keeps k b := by
  intro d hd
  rw [← h d]
  exact ha d hd

end Join

end AnswerSet.Scan
