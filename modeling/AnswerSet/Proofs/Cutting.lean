import AnswerSet.Proofs.Balance
import AnswerSet.Proofs.Nesting

/-!
# The arguments of a text are what its top-level commas separate

The statements here are about any text, well formed or not. A comma is at the top
level if what is in front of it leaves no literal and no parenthesis open
(`TopComma`). A cut of a text is a list of pieces that are joined by just its
top-level commas (`IsCut`): where two pieces meet there is one, and where there is
one two pieces meet.

**Every text has exactly one cut**, the one that the decoder makes
(`isCut_iff_eq_pieces`). That it is a cut follows from how a text is cut in front
of a comma and behind it. That there is no other one is shown piece by piece: the
first piece ends at the first top-level comma, and the scanner stands outside of
everything there, so the rest is cut as a text of its own.
-/

namespace AnswerSet

open Scan

/-! ## What the arguments are cut from -/

/-- The rest of a text without what is in front of it and behind it, or all of it if it does not
begin and end so. -/
def Stripped (front back cs rest : List Char) : Prop :=
  cs = front ++ rest ++ back ∨ (∀ inner, cs ≠ front ++ inner ++ back) ∧ rest = cs

/-- The trimmed text without its predicate, one full stop, blanks and one pair of parentheses. -/
def IsInner (predicate cs inner : List Char) : Prop :=
  ∃ rest body, Stripped predicate [] (Text.trim cs) rest ∧ Stripped [] ['.'] rest body
    ∧ Stripped ['('] [')'] (Text.trim body) inner

section Stripped

variable {front back cs rest inner : List Char}

/-- There is one rest, the one that a function finds which tries just that. -/
theorem stripped_iff {f : List Char → List Char}
    (hsplit : ∀ inner, cs = front ++ inner ++ back → f cs = inner)
    (hkeep : (∀ inner, cs ≠ front ++ inner ++ back) → f cs = cs) :
    Stripped front back cs rest ↔ rest = f cs := by
  by_cases h : ∃ inner, cs = front ++ inner ++ back
  · obtain ⟨inner, hinner⟩ := h
    rw [hsplit inner hinner]
    constructor
    · rintro (hrest | ⟨hnone, _⟩)
      · rw [hinner] at hrest
        exact (List.append_cancel_left (List.append_cancel_right hrest)).symm
      · exact absurd hinner (hnone inner)
    · rintro rfl
      exact Or.inl hinner
  · have hnone := not_exists.mp h
    rw [hkeep hnone]
    constructor
    · rintro (hrest | ⟨_, hrest⟩)
      · exact absurd hrest (hnone rest)
      · exact hrest
    · rintro rfl
      exact Or.inr ⟨hnone, rfl⟩

theorem stripped_predicate_iff {predicate : List Char} :
    Stripped predicate [] cs rest ↔ rest = (Text.dropPrefix? predicate cs).getD cs := by
  refine stripped_iff (f := fun cs => (Text.dropPrefix? predicate cs).getD cs)
    (fun inner h => ?_) fun h => ?_
  · rw [List.append_nil] at h
    rw [Text.dropPrefix?_eq_some_iff.mpr h, Option.getD_some]
  · cases hp : Text.dropPrefix? predicate cs with
    | none => rfl
    | some inner =>
        refine absurd (Text.dropPrefix?_eq_some_iff.mp hp) ?_
        have hne := h inner
        rwa [List.append_nil] at hne

theorem stripped_stop_iff : Stripped [] ['.'] cs rest ↔ rest = dropStop cs := by
  refine stripped_iff (fun inner h => ?_) fun h => ?_
  · rw [h, List.nil_append, dropStop, List.getLast?_concat, if_pos rfl, List.dropLast_concat]
  · rcases dropStop_cases cs with hkeep | hdrop
    · exact hkeep
    · exact absurd hdrop (h _)

theorem stripped_parens_iff : Stripped ['('] [')'] cs rest ↔ rest = dropParens cs := by
  refine stripped_iff (fun inner h => ?_) fun h => ?_
  · rw [h]
    exact dropParens_wrapped inner
  · rcases dropParens_cases cs with hkeep | hdrop
    · exact hkeep
    · exact absurd hdrop (h _)

theorem isInner_iff {predicate : List Char} :
    IsInner predicate cs inner ↔ inner = argumentText predicate cs := by
  simp only [IsInner, stripped_predicate_iff, stripped_stop_iff, stripped_parens_iff]
  constructor
  · rintro ⟨_, _, rfl, rfl, rfl⟩
    rfl
  · intro h
    exact ⟨_, _, rfl, rfl, h⟩

end Stripped

/-! ## Cuts -/

/-- The text has a comma between the two parts, outside of literals and parentheses. -/
def TopComma (cs before after : List Char) : Prop :=
  cs = before ++ ',' :: after ∧ Opens True before 0

/-- The list is cut in two where the pieces in front make up one text and those behind another. -/
def Meets (pieces : List (List Char)) (before after : List Char) : Prop :=
  ∃ xs ys, xs ≠ [] ∧ ys ≠ [] ∧ pieces = xs ++ ys
    ∧ [','].intercalate xs = before ∧ [','].intercalate ys = after

/-- Joined by commas, the pieces are the text, and they meet exactly at its top-level commas. -/
def IsCut (cs : List Char) (pieces : List (List Char)) : Prop :=
  pieces ≠ [] ∧ [','].intercalate pieces = cs
    ∧ ∀ before after, cs = before ++ ',' :: after →
      (Meets pieces before after ↔ TopComma cs before after)

section Cut

variable {cs before after : List Char} {pieces : List (List Char)}

theorem topComma_iff_run (h : cs = before ++ ',' :: after) :
    TopComma cs before after ↔ (outside 0).run before = outside 0 := by
  rw [TopComma, opens_iff_run, and_iff_right h]

/-- No comma of the text separates if none is at the top level. -/
theorem uncut_iff : (outside 0).Uncut cs ↔ ∀ before after, ¬ TopComma cs before after := by
  constructor
  · rintro hu before after ⟨rfl, hopens⟩
    rw [opens_iff_run] at hopens
    obtain ⟨-, hcomma, -⟩ := uncut_append.mp hu
    rw [hopens] at hcomma
    exact absurd hcomma (by decide)
  · intro h
    -- along the text, with what was read so far in front of it
    have hrest : ∀ (done rest : List Char), cs = done ++ rest →
        ((outside 0).run done).Uncut rest := by
      intro done rest
      induction rest generalizing done with
      | nil => exact fun _ => trivial
      | cons c rest ih =>
          intro he
          refine ⟨separates_eq_false_iff.mpr fun hs hc => ?_, ?_⟩
          · subst hc
            exact h done rest ((topComma_iff_run he).mpr hs)
          · have hnext := ih (done ++ [c]) (by rw [he]; simp)
            rwa [run_append] at hnext
    exact hrest [] cs rfl

theorem length_le_intercalate (p : List Char) (ps : List (List Char)) :
    p.length ≤ ([','].intercalate (p :: ps)).length := by
  cases ps with
  | nil => rw [List.intercalate_singleton]
  | cons q qs =>
      rw [List.intercalate_cons_cons, List.append_assoc, List.length_append]
      omega

/-- Behind their first piece, pieces meet where they meet without it. -/
theorem meets_cons {p : List Char} :
    Meets (p :: pieces) (p ++ ',' :: before) after ↔ Meets pieces before after := by
  constructor
  · rintro ⟨xs, ys, hx, hy, he, hbefore, hafter⟩
    cases xs with
    | nil => exact absurd rfl hx
    | cons x xs =>
        injection he with hp he
        subst hp
        cases xs with
        | nil =>
            -- the first piece alone is too short
            rw [List.intercalate_singleton] at hbefore
            have hlen := congrArg List.length hbefore
            simp at hlen
        | cons x' xs =>
            rw [List.intercalate_cons_cons, List.append_assoc] at hbefore
            have hrest := List.append_cancel_left hbefore
            injection hrest with _ hrest
            exact ⟨x' :: xs, ys, by simp, hy, he, hrest, hafter⟩
  · rintro ⟨xs, ys, hx, hy, rfl, rfl, hafter⟩
    refine ⟨p :: xs, ys, by simp, hy, rfl, ?_, hafter⟩
    rw [List.intercalate_cons_of_ne_nil hx, List.append_assoc]
    rfl

/-! ### The pieces are a cut -/

theorem pieces_append {s : Scan} (h : s.run cs = outside 0) (ds : List Char) :
    s.pieces (cs ++ ',' :: ds) = s.pieces cs ++ (outside 0).pieces ds := by
  induction cs generalizing s with
  | nil =>
      have hs : s = outside 0 := h
      subst hs
      rfl
  | cons c cs ih =>
      obtain ⟨p, ps, hp, -⟩ := exists_pieces (s.step c) cs
      rw [List.cons_append, pieces_cons, pieces_cons, ih h, hp]
      split
      · rfl
      · rfl

theorem run_intercalate_of_row {last : List Char → Prop} {xs ys : List (List Char)} (hy : ys ≠ [])
    (h : Row Closed last (xs ++ ys)) :
    (outside 0).run ([','].intercalate xs) = outside 0 := by
  induction xs with
  | nil => rfl
  | cons x xs ih =>
      cases xs with
      | nil =>
          cases ys with
          | nil => exact absurd rfl hy
          | cons y ys =>
              have hx : Closed x := h.1
              rw [List.intercalate_singleton, hx.run]
      | cons x' xs =>
          have hx : Closed x := h.1
          rw [List.intercalate_cons_cons, run_append, run_append, hx.run]
          exact ih h.2

theorem isCut_pieces (cs : List Char) : IsCut cs ((outside 0).pieces cs) := by
  refine ⟨pieces_ne_nil _ _, join_pieces _ _, fun before after he => ?_⟩
  rw [topComma_iff_run he]
  constructor
  · rintro ⟨xs, ys, _, hy, hpieces, rfl, _⟩
    have hrow := row_pieces cs
    rw [hpieces] at hrow
    exact run_intercalate_of_row hy hrow
  · intro hrun
    refine ⟨(outside 0).pieces before, (outside 0).pieces after, pieces_ne_nil _ _,
      pieces_ne_nil _ _, ?_, join_pieces _ _, join_pieces _ _⟩
    rw [he, pieces_append hrun]

/-! ### There is no other cut -/

/-- The first piece ends in front of the first top-level comma. -/
theorem IsCut.first {p q : List Char} {ps : List (List Char)} (h : IsCut cs (p :: q :: ps)) :
    cs = p ++ ',' :: [','].intercalate (q :: ps) ∧ (outside 0).run p = outside 0
      ∧ (outside 0).Uncut p := by
  obtain ⟨-, hjoin, hmeets⟩ := h
  have hcs : cs = p ++ ',' :: [','].intercalate (q :: ps) := by
    rw [← hjoin, List.intercalate_cons_cons, List.append_assoc]
    rfl
  refine ⟨hcs, ?_, uncut_iff.mpr ?_⟩
  · have hfirst : Meets (p :: q :: ps) p ([','].intercalate (q :: ps)) :=
      ⟨[p], q :: ps, by simp, by simp, rfl, List.intercalate_singleton, rfl⟩
    exact (topComma_iff_run hcs).mp ((hmeets _ _ hcs).mp hfirst)
  · rintro before after ⟨hp, hopens⟩
    -- at a comma in the first piece, pieces would meet before that piece ends
    have hearly : cs = before ++ ',' :: (after ++ ',' :: [','].intercalate (q :: ps)) := by
      rw [hcs, hp, List.append_assoc]
      rfl
    obtain ⟨xs, ys, hx, -, he, hbefore, -⟩ := (hmeets _ _ hearly).mpr ⟨hearly, hopens⟩
    cases xs with
    | nil => exact hx rfl
    | cons x xs =>
        injection he with hxp _
        have hle := length_le_intercalate x xs
        rw [hbefore, ← hxp, hp, List.length_append, List.length_cons] at hle
        omega

/-- Behind the first piece, the rest is cut as a text of its own. -/
theorem IsCut.rest {p q : List Char} {ps : List (List Char)} (h : IsCut cs (p :: q :: ps)) :
    IsCut ([','].intercalate (q :: ps)) (q :: ps) := by
  obtain ⟨hcs, hrun, -⟩ := h.first
  refine ⟨by simp, rfl, fun before after he => ?_⟩
  have hlong : cs = (p ++ ',' :: before) ++ ',' :: after := by
    rw [hcs, he, List.append_assoc]
    rfl
  have hsame : (outside 0).run (p ++ ',' :: before) = (outside 0).run before := by
    rw [run_append, hrun]
    rfl
  rw [← meets_cons, h.2.2 _ _ hlong, topComma_iff_run hlong, topComma_iff_run he, hsame]

theorem IsCut.eq_pieces (h : IsCut cs pieces) : pieces = (outside 0).pieces cs := by
  induction pieces generalizing cs with
  | nil => exact absurd rfl h.1
  | cons p ps ih =>
      cases ps with
      | nil =>
          obtain ⟨-, hjoin, hmeets⟩ := h
          rw [List.intercalate_singleton] at hjoin
          subst hjoin
          refine (pieces_of_uncut (uncut_iff.mpr ?_)).symm
          intro before after htop
          -- one piece alone meets no other
          obtain ⟨xs, ys, hx, hy, he, -, -⟩ := (hmeets _ _ htop.1).mpr htop
          have hlen := congrArg List.length he
          have hxl := List.length_pos_iff.mpr hx
          have hyl := List.length_pos_iff.mpr hy
          simp only [List.length_cons, List.length_nil, List.length_append] at hlen
          omega
      | cons q qs =>
          obtain ⟨hcs, hrun, huncut⟩ := h.first
          rw [hcs, pieces_append_comma huncut hrun, ← ih h.rest]

/-- **There is exactly one cut**, and it consists of the pieces that the scanner finds. -/
theorem isCut_iff_eq_pieces : IsCut cs pieces ↔ pieces = (outside 0).pieces cs := by
  constructor
  · intro h
    exact h.eq_pieces
  · rintro rfl
    exact isCut_pieces cs

end Cut

/-! ## Arguments that were written -/

/-- A text that is found again as an argument: it has no blank at an end, is not empty, closes all
that it opens and nothing else, and has no comma outside of that. -/
structure IsArgument (text : String) : Prop where
  trimmed : Text.trim text.toList = text.toList
  nonempty : text ≠ ""
  balanced : Balanced text.toList
  joint : ∀ before after, ¬ TopComma text.toList before after

section Written

variable {predicate comma text : String} {texts : List String} {before stop after : List Char}

theorem IsArgument.steady (h : IsArgument text) : Steady text.toList :=
  ⟨uncut_iff.mpr h.joint, balanced_iff_keeps.mp h.balanced⟩

theorem isArgument_of_steady (hs : Steady text.toList)
    (ht : Text.trim text.toList = text.toList) (hne : text ≠ "") : IsArgument text :=
  ⟨ht, hne, balanced_iff_keeps.mpr hs.2, uncut_iff.mp hs.1⟩

/-- Two depths are enough to find out whether a text is an argument. -/
theorem isArgument_iff : IsArgument text ↔ Text.trim text.toList = text.toList ∧ text ≠ ""
    ∧ (outside 0).Uncut text.toList ∧ (outside 0).run text.toList = outside 0
    ∧ (outside 1).run text.toList = outside 1 := by
  constructor
  · intro h
    exact ⟨h.trimmed, h.nonempty, h.steady.1, h.steady.2 0 (Nat.le_refl 0),
      h.steady.2 1 (Nat.zero_le 1)⟩
  · rintro ⟨ht, hne, hu, h0, h1⟩
    exact isArgument_of_steady ⟨hu, keeps_of_two h0 h1⟩ ht hne

instance decidableUncut : (s : Scan) → (cs : List Char) → Decidable (s.Uncut cs)
  | _, [] => isTrue trivial
  | s, c :: cs =>
    have := decidableUncut (s.step c) cs
    decidable_of_iff (s.separates c = false ∧ (s.step c).Uncut cs) uncut_cons.symm

instance (text : String) : Decidable (IsArgument text) := decidable_of_iff _ isArgument_iff.symm

/-- **What was written as an argument is found as one.** -/
theorem arguments_of_isArgument (hn : isPredicateName predicate = true) (hc : Spaced comma)
    (h : ∀ text ∈ texts, IsArgument text) (hs : IsStop stop) (hb : Text.Blank before)
    (ha : Text.Blank after) :
    arguments predicate.toList
        (before ++ ((application comma predicate texts).toList ++ stop) ++ after)
      = texts.map String.toList := by
  have hsingle : texts ≠ [""] := by
    rintro rfl
    exact (h "" (List.mem_singleton_self "")).nonempty rfl
  have hrow : Row Steady Steady (texts.map String.toList) := by
    refine row_of_forall fun p hp => ?_
    obtain ⟨text, ht, rfl⟩ := List.mem_map.mp hp
    exact (h text ht).steady
  exact arguments_application hn hc hs hb ha hsingle (fun text ht => (h text ht).trimmed)
    (hrow.imp (fun _ hp => hp.closed) fun _ hp => hp.1)

end Written

/-! ## Splitting -/

/--
**Splitting cuts exactly at the top-level commas**, on every text.

Whatever the predicate and the text are, there is one inner text between them. No
argument is found exactly if it is blank. Otherwise it has one cut, and the arguments
are the pieces of this cut in order, each without the blanks at its ends. And texts
that were written as the arguments of a predicate, with or without blanks behind the
commas, are what is found again.
-/
theorem splitArguments_cuts (predicate text : String) :
    ∃ inner, (∀ other, IsInner predicate.toList text.toList other ↔ other = inner)
      ∧ (splitArguments predicate text = [] ↔ Text.Blank inner)
      ∧ (¬ Text.Blank inner → ∃ pieces,
          (∀ other, IsCut inner other ↔ other = pieces)
          ∧ splitArguments predicate text = pieces.map fun piece => .ofList (Text.trim piece))
      ∧ ∀ (comma : String) (texts : List String) (before stop after : List Char),
          isPredicateName predicate = true → Spaced comma → texts ≠ [] →
          (∀ argument ∈ texts, IsArgument argument) →
          Text.Blank before → IsStop stop → Text.Blank after →
          text.toList = before ++ ((application comma predicate texts).toList ++ stop) ++ after →
          splitArguments predicate text = texts := by
  have hmap : ∀ found, arguments predicate.toList text.toList = found →
      splitArguments predicate text = found.map String.ofList := by
    rintro _ rfl
    rfl
  refine ⟨argumentText predicate.toList text.toList, fun other => isInner_iff, ?_, ?_, ?_⟩
  · rcases arguments_cases predicate.toList text.toList with ⟨hblank, hargs⟩ | ⟨hne, hargs⟩
    · rw [hmap _ hargs]
      exact ⟨fun _ => hblank, fun _ => rfl⟩
    · rw [hmap _ hargs]
      refine ⟨fun hnil => ?_, fun hblank => absurd hblank hne⟩
      simp only [List.map_eq_nil_iff] at hnil
      exact absurd hnil (pieces_ne_nil _ _)
  · intro hne
    rcases arguments_cases predicate.toList text.toList with ⟨hblank, -⟩ | ⟨-, hargs⟩
    · exact absurd hblank hne
    · refine ⟨_, fun other => isCut_iff_eq_pieces, ?_⟩
      rw [hmap _ hargs, List.map_map]
      rfl
  · intro comma texts before stop after hn hc _ htexts hb hs ha htext
    have hargs := arguments_of_isArgument hn hc htexts hs hb ha
    rw [← htext] at hargs
    rw [hmap _ hargs, List.map_map]
    simp

/-- A route with a string that holds a comma, a nested atom and a variable. -/
def routeArguments : List String := ["\"a, (b\"", "leg(1, 2)", "X"]

/-- The three arguments are found again, with a full stop and blanks around the route. -/
theorem splitArguments_cuts_route :
    isPredicateName "route" = true ∧ Spaced ", " ∧ routeArguments ≠ []
      ∧ (∀ argument ∈ routeArguments, IsArgument argument)
      ∧ splitArguments "route" " route(\"a, (b\", leg(1, 2), X).\n" = routeArguments := by
  have hname : isPredicateName "route" = true := by decide
  have harguments : ∀ argument ∈ routeArguments, IsArgument argument := by decide
  obtain ⟨-, -, -, -, hwritten⟩ :=
    splitArguments_cuts "route" " route(\"a, (b\", leg(1, 2), X).\n"
  refine ⟨hname, spaced_program, by decide, harguments, ?_⟩
  exact hwritten ", " routeArguments [' '] ['.'] ['\n'] hname spaced_program (by decide)
    harguments (by decide) (Or.inr rfl) (by decide) (by decide)

end AnswerSet
