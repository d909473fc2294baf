import AnswerSet.Proofs.Application

/-!
# The arguments of any text

Nothing is assumed about the text here: it may leave strings open, close what it
never opened, or have no closing parenthesis at all. As long as it is taken for
an atom of a predicate, its arguments form a row, and they say something about
the text they came from.

`Follows a b` says that `b` can stand wherever `a` stood: if no comma of `a`
separates, none of `b` does, and `b` ends outside of strings, or where it started,
at least from the depths from which `a` does. The main statement is
`follows_application`: if texts follow the arguments one by one, the application
to these texts follows the text that the arguments were cut from. This is how the
decoder's cuts at an outer and at an inner level agree again after rewriting.
-/

namespace AnswerSet

open Scan

/-! ## Pieces without the blanks around them -/

theorem run_surrounded {before cs after : List Char} {d e : Nat} (hb : ∀ c ∈ before, Neutral c)
    (ha : ∀ c ∈ after, Neutral c) (h : (outside d).run (before ++ cs ++ after) = outside e) :
    (outside d).run cs = outside e := by
  rw [run_append, run_append, run_neutral hb] at h
  exact eq_of_run_neutral ha h

theorem run_trim {cs : List Char} {d e : Nat} (h : (outside d).run cs = outside e) :
    (outside d).run (Text.trim cs) = outside e := by
  obtain ⟨before, after, hb, ha, he⟩ := Text.exists_trim cs
  rw [he] at h
  exact run_surrounded (neutral_of_blank hb) (neutral_of_blank ha) h

theorem uncut_trim {cs : List Char} (h : (outside 0).Uncut cs) :
    (outside 0).Uncut (Text.trim cs) := by
  obtain ⟨before, after, hb, _, he⟩ := Text.exists_trim cs
  rw [he, uncut_append, uncut_append, run_neutral (neutral_of_blank hb)] at h
  exact h.1.2

theorem closes_trim {k : Nat} {cs : List Char} (h : Closes k cs) : Closes k (Text.trim cs) := by
  obtain ⟨e, he, hr⟩ := h
  exact ⟨e, he, run_trim hr⟩

theorem keeps_trim {k : Nat} {cs : List Char} (h : Keeps k cs) : Keeps k (Text.trim cs) :=
  fun d hd => run_trim (h d hd)

/-! ## Where the arguments stand in the text -/

theorem dropStop_cases (cs : List Char) : dropStop cs = cs ∨ cs = dropStop cs ++ ['.'] := by
  unfold dropStop
  split
  · rename_i h
    exact Or.inr (List.dropLast_append_getLast? '.' h).symm
  · exact Or.inl rfl

theorem dropParens_cases (cs : List Char) :
    dropParens cs = cs ∨ cs = '(' :: (dropParens cs ++ [')']) := by
  unfold dropParens
  split
  · split
    · rename_i h
      exact Or.inr (congrArg ('(' :: ·) (List.dropLast_append_getLast? ')' h).symm)
    · exact Or.inl rfl
  · exact Or.inl rfl

theorem argumentText_eq {predicate cs rest : List Char}
    (h : Text.dropPrefix? predicate (Text.trim cs) = some rest) :
    argumentText predicate cs = dropParens (Text.trim (dropStop rest)) := by
  show dropParens (Text.trim (dropStop ((Text.dropPrefix? _ (Text.trim _)).getD _))) = _
  rw [h, Option.getD_some]

/-- Dropping a full stop and blanks keeps an opening parenthesis in front. -/
theorem exists_trim_dropStop (r : List Char) :
    ∃ t tail, Text.trim (dropStop ('(' :: r)) = '(' :: t ∧ (∀ c ∈ tail, Neutral c)
      ∧ '(' :: r = '(' :: t ++ tail := by
  have hstop : ∃ r' stop, dropStop ('(' :: r) = '(' :: r' ∧ (∀ c ∈ stop, Neutral c)
      ∧ '(' :: r = '(' :: r' ++ stop := by
    rcases dropStop_cases ('(' :: r) with h | h
    · exact ⟨r, [], h, by simp, by simp⟩
    · cases hd : dropStop ('(' :: r) with
      | nil => rw [hd] at h; exact absurd h (by simp)
      | cons c r' =>
          rw [hd] at h
          injection h with hc hr
          exact ⟨r', ['.'], by rw [← hc], IsStop.neutral (Or.inr rfl), by rw [hr]; rfl⟩
  obtain ⟨r', stop, hd, hs, hr⟩ := hstop
  obtain ⟨t, after, ht, ha, hr'⟩ := Text.exists_trim_cons (c := '(') (by decide) r'
  refine ⟨t, after ++ stop, by rw [hd, ht], ?_, ?_⟩
  · exact List.forall_mem_append.mpr ⟨neutral_of_blank ha, hs⟩
  · rw [hr, hr']
    simp

/--
**Where the argument text is found.** It stands between the predicate's parentheses,
or, if there is no closing parenthesis at the end, it is all that follows the
predicate.
-/
theorem argumentText_shape {predicate cs : List Char} (h : isAtomOf predicate cs = true) :
    ∃ before tail, Text.Blank before ∧ (∀ c ∈ tail, Neutral c)
      ∧ (cs = before ++ predicate ++ '(' :: (argumentText predicate cs ++ ')' :: tail)
        ∨ cs = before ++ predicate ++ argumentText predicate cs ++ tail) := by
  unfold isAtomOf at h
  cases hp : Text.dropPrefix? predicate (Text.trim cs) with
  | none => rw [hp] at h; exact absurd h (by simp)
  | some rest =>
      rw [hp] at h
      have ha := argumentText_eq hp
      obtain ⟨before, after, hb, haft, he⟩ := Text.exists_trim cs
      rw [Text.dropPrefix?_eq_some_iff.mp hp] at he
      cases rest with
      | nil =>
          have hnil : argumentText predicate cs = [] := by rw [ha]; rfl
          refine ⟨before, after, hb, neutral_of_blank haft, Or.inr ?_⟩
          rw [hnil, he]
          simp
      | cons c r =>
          have hcr : c = '(' ∨ c :: r = ['.'] := by simpa using h
          rcases hcr with rfl | hr
          · obtain ⟨t, tail, ht, htail, hsplit⟩ := exists_trim_dropStop r
            rw [ht] at ha
            have htail' : ∀ c ∈ tail ++ after, Neutral c :=
              List.forall_mem_append.mpr ⟨htail, neutral_of_blank haft⟩
            refine ⟨before, tail ++ after, hb, htail', ?_⟩
            rcases dropParens_cases ('(' :: t) with hd | hd
            · refine Or.inr ?_
              rw [ha, hd, he, hsplit]
              simp
            · refine Or.inl ?_
              have hwrapped : cs = before ++ (predicate
                  ++ ('(' :: (dropParens ('(' :: t) ++ [')']) ++ tail)) ++ after := by
                rw [he, hsplit, ← hd]
              rw [ha, hwrapped]
              simp
          · -- the predicate alone, with its full stop
            have hnil : argumentText predicate cs = [] := by rw [ha, hr]; rfl
            have htail : ∀ c ∈ ['.'] ++ after, Neutral c :=
              List.forall_mem_append.mpr ⟨IsStop.neutral (Or.inr rfl), neutral_of_blank haft⟩
            refine ⟨before, ['.'] ++ after, hb, htail, Or.inr ?_⟩
            rw [hnil, he, hr]
            simp

/-! ## The arguments of a text -/

section Arguments

variable {predicate cs : List Char}

/-- A blank text has no arguments, any other one has those between its commas. -/
theorem arguments_cases (predicate cs : List Char) :
    Text.Blank (argumentText predicate cs) ∧ arguments predicate cs = []
      ∨ ¬ Text.Blank (argumentText predicate cs) ∧ arguments predicate cs
        = ((outside 0).pieces (argumentText predicate cs)).map Text.trim := by
  have hb : (Text.trim (argumentText predicate cs)).isEmpty = true
      ↔ Text.Blank (argumentText predicate cs) := by
    rw [List.isEmpty_iff, Text.trim_eq_nil_iff]
  unfold arguments
  by_cases h : Text.Blank (argumentText predicate cs)
  · exact Or.inl ⟨h, if_pos (hb.mpr h)⟩
  · exact Or.inr ⟨h, if_neg (mt hb.mp h)⟩

theorem trim_of_mem_arguments {p : List Char} (h : p ∈ arguments predicate cs) :
    Text.trim p = p := by
  rcases arguments_cases predicate cs with ⟨_, he⟩ | ⟨_, he⟩
  · rw [he] at h
    exact absurd h (by simp)
  · rw [he] at h
    obtain ⟨q, _, rfl⟩ := List.mem_map.mp h
    exact Text.trim_trim q

/-- A single argument is not empty: what is blank between the parentheses is no argument. -/
theorem arguments_ne_singleton : arguments predicate cs ≠ [[]] := by
  rcases arguments_cases predicate cs with ⟨_, hargs⟩ | ⟨hnb, hargs⟩
  · rw [hargs]
    simp
  · rw [hargs]
    intro he
    have hj := join_pieces (outside 0) (argumentText predicate cs)
    cases hp : (outside 0).pieces (argumentText predicate cs) with
    | nil => exact pieces_ne_nil _ _ hp
    | cons p ps =>
        rw [hp, List.map_cons] at he
        injection he with hp0 hps
        rw [hp, List.map_eq_nil_iff.mp hps, List.intercalate_singleton] at hj
        exact hnb (by rw [← hj]; exact Text.trim_eq_nil_iff.mp hp0)

/-- At the top level, every argument but the last is closed. -/
theorem row_arguments (predicate cs : List Char) :
    Row Closed (outside 0).Uncut (arguments predicate cs) := by
  rcases arguments_cases predicate cs with ⟨_, he⟩ | ⟨_, he⟩
  · rw [he]
    trivial
  · rw [he]
    exact (row_pieces _).map (fun p hp => ⟨uncut_trim hp.1, closes_trim hp.2⟩)
      fun p hp => uncut_trim hp

/-- The state in front of a closing parenthesis and neutral characters. -/
theorem exists_run_of_closed {inner tail : List Char} {d e : Nat} (ht : ∀ c ∈ tail, Neutral c)
    (h : (outside d).run (inner ++ ')' :: tail) = outside e) :
    ∃ f, (outside d).run inner = outside f ∧ f - 1 = e := by
  rw [run_append, run_cons] at h
  exact eq_of_step_close (eq_of_run_neutral ht h)

/-- From inside of its parentheses, an argument text is as well behaved as the whole. -/
theorem closes_inner {before inner tail : List Char} (hb : ∀ c ∈ before, Neutral c)
    (ht : ∀ c ∈ tail, Neutral c) {k : Nat}
    (h : Closes k (before ++ '(' :: (inner ++ ')' :: tail))) : Closes (k + 1) inner := by
  obtain ⟨e, he, hr⟩ := h
  rw [run_append, run_neutral hb, run_cons, step_open] at hr
  obtain ⟨f, hf, hfe⟩ := exists_run_of_closed ht hr
  exact ⟨f, by omega, hf⟩

theorem keeps_inner {before inner tail : List Char} (hb : ∀ c ∈ before, Neutral c)
    (ht : ∀ c ∈ tail, Neutral c) {k : Nat}
    (h : Keeps k (before ++ '(' :: (inner ++ ')' :: tail))) : Keeps (k + 1) inner := by
  have hinner : ∀ d, k ≤ d → ∃ f, (outside (d + 1)).run inner = outside f ∧ f - 1 = d := by
    intro d hd
    have hr := h d hd
    rw [run_append, run_neutral hb, run_cons, step_open] at hr
    exact exists_run_of_closed ht hr
  intro d hd
  obtain ⟨m, rfl⟩ : ∃ m, d = m + 1 := ⟨d - 1, by omega⟩
  obtain ⟨f, hf, hfm⟩ := hinner m (by omega)
  obtain ⟨g, hg, hgm⟩ := hinner (m + 1) (by omega)
  -- one level further down the scan ends at `m + 2`, so up here it cannot end below `m + 1`
  obtain ⟨g', hg', _, hle⟩ := run_deeper 1 hf
  have hgg : g = g' := by
    rw [hg] at hg'
    injection hg'
  rw [hf]
  congr 1
  omega

/--
How the pieces of an argument text stand inside of the text `cs` around them: every
piece but the last is steady, and the last one ends where `cs` lets it end.
-/
structure NestedRow (cs : List Char) (ps : List (List Char)) : Prop where
  uncut : Row Steady (outside 0).Uncut ps
  closes : ∀ k, Closes k cs → Row Steady (Closes (k + 1)) ps
  keeps : ∀ k, Keeps k cs → Row Steady (Keeps (k + 1)) ps

theorem NestedRow.trim {ps : List (List Char)} (h : NestedRow cs ps) :
    NestedRow cs (ps.map Text.trim) := by
  have hsteady : ∀ p, Steady p → Steady (Text.trim p) :=
    fun p hp => ⟨uncut_trim hp.1, keeps_trim hp.2⟩
  exact ⟨h.uncut.map hsteady fun p hp => uncut_trim hp,
    fun k hk => (h.closes k hk).map hsteady fun p hp => closes_trim hp,
    fun k hk => (h.keeps k hk).map hsteady fun p hp => keeps_trim hp⟩

section Shapes

variable {front inner tail : List Char}

/-- In parentheses, the pieces hold together one level deeper. -/
theorem nestedRow_bracketed (hf : ∀ c ∈ front, Neutral c) (ht : ∀ c ∈ tail, Neutral c)
    (hu : (outside 0).Uncut (front ++ '(' :: (inner ++ ')' :: tail))) :
    NestedRow (front ++ '(' :: (inner ++ ')' :: tail)) ((outside 0).pieces inner) := by
  have hcut : (outside 1).Uncut inner := by
    have hopen := (uncut_append.mp hu).2
    rw [run_neutral hf, uncut_cons, step_open] at hopen
    exact (uncut_append.mp hopen.2).1
  have hrow : Row Steady (outside 0).Uncut ((outside 0).pieces inner) := by
    refine Row.steady ?_ (row_pieces inner)
    rw [join_pieces]
    exact hcut
  have hsep : ∀ c ∈ [','], Neutral c := by
    intro c hc
    rw [List.mem_singleton.mp hc]
    exact ⟨by decide, by decide, by decide⟩
  refine ⟨hrow, fun k hk => ?_, fun k hk => ?_⟩
  · -- where the row leads is where its last piece leads
    have hin : Closes (k + 1) ([','].intercalate ((outside 0).pieces inner)) := by
      rw [join_pieces]
      exact closes_inner hf ht hk
    exact (Row.last_of_join closes_congr hsep hrow hin).imp (fun _ hp => hp) fun _ hp => hp.2
  · have hin : Keeps (k + 1) ([','].intercalate ((outside 0).pieces inner)) := by
      rw [join_pieces]
      exact keeps_inner hf ht hk
    exact (Row.last_of_join keeps_congr hsep hrow hin).imp (fun _ hp => hp) fun _ hp => hp.2

/-- Without a closing parenthesis, the text is its own and only piece. -/
theorem nestedRow_unclosed (hf : ∀ c ∈ front, Neutral c) (ht : ∀ c ∈ tail, Neutral c)
    (hu : (outside 0).Uncut (front ++ inner ++ tail)) :
    NestedRow (front ++ inner ++ tail) ((outside 0).pieces inner) := by
  have hcut : (outside 0).Uncut inner := by
    have hfront := (uncut_append.mp (uncut_append.mp hu).1).2
    rwa [run_neutral hf] at hfront
  rw [pieces_of_uncut hcut]
  refine ⟨hcut, fun k hk => ?_, fun k hk => ?_⟩
  · obtain ⟨e, he, hr⟩ := hk
    exact Closes.succ ⟨e, he, run_surrounded hf ht hr⟩
  · have hkeep : Keeps k inner := fun d hd => run_surrounded hf ht (hk d hd)
    exact hkeep.mono (Nat.le_succ k)

end Shapes

/--
**One level down, every argument but the last is steady**, and the last one ends
where the text around it lets it end.
-/
theorem row_nested_arguments (hn : ∀ c ∈ predicate, Neutral c) (h : isAtomOf predicate cs = true)
    (hu : (outside 0).Uncut cs) : NestedRow cs (arguments predicate cs) := by
  rcases arguments_cases predicate cs with ⟨_, he⟩ | ⟨_, he⟩
  · rw [he]
    exact ⟨trivial, fun _ _ => trivial, fun _ _ => trivial⟩
  · rw [he]
    refine NestedRow.trim ?_
    obtain ⟨before, tail, hb, ht, hshape⟩ := argumentText_shape h
    have hfront : ∀ c ∈ before ++ predicate, Neutral c :=
      List.forall_mem_append.mpr ⟨neutral_of_blank hb, hn⟩
    generalize argumentText predicate cs = inner at hshape
    rcases hshape with hcs | hcs
    · rw [hcs] at hu ⊢
      exact nestedRow_bracketed hfront ht hu
    · rw [hcs] at hu ⊢
      exact nestedRow_unclosed hfront ht hu

end Arguments

/-! ## Texts that can stand for one another -/

/-- The second text can stand wherever the first one stood without being cut. -/
def Follows (a b : List Char) : Prop :=
  (outside 0).Uncut a →
    (outside 0).Uncut b ∧ (∀ k, Closes k a → Closes k b) ∧ ∀ k, Keeps k a → Keeps k b

theorem follows_refl (a : List Char) : Follows a a :=
  fun hu => ⟨hu, fun _ h => h, fun _ h => h⟩

/-- A steady text can stand anywhere. -/
theorem follows_steady (a : List Char) {b : List Char} (h : Steady b) : Follows a b :=
  fun _ => ⟨h.1, fun _ _ => (h.2.mono (Nat.zero_le _)).closes, fun _ _ => h.2.mono (Nat.zero_le _)⟩

theorem Follows.closed {a b : List Char} (h : Follows a b) (ha : Closed a) : Closed b :=
  ⟨(h ha.1).1, (h ha.1).2.1 0 ha.2⟩

theorem Follows.steady {a b : List Char} (h : Follows a b) (ha : Steady a) : Steady b :=
  ⟨(h ha.1).1, (h ha.1).2.2 0 ha.2⟩

theorem Follows.uncut {a b : List Char} (h : Follows a b) (ha : (outside 0).Uncut a) :
    (outside 0).Uncut b := (h ha).1

/-- Two properties of the last piece of a row hold together. -/
theorem row_and {each last last' : List Char → Prop} {ps : List (List Char)}
    (h : Row each last ps) (h' : Row each last' ps) : Row each (fun p => last p ∧ last' p) ps := by
  induction ps with
  | nil => trivial
  | cons p ps ih =>
      cases ps with
      | nil => exact ⟨h, h'⟩
      | cons q qs => exact ⟨h.1, ih h.2 h'.2⟩

/-- **Rewriting the arguments one by one rewrites the atom.** -/
theorem follows_application {predicate comma : String} (hn : isPredicateName predicate = true)
    (hc : Spaced comma) {cs : List Char} {texts : List String}
    (h : isAtomOf predicate.toList cs = true)
    (hf : List.Forall₂ Follows (arguments predicate.toList cs) (texts.map String.toList)) :
    Follows cs (application comma predicate texts).toList := by
  intro hu
  obtain ⟨hcut, hcloses, hkeeps⟩ := row_nested_arguments (neutral_name hn) h hu
  -- only the row matters from here on, not how it was cut
  generalize arguments predicate.toList cs = ps at hf hcut hcloses hkeeps
  have heach : ∀ p q, Follows p q → Steady p → Steady q := fun _ _ hpq hp => hpq.steady hp
  refine ⟨uncut_application hn hc ?_, fun k hk => closes_application hn hc ?_,
    fun k hk => keeps_application hn hc ?_⟩
  · exact hcut.of_forall₂ hf heach fun _ _ hpq hp => hpq.uncut hp
  · exact (row_and hcut (hcloses k hk)).of_forall₂ hf heach
      fun _ _ hpq hp => (hpq hp.1).2.1 (k + 1) hp.2
  · exact (row_and hcut (hkeeps k hk)).of_forall₂ hf heach
      fun _ _ hpq hp => (hpq hp.1).2.2 (k + 1) hp.2

end AnswerSet
