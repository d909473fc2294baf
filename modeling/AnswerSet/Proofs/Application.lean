import AnswerSet.Atom.Basic
import AnswerSet.Proofs.Built
import AnswerSet.Proofs.Pieces

/-!
# Reading an application back

An application is a predicate with its arguments in parentheses. If the arguments
form a row (`Scan.Row`), have no blanks at their ends and are not a single empty
text, the decoder finds exactly these arguments again (`arguments_application`),
whether the commas are followed by blanks or not, and with blanks and a full stop
around the whole.

The single empty text has to be excluded: `p()` has no argument at all.
-/

namespace AnswerSet

open Scan

/-- A comma that may be followed by blanks. -/
def Spaced (comma : String) : Prop := ∃ pad, Text.Blank pad ∧ comma.toList = ',' :: pad

theorem spaced_program : Spaced ", " := ⟨[' '], by decide, by decide⟩

theorem spaced_solver : Spaced "," := ⟨[], Text.blank_nil, by decide⟩

theorem neutral_of_isBlank {c : Char} (h : Text.isBlank c = true) : Neutral c := by
  refine ⟨?_, ?_, ?_⟩ <;> rintro rfl <;> revert h <;> decide

theorem neutral_of_blank {cs : List Char} (h : Text.Blank cs) : ∀ c ∈ cs, Neutral c :=
  fun c hc => neutral_of_isBlank (h c hc)

theorem comma_not_mem_blank {cs : List Char} (h : Text.Blank cs) : ',' ∉ cs :=
  fun hc => absurd (h ',' hc) (by decide)

theorem Spaced.neutral {comma : String} (h : Spaced comma) : ∀ c ∈ comma.toList, Neutral c := by
  obtain ⟨pad, hb, hp⟩ := h
  rw [hp]
  intro c hc
  rcases List.mem_cons.mp hc with rfl | hc
  · exact ⟨by decide, by decide, by decide⟩
  · exact neutral_of_isBlank (hb c hc)

/-! ## The text of an application -/

theorem toList_application_nil (comma predicate : String) :
    (application comma predicate []).toList = predicate.toList := rfl

theorem toList_application_cons (comma predicate text : String) (texts : List String) :
    (application comma predicate (text :: texts)).toList
      = predicate.toList
        ++ '(' :: (comma.toList.intercalate ((text :: texts).map String.toList) ++ [')']) := by
  simp [application, String.toList_intercalate]

/-- A name is neither blank at an end nor does it open or close anything. -/
theorem trim_name_append {predicate : String} (hn : isPredicateName predicate = true)
    {rest : List Char} (hr : ∀ c ∈ rest.getLast?, Text.isBlank c = false) :
    Text.trim (predicate.toList ++ rest) = predicate.toList ++ rest := by
  obtain ⟨c, cs, hp, _, hall⟩ := exists_of_isPredicateName hn
  rw [hp]
  refine Text.trim_eq_self ?_ ?_
  · intro d hd
    have hcd : c = d := by simpa using hd
    exact isBlank_of_isPredicateChar (hall d (by simp [hcd]))
  · intro d hd
    cases rest with
    | nil =>
        rw [List.append_nil] at hd
        exact isBlank_of_isPredicateChar (hall d (List.mem_of_getLast? hd))
    | cons e es =>
        rw [List.getLast?_append_of_ne_nil _ (by simp)] at hd
        exact hr d hd

theorem neutral_name {predicate : String} (hn : isPredicateName predicate = true) :
    ∀ c ∈ predicate.toList, Neutral c :=
  fun _ hc => neutral_of_isPredicateChar (isPredicateChar_of_mem hn hc)

theorem comma_not_mem_name {predicate : String} (hn : isPredicateName predicate = true) :
    ',' ∉ predicate.toList := not_mem_of_isPredicateName hn (by decide)

/-! ## Finding the arguments -/

/-- One full stop or none. -/
def IsStop (cs : List Char) : Prop := cs = [] ∨ cs = ['.']

theorem IsStop.neutral {cs : List Char} (h : IsStop cs) : ∀ c ∈ cs, Neutral c := by
  intro c hc
  rcases h with rfl | rfl
  · exact absurd hc (by simp)
  · rw [List.mem_singleton.mp hc]
    exact ⟨by decide, by decide, by decide⟩

/-- Nothing, or a text in parentheses. -/
def IsBracketed (rest : List Char) : Prop := rest = [] ∨ ∃ inner, rest = '(' :: (inner ++ [')'])

theorem IsBracketed.getLast? {rest : List Char} (h : IsBracketed rest) :
    rest.getLast? = none ∨ rest.getLast? = some ')' := by
  rcases h with rfl | ⟨inner, rfl⟩
  · exact Or.inl rfl
  · refine Or.inr ?_
    rw [← List.cons_append, List.getLast?_concat]

theorem IsBracketed.not_blank {rest : List Char} (h : IsBracketed rest) :
    ∀ c ∈ rest.getLast?, Text.isBlank c = false := by
  rcases h.getLast? with hl | hl <;> rw [hl]
  · simp
  · simp [Text.isBlank]

section Reading

variable {predicate : String} {rest before stop after : List Char}

/-- Blanks around the text are gone before the predicate is looked at. -/
theorem dropPrefix_padded (hn : isPredicateName predicate = true)
    (hr : ∀ c ∈ rest.getLast?, Text.isBlank c = false) (hs : IsStop stop)
    (hb : Text.Blank before) (ha : Text.Blank after) :
    Text.dropPrefix? predicate.toList
        (Text.trim (before ++ (predicate.toList ++ rest ++ stop) ++ after))
      = some (rest ++ stop) := by
  have hl : ∀ c ∈ (rest ++ stop).getLast?, Text.isBlank c = false := by
    rcases hs with rfl | rfl
    · rwa [List.append_nil]
    · intro c hc
      rw [List.getLast?_concat] at hc
      have hdot : '.' = c := by simpa using hc
      rw [← hdot]
      decide
  rw [Text.trim_pad hb ha, List.append_assoc, trim_name_append hn hl]
  exact Text.dropPrefix?_eq_some_iff.mpr rfl

theorem dropStop_append (hr : rest.getLast? ≠ some '.') (hs : IsStop stop) :
    dropStop (rest ++ stop) = rest := by
  unfold dropStop
  rcases hs with rfl | rfl
  · rw [List.append_nil, if_neg hr]
  · rw [List.getLast?_concat, if_pos rfl, List.dropLast_concat]

theorem dropParens_wrapped (inner : List Char) : dropParens ('(' :: (inner ++ [')'])) = inner := by
  rw [dropParens, List.getLast?_concat, if_pos rfl, List.dropLast_concat]

/-- The text between the parentheses, if there are any. -/
theorem argumentText_padded (hn : isPredicateName predicate = true) (hr : IsBracketed rest)
    (hs : IsStop stop) (hb : Text.Blank before) (ha : Text.Blank after) :
    argumentText predicate.toList (before ++ (predicate.toList ++ rest ++ stop) ++ after)
      = dropParens rest := by
  have hstop : rest.getLast? ≠ some '.' := by
    rcases hr.getLast? with h | h <;> rw [h] <;> decide
  have htrim : Text.trim rest = rest := by
    refine Text.trim_eq_self ?_ hr.not_blank
    rcases hr with rfl | ⟨inner, rfl⟩
    · simp
    · simp [Text.isBlank]
  show dropParens (Text.trim (dropStop ((Text.dropPrefix? _ (Text.trim _)).getD _))) = _
  rw [dropPrefix_padded hn hr.not_blank hs hb ha, Option.getD_some, dropStop_append hstop hs, htrim]

end Reading

/-! ## The arguments are the ones that were written -/

section Arguments

variable {predicate comma : String} {texts : List String} {before stop after : List Char}

/-- The text behind the predicate is empty or stands in parentheses. -/
theorem exists_application (comma predicate : String) (texts : List String) :
    ∃ rest, (application comma predicate texts).toList = predicate.toList ++ rest
      ∧ IsBracketed rest := by
  cases texts with
  | nil => exact ⟨[], by rw [toList_application_nil, List.append_nil], Or.inl rfl⟩
  | cons text texts => exact ⟨_, toList_application_cons .., Or.inr ⟨_, rfl⟩⟩

theorem trim_application (hn : isPredicateName predicate = true) :
    Text.trim (application comma predicate texts).toList
      = (application comma predicate texts).toList := by
  obtain ⟨rest, he, hr⟩ := exists_application comma predicate texts
  rw [he]
  exact trim_name_append hn hr.not_blank

/-- An application is recognised as an atom of its predicate. -/
theorem isAtomOf_application (hn : isPredicateName predicate = true) (hs : IsStop stop)
    (hb : Text.Blank before) (ha : Text.Blank after) :
    isAtomOf predicate.toList
      (before ++ ((application comma predicate texts).toList ++ stop) ++ after) = true := by
  obtain ⟨rest, he, hr⟩ := exists_application comma predicate texts
  unfold isAtomOf
  rw [he, dropPrefix_padded hn hr.not_blank hs hb ha]
  rcases hr with rfl | ⟨inner, rfl⟩
  · -- a predicate alone may still have its full stop
    rcases hs with rfl | rfl <;> rfl
  · simp

/-- Trimmed texts between commas are not blank, unless there is just one, which is empty. -/
theorem not_blank_join (hc : Spaced comma) (hne : texts ≠ []) (hsingle : texts ≠ [""])
    (ht : ∀ text ∈ texts, Text.trim text.toList = text.toList) :
    ¬ Text.Blank (comma.toList.intercalate (texts.map String.toList)) := by
  obtain ⟨pad, _, hpad⟩ := hc
  intro hb
  match texts with
  | [] => exact hne rfl
  | [text] =>
      rw [List.map_singleton, List.intercalate_singleton] at hb
      have htext : text.toList = [] := by
        rw [← ht text (by simp)]
        exact Text.trim_eq_nil_iff.mpr hb
      exact hsingle (by rw [String.toList_eq_nil_iff.mp htext])
  | text :: next :: texts =>
      -- there is a comma, which is no blank
      refine comma_not_mem_blank hb ?_
      rw [List.map_cons, List.map_cons, List.intercalate_cons_cons, hpad]
      simp

/-- Blanks in front of a piece keep it closed. -/
theorem closed_pad {pad cs : List Char} (hb : Text.Blank pad) (h : Closed cs) :
    Closed (pad ++ cs) := by
  have hrun := run_neutral (neutral_of_blank hb) 0
  refine closed_of_run (uncut_append.mpr ⟨uncut_of_not_mem (comma_not_mem_blank hb) _, ?_⟩) ?_
  · rw [hrun]
    exact h.1
  · rw [run_append, hrun]
    exact h.run

theorem uncut_pad {pad cs : List Char} (hb : Text.Blank pad) (h : (outside 0).Uncut cs) :
    (outside 0).Uncut (pad ++ cs) := by
  refine uncut_append.mpr ⟨uncut_of_not_mem (comma_not_mem_blank hb) _, ?_⟩
  rw [run_neutral (neutral_of_blank hb)]
  exact h

/-- A row that is joined by commas and blanks is cut into the same pieces, up to blanks. -/
theorem trim_pieces_join (hc : Spaced comma) {ps : List (List Char)} (hne : ps ≠ [])
    (ht : ∀ p ∈ ps, Text.trim p = p) (h : Row Closed (outside 0).Uncut ps) :
    ((outside 0).pieces (comma.toList.intercalate ps)).map Text.trim = ps := by
  obtain ⟨pad, hb, hpad⟩ := hc
  cases ps with
  | nil => exact absurd rfl hne
  | cons p ps =>
      -- all pieces but the first take the blanks in front of them along
      have hR : List.Forall₂ (fun a b => b = a ∨ b = pad ++ a) (p :: ps)
          (p :: ps.map (pad ++ ·)) := by
        refine List.Forall₂.cons (Or.inl rfl) ?_
        rw [List.forall₂_map_right_iff]
        exact List.forall₂_same.mpr fun _ _ => Or.inr rfl
      have hrow : Row Closed (outside 0).Uncut (p :: ps.map (pad ++ ·)) := by
        refine h.of_forall₂ hR ?_ ?_
        · rintro a b (rfl | rfl) ha
          · exact ha
          · exact closed_pad hb ha
        · rintro a b (rfl | rfl) ha
          · exact ha
          · exact uncut_pad hb ha
      rw [hpad, intercalate_pad, pieces_join (by simp) hrow, List.map_cons, List.map_map,
        ht p List.mem_cons_self]
      refine congrArg (p :: ·) ?_
      have hmap : ∀ q ∈ ps, (Text.trim ∘ (pad ++ ·)) q = q := by
        intro q hq
        have hp : Text.trim (pad ++ q ++ []) = Text.trim q := Text.trim_pad hb Text.blank_nil
        rw [List.append_nil, ht q (List.mem_cons_of_mem _ hq)] at hp
        exact hp
      rw [List.map_congr_left hmap, List.map_id']

/-- **The arguments of an application are the texts it was written from.** -/
theorem arguments_application (hn : isPredicateName predicate = true) (hc : Spaced comma)
    (hs : IsStop stop) (hb : Text.Blank before) (ha : Text.Blank after)
    (hsingle : texts ≠ [""]) (ht : ∀ text ∈ texts, Text.trim text.toList = text.toList)
    (hrow : Row Closed (outside 0).Uncut (texts.map String.toList)) :
    arguments predicate.toList
        (before ++ ((application comma predicate texts).toList ++ stop) ++ after)
      = texts.map String.toList := by
  obtain ⟨rest, he, hr⟩ := exists_application comma predicate texts
  have hinner : argumentText predicate.toList
      (before ++ ((application comma predicate texts).toList ++ stop) ++ after)
        = dropParens rest := by
    rw [he]
    exact argumentText_padded hn hr hs hb ha
  unfold arguments
  rw [hinner]
  cases texts with
  | nil =>
      have hrest : rest = [] := by
        rw [toList_application_nil] at he
        simpa using he
      rw [hrest]
      rfl
  | cons text texts =>
      rw [toList_application_cons] at he
      have hrest := List.append_cancel_left he
      rw [← hrest, dropParens_wrapped]
      have hnb := not_blank_join hc (by simp) hsingle ht
      have hne : ¬ (Text.trim (comma.toList.intercalate
          ((text :: texts).map String.toList))).isEmpty = true := by
        rw [List.isEmpty_iff, Text.trim_eq_nil_iff]
        exact hnb
      rw [if_neg hne]
      refine trim_pieces_join hc (by simp) ?_ hrow
      intro p hp
      obtain ⟨t, hmem, rfl⟩ := List.mem_map.mp hp
      exact ht t hmem

/-- With nothing around it, an application is still an atom of its predicate. -/
theorem isAtomOf_bare (hn : isPredicateName predicate = true) :
    isAtomOf predicate.toList (application comma predicate texts).toList = true := by
  have h : isAtomOf predicate.toList
      ([] ++ ((application comma predicate texts).toList ++ []) ++ []) = true :=
    isAtomOf_application hn (Or.inl rfl) Text.blank_nil Text.blank_nil
  rwa [List.nil_append, List.append_nil, List.append_nil] at h

/-- With nothing around it, an application still has the arguments it was written from. -/
theorem arguments_bare (hn : isPredicateName predicate = true) (hc : Spaced comma)
    (hsingle : texts ≠ [""]) (ht : ∀ text ∈ texts, Text.trim text.toList = text.toList)
    (hrow : Row Closed (outside 0).Uncut (texts.map String.toList)) :
    arguments predicate.toList (application comma predicate texts).toList
      = texts.map String.toList := by
  have h := arguments_application hn hc (Or.inl rfl) Text.blank_nil Text.blank_nil hsingle ht hrow
  rwa [List.nil_append, List.append_nil, List.append_nil] at h

end Arguments

/-! ## An application among arguments -/

section Nested

variable {predicate comma : String} {texts : List String}

/-- Where an application leads: one level down, over its arguments, and up again. -/
theorem run_application_cons (hn : isPredicateName predicate = true) (text : String) (d : Nat) :
    (outside d).run (application comma predicate (text :: texts)).toList
      = ((outside (d + 1)).run
          (comma.toList.intercalate ((text :: texts).map String.toList))).step ')' := by
  rw [toList_application_cons, run_append, run_neutral (neutral_name hn), run_cons, step_open,
    run_append]
  rfl

theorem run_application_nil (hn : isPredicateName predicate = true) (d : Nat) :
    (outside d).run (application comma predicate []).toList = outside d := by
  rw [toList_application_nil, run_neutral (neutral_name hn)]

theorem uncut_application (hn : isPredicateName predicate = true) (hc : Spaced comma)
    (h : Row Steady (outside 0).Uncut (texts.map String.toList)) :
    (outside 0).Uncut (application comma predicate texts).toList := by
  cases texts with
  | nil =>
      rw [toList_application_nil]
      exact uncut_of_not_mem (comma_not_mem_name hn) _
  | cons text texts =>
      rw [toList_application_cons, uncut_append, run_neutral (neutral_name hn), uncut_cons,
        step_open, uncut_append]
      refine ⟨uncut_of_not_mem (comma_not_mem_name hn) _, by decide, Row.uncut_join hc.neutral h 0,
        ?_⟩
      exact uncut_of_not_mem (by decide) _

theorem closes_application (hn : isPredicateName predicate = true) (hc : Spaced comma) {k : Nat}
    (h : Row Steady (Closes (k + 1)) (texts.map String.toList)) :
    Closes k (application comma predicate texts).toList := by
  cases texts with
  | nil => exact ⟨k, Nat.le_refl k, run_application_nil hn k⟩
  | cons text texts =>
      obtain ⟨e, he, hr⟩ := Row.join_of_last closes_congr hc.neutral (by simp) h
      refine ⟨e - 1, by omega, ?_⟩
      rw [run_application_cons hn, hr, step_close]

theorem keeps_application (hn : isPredicateName predicate = true) (hc : Spaced comma) {k : Nat}
    (h : Row Steady (Keeps (k + 1)) (texts.map String.toList)) :
    Keeps k (application comma predicate texts).toList := by
  intro d hd
  cases texts with
  | nil => exact run_application_nil hn d
  | cons text texts =>
      have hj := Row.join_of_last keeps_congr hc.neutral (by simp) h
      rw [run_application_cons hn, hj (d + 1) (by omega), step_close, Nat.add_sub_cancel]

/-- **An application of steady arguments is steady.** -/
theorem steady_application (hn : isPredicateName predicate = true) (hc : Spaced comma)
    (h : ∀ text ∈ texts, Steady text.toList) :
    Steady (application comma predicate texts).toList := by
  have hrow : Row Steady Steady (texts.map String.toList) := by
    refine row_of_forall fun p hp => ?_
    obtain ⟨text, hmem, rfl⟩ := List.mem_map.mp hp
    exact h text hmem
  exact ⟨uncut_application hn hc (hrow.imp (fun _ hp => hp) fun _ hp => hp.1),
    keeps_application hn hc (hrow.imp (fun _ hp => hp) fun _ hp => hp.2.mono (Nat.zero_le _))⟩

end Nested

end AnswerSet
