import AnswerSet.Text.Blank
import Mathlib.Data.List.TakeWhile

/-!
# What trimming takes away

Trimming removes blanks at the two ends and nothing else: every text is its
trimmed form between two runs of blanks (`exists_trim`), and runs of blanks put
around a text make no difference to its trimmed form (`trim_pad`). These two are
all that the decoder's proofs use; none of them looks into `trim` again.
-/

namespace AnswerSet.Text

/-- Nothing but blanks. -/
def Blank (cs : List Char) : Prop := ∀ c ∈ cs, isBlank c = true

instance (cs : List Char) : Decidable (Blank cs) :=
  decidable_of_iff (cs.all isBlank = true) List.all_eq_true

theorem blank_nil : Blank [] := by intro c hc; simp at hc

theorem Blank.append {cs ds : List Char} (hc : Blank cs) (hd : Blank ds) : Blank (cs ++ ds) :=
  List.forall_mem_append.mpr ⟨hc, hd⟩

/-! ## One end at a time -/

/-- Where the characters of a kind end, the rest begins. -/
theorem span_append {p : Char → Bool} {xs ys : List Char} (hx : ∀ c ∈ xs, p c = true)
    (hy : ∀ c ∈ ys.head?, p c = false) :
    (xs ++ ys).takeWhile p = xs ∧ (xs ++ ys).dropWhile p = ys := by
  rw [List.takeWhile_append_of_pos hx, List.dropWhile_append_of_pos hx]
  cases ys with
  | nil => simp
  | cons y ys => simp [hy y rfl]

theorem trimEnd_append_blank {cs after : List Char} (h : Blank after) :
    trimEnd (cs ++ after) = trimEnd cs := by
  have hr : ∀ c ∈ after.reverse, isBlank c = true := fun c hc => h c (List.mem_reverse.mp hc)
  unfold trimEnd
  rw [List.reverse_append, List.dropWhile_append_of_pos hr]

theorem trimStart_append_blank {cs after : List Char} (h : Blank after) :
    trimEnd (trimStart (cs ++ after)) = trimEnd (trimStart cs) := by
  unfold trimStart
  rw [List.dropWhile_append]
  split
  · -- all of `cs` went, so all of `after` goes as well
    rename_i he
    rw [List.isEmpty_iff.mp he, List.dropWhile_eq_nil_iff.mpr h]
  · exact trimEnd_append_blank h

/-- The end that `trimEnd` takes away. -/
theorem exists_trimEnd (cs : List Char) : ∃ after, Blank after ∧ cs = trimEnd cs ++ after := by
  refine ⟨(cs.reverse.takeWhile isBlank).reverse, ?_, ?_⟩
  · intro c hc
    exact List.mem_takeWhile_imp (List.mem_reverse.mp hc)
  · unfold trimEnd
    rw [← List.reverse_append, List.takeWhile_append_dropWhile, List.reverse_reverse]

/-! ## Both ends -/

/-- **Blanks around a text do not survive trimming.** -/
theorem trim_pad {before cs after : List Char} (hb : Blank before) (ha : Blank after) :
    trim (before ++ cs ++ after) = trim cs := by
  unfold trim
  rw [trimStart_append_blank ha]
  unfold trimStart
  rw [List.dropWhile_append_of_pos hb]

/-- **Trimming removes blanks at the ends and nothing else.** -/
theorem exists_trim (cs : List Char) :
    ∃ before after, Blank before ∧ Blank after ∧ cs = before ++ trim cs ++ after := by
  obtain ⟨after, ha, he⟩ := exists_trimEnd (trimStart cs)
  refine ⟨cs.takeWhile isBlank, after, fun c hc => List.mem_takeWhile_imp hc, ha, ?_⟩
  unfold trim
  rw [List.append_assoc, ← he]
  exact List.takeWhile_append_dropWhile.symm

@[simp] theorem trim_trim (cs : List Char) : trim (trim cs) = trim cs := by
  obtain ⟨before, after, hb, ha, he⟩ := exists_trim cs
  rw [← trim_pad hb ha, ← he]

theorem trim_eq_nil_iff {cs : List Char} : trim cs = [] ↔ Blank cs := by
  constructor
  · intro h
    obtain ⟨before, after, hb, ha, he⟩ := exists_trim cs
    rw [he, h, List.append_nil]
    exact hb.append ha
  · intro h
    have hp : trim (cs ++ [] ++ []) = trim [] := trim_pad h blank_nil
    rwa [List.append_nil, List.append_nil] at hp

/-- A text that does not start with a blank keeps its first character. -/
theorem exists_trim_cons {c : Char} (hc : isBlank c = false) (cs : List Char) :
    ∃ kept after, trim (c :: cs) = c :: kept ∧ Blank after ∧ cs = kept ++ after := by
  obtain ⟨before, after, hb, ha, he⟩ := exists_trim (c :: cs)
  have hfront : before = [] := by
    cases before with
    | nil => rfl
    | cons d ds =>
        -- the first blank would be `c`
        injection he with hd _
        rw [hd, hb d List.mem_cons_self] at hc
        exact Bool.noConfusion hc
  subst hfront
  rw [List.nil_append] at he
  cases ht : trim (c :: cs) with
  | nil =>
      rw [trim_eq_nil_iff.mp ht c List.mem_cons_self] at hc
      exact Bool.noConfusion hc
  | cons d kept =>
      rw [ht] at he
      injection he with hd hcs
      exact ⟨kept, after, by rw [hd], ha, hcs⟩

/-- A text without a blank at either end is left as it is. -/
theorem trim_eq_self {cs : List Char} (hh : ∀ c ∈ cs.head?, isBlank c = false)
    (hl : ∀ c ∈ cs.getLast?, isBlank c = false) : trim cs = cs := by
  have hs : trimStart cs = cs := by
    cases cs with
    | nil => rfl
    | cons c cs => exact List.dropWhile_cons_of_neg (by simpa using hh c rfl)
  -- read from behind, the text starts with a character that stays
  have he : cs.reverse.dropWhile isBlank = cs.reverse := by
    cases hr : cs.reverse with
    | nil => rfl
    | cons c rest =>
        have hc : cs.getLast? = some c := by rw [← List.head?_reverse, hr]; rfl
        exact List.dropWhile_cons_of_neg (by simpa using hl c hc)
  unfold trim trimEnd
  rw [hs, he, List.reverse_reverse]

end AnswerSet.Text
