import AnswerSet.Proofs.NormalForm
import AnswerSet.Proofs.Occurrences
import AnswerSet.Proofs.Squeezing

/-!
# Looking for an atom in an answer

An answer has the solver's texts, with nothing behind the commas, while two atoms
count as equal if their program texts are equal, which have a blank there. The
decoder makes up for that in nested fields, which it reads by their schemas, but
not in wildcards, where it keeps the text of an atom as a symbol.

`Atom.seenIn` is what the decoder makes of the text of an atom. The texts of two
atoms are equal if both are seen alike, one in the solver's text and the other in
the program's. In every wildcard that means that a text without blanks outside of
strings is equal to one with a blank behind every comma. So the atom is found if
and only if its text is there and it is **compact**: the atoms in its wildcards
have no two arguments, so they have the same text in both spellings.
-/

namespace AnswerSet

open Scan

/-! ## Atoms with atoms in wildcards -/

mutual

/-- The schemas were built and every field holds a value of its kind. In a wildcard, that is a
plain value or an atom of the same form, by whatever schema. -/
def Atom.Regular : Atom → Prop
  | ⟨schema, values⟩ => schema.Built ∧ regularValues schema.fields values

def regularValues : List Field → List FieldValue → Prop
  | [], [] => True
  | field :: fields, value :: values => value.RegularIn field.kind ∧ regularValues fields values
  | _, _ => False

/-- The value is of the kind. What stands for a constant does not matter. -/
def FieldValue.RegularIn : FieldKind → FieldValue → Prop
  | .constant _, _ => True
  | .scalar kind, .term term => term.scalarKind? = some kind
  | .any, .term term => ∃ kind, term.scalarKind? = some kind
  | .any, .atom atom => atom.Regular
  | .atom schema, .atom atom => atom.schema = schema ∧ atom.Regular
  | _, _ => False

end

theorem Atom.Regular.built {atom : Atom} (h : atom.Regular) : atom.schema.Built := by
  cases atom with
  | mk schema values =>
      rw [Atom.Regular] at h
      exact h.1

mutual

/-- What the decoder makes of the atom's text: constants are the schema's, and in a wildcard the
text of an atom is a symbol. -/
def Atom.seenIn (comma : String) : Atom → Atom
  | ⟨schema, values⟩ => ⟨schema, seenValues comma schema.fields values⟩

def seenValues (comma : String) : List Field → List FieldValue → List FieldValue
  | field :: fields, value :: values =>
    value.seenIn comma field.kind :: seenValues comma fields values
  | _, _ => []

def FieldValue.seenIn (comma : String) : FieldKind → FieldValue → FieldValue
  | .constant value, _ => .term value
  | .any, value => .term (readAny (value.spelled comma).toList)
  | .atom _, .atom atom => .atom (atom.seenIn comma)
  | _, value => value

end

mutual

/-- The values in wildcards have the same text in both spellings. -/
def Atom.Compact : Atom → Prop
  | ⟨schema, values⟩ => compactValues schema.fields values

def compactValues : List Field → List FieldValue → Prop
  | field :: fields, value :: values => value.CompactIn field.kind ∧ compactValues fields values
  | _, _ => True

def FieldValue.CompactIn : FieldKind → FieldValue → Prop
  | .any, value => value.spelled "," = value.text
  | .atom _, .atom atom => atom.Compact
  | _, _ => True

end

/-! ## What is seen of an atom -/

section Seen

variable {comma : String}

/-- Everything that looking for an atom needs to know about its text. -/
structure Atom.SeenThrough (comma : String) (atom : Atom) : Prop where
  reads : AtomReads atom.schema (atom.spelled comma) (atom.seenIn comma)
  squeezes : Squeezes (atom.spelled comma) (atom.spelled ",")
  spelled : (atom.seenIn comma).spelled comma = atom.spelled comma

structure FieldValue.SeenThrough (comma : String) (kind : FieldKind) (value : FieldValue) :
    Prop where
  back : ReadsBack kind (value.seenIn comma kind) (value.spelled comma)
  squeezes : Squeezes (value.spelled comma) (value.spelled ",")
  spelled : (value.seenIn comma kind).spelled comma = value.spelled comma

/-- An atom's text starts with a letter, so it is written as it was, whatever it is read as. -/
theorem text_readAny_spelled {atom : Atom} (hb : atom.schema.Built) :
    (readAny (atom.spelled comma).toList).text = atom.spelled comma := by
  obtain ⟨c, cs, hp, hlower, _⟩ := exists_of_isPredicateName hb.name
  rw [Atom.spelled_eq]
  obtain ⟨rest, he, _⟩ := exists_application comma atom.schema.predicate
    ((writtenValues atom.schema.fields atom.values).map (·.spelled comma))
  rw [hp] at he
  exact text_readAny_lower he hlower

theorem squeezes_scalar {kind : ScalarKind} {term : Term} (h : term.scalarKind? = some kind) :
    Squeezes term.text term.text := ⟨steady_scalar h, squeeze_scalar h⟩

/-- **A regular value is seen through if an atom in it is.** -/
theorem FieldValue.RegularIn.seenThrough {kind : FieldKind} (hk : kind.isConstant = false)
    {value : FieldValue} (h : value.RegularIn kind)
    (ih : ∀ inner, value = .atom inner → inner.Regular → inner.SeenThrough comma) :
    value.SeenThrough comma kind := by
  cases kind with
  | constant term => exact absurd hk (by simp [FieldKind.isConstant])
  | scalar kind =>
      cases value with
      | atom atom => exact absurd h (by simp [RegularIn])
      | term term =>
          rw [RegularIn] at h
          exact ⟨readsBack_scalar h, squeezes_scalar h, rfl⟩
  | any =>
      cases value with
      | term term =>
          obtain ⟨kind, hs⟩ := h
          have hback := readsBack_scalar hs
          refine ⟨readsBack_wildcard hback.steady hback.trimmed hback.nonempty,
            squeezes_scalar hs, ?_⟩
          exact congrArg Term.text (readAny_text hs)
      | atom atom =>
          have hreg : atom.Regular := by rwa [RegularIn] at h
          have hseen := ih atom rfl hreg
          refine ⟨readsBack_wildcard hseen.reads.steady ?_ ?_, hseen.squeezes,
            text_readAny_spelled hreg.built⟩
          · rw [FieldValue.spelled, Atom.spelled_eq]
            exact trim_application hreg.built.name
          · rw [FieldValue.spelled, Atom.spelled_eq]
            exact application_ne_empty hreg.built.name _
  | atom schema =>
      cases value with
      | term term => exact absurd h (by simp [RegularIn])
      | atom atom =>
          have hboth : atom.schema = schema ∧ atom.Regular := by rwa [RegularIn] at h
          obtain ⟨rfl, hreg⟩ := hboth
          have hseen := ih atom rfl hreg
          refine ⟨?_, hseen.squeezes, hseen.spelled⟩
          have hreads := hseen.reads
          rw [Atom.spelled_eq] at hreads
          rw [FieldValue.spelled, Atom.spelled_eq]
          exact readsBack_atom hreg.built.name hreads

theorem seenThrough_values {fields : List Field} {values : List FieldValue}
    (h : regularValues fields values)
    (ih : ∀ inner, .atom inner ∈ values → inner.Regular → inner.SeenThrough comma) :
    LaidOut fields (seenValues comma fields values) (spelledFields comma fields values)
      ∧ List.Forall₂ Squeezes (spelledFields comma fields values) (spelledFields "," fields values)
      ∧ spelledFields comma fields (seenValues comma fields values)
          = spelledFields comma fields values := by
  induction fields generalizing values with
  | nil =>
      cases values with
      | nil => exact ⟨.nil, .nil, rfl⟩
      | cons value values => exact absurd h (by simp [regularValues])
  | cons field fields ihf =>
      cases values with
      | nil => exact absurd h (by simp [regularValues])
      | cons value values =>
          obtain ⟨name, kind⟩ := field
          rw [regularValues] at h
          obtain ⟨hlaid, hsqueeze, hspelled⟩ :=
            ihf h.2 fun inner hm => ih inner (List.mem_cons_of_mem _ hm)
          rw [seenValues]
          cases hk : kind.isConstant with
          | true =>
              obtain ⟨constant, rfl⟩ := FieldKind.exists_of_isConstant hk
              simp only [spelledFields_constant, FieldValue.seenIn]
              exact ⟨.constant hlaid, hsqueeze, hspelled⟩
          | false =>
              have hseen := h.1.seenThrough hk fun inner he =>
                ih inner (by rw [he]; exact List.mem_cons_self)
              simp only [spelledFields_written hk]
              exact ⟨.written hseen.back hlaid, .cons hseen.squeezes hsqueeze,
                congrArg₂ List.cons hseen.spelled hspelled⟩

/-- **What is seen of a regular atom**, in the program's text or in the solver's. -/
theorem Atom.Regular.seenThrough (hc : Spaced comma) {atom : Atom} (h : atom.Regular) :
    atom.SeenThrough comma := by
  induction atom using Atom.induction with
  | mk schema values ih =>
      have hn : isPredicateName schema.predicate = true := h.built.name
      rw [Atom.Regular] at h
      obtain ⟨hlaid, hsqueeze, hspelled⟩ := seenThrough_values h.2 ih
      refine ⟨?_, squeezes_application hn hc hsqueeze, ?_⟩
      · exact hlaid.atomReads hc hn
      · exact congrArg (application comma schema.predicate) hspelled

end Seen

/-! ## Seen alike in both spellings -/

theorem FieldValue.CompactIn.seenIn_eq {kind : FieldKind} {value : FieldValue}
    (h : value.CompactIn kind)
    (ih : ∀ inner, value = .atom inner → inner.Compact → inner.seenIn "," = inner.seenIn ", ") :
    value.seenIn "," kind = value.seenIn ", " kind := by
  cases kind with
  | constant term => simp only [seenIn]
  | scalar kind => cases value <;> rfl
  | any =>
      have hsame : value.spelled "," = value.spelled ", " := by rwa [CompactIn] at h
      simp only [seenIn, hsame]
  | atom schema =>
      cases value with
      | term term => rfl
      | atom atom => exact congrArg FieldValue.atom (ih atom rfl h)

theorem seenValues_eq_of_compact {fields : List Field} {values : List FieldValue}
    (h : compactValues fields values)
    (ih : ∀ inner, .atom inner ∈ values → inner.Compact → inner.seenIn "," = inner.seenIn ", ") :
    seenValues "," fields values = seenValues ", " fields values := by
  induction fields generalizing values with
  | nil => cases values <;> rfl
  | cons field fields ihf =>
      cases values with
      | nil => rfl
      | cons value values =>
          rw [compactValues] at h
          have hfirst := h.1.seenIn_eq fun inner he =>
            ih inner (by rw [he]; exact List.mem_cons_self)
          have hrest := ihf h.2 fun inner hm => ih inner (List.mem_cons_of_mem _ hm)
          rw [seenValues, seenValues, hfirst, hrest]

theorem Atom.Compact.seenIn_eq {atom : Atom} (h : atom.Compact) :
    atom.seenIn "," = atom.seenIn ", " := by
  induction atom using Atom.induction with
  | mk schema values ih =>
      rw [Atom.Compact] at h
      rw [Atom.seenIn, Atom.seenIn, seenValues_eq_of_compact h ih]

/-- In a wildcard, a value that is seen alike in the program's text and another value in the
solver's text has no blank outside of strings, so both its texts are the same. -/
theorem FieldValue.compactIn_any {value other : FieldValue} (h : value.RegularIn .any)
    (ho : other.RegularIn .any) (he : other.seenIn "," .any = value.seenIn ", " .any) :
    value.CompactIn .any := by
  have hvalue : value.SeenThrough ", " .any :=
    h.seenThrough rfl fun _ _ hr => hr.seenThrough spaced_program
  have hother : other.SeenThrough "," .any :=
    ho.seenThrough rfl fun _ _ hr => hr.seenThrough spaced_solver
  have htexts : other.spelled "," = value.spelled ", " := by
    rw [← hother.spelled, ← hvalue.spelled, he]
    simp only [FieldValue.seenIn, FieldValue.spelled]
  -- squeezing leaves the solver's text as it is and makes the program's text the solver's
  have htight : value.spelled "," = other.spelled "," := by
    refine String.toList_inj.mp ?_
    rw [← hvalue.squeezes.squeeze 0, ← htexts, hother.squeezes.squeeze 0]
  rw [CompactIn, htight, htexts]
  rfl

theorem FieldValue.compactIn_of_seenIn_eq {kind : FieldKind} {value other : FieldValue}
    (h : value.RegularIn kind) (ho : other.RegularIn kind)
    (he : other.seenIn "," kind = value.seenIn ", " kind)
    (ih : ∀ inner, value = .atom inner → ∀ other : Atom, inner.Regular → other.Regular →
      other.schema = inner.schema → other.seenIn "," = inner.seenIn ", " → inner.Compact) :
    value.CompactIn kind := by
  cases kind with
  | constant term => simp only [CompactIn]
  | scalar kind => simp only [CompactIn]
  | any => exact compactIn_any h ho he
  | atom schema =>
      cases value with
      | term term => trivial
      | atom atom =>
          cases other with
          | term term => exact absurd ho (by simp [RegularIn])
          | atom other =>
              rw [RegularIn] at h ho
              simp only [seenIn, FieldValue.atom.injEq] at he
              rw [CompactIn]
              exact ih atom rfl other h.2 ho.2 (ho.1.trans h.1.symm) he

theorem compactValues_of_seenValues_eq {fields : List Field} {values others : List FieldValue}
    (h : regularValues fields values) (ho : regularValues fields others)
    (he : seenValues "," fields others = seenValues ", " fields values)
    (ih : ∀ inner, .atom inner ∈ values → ∀ other : Atom, inner.Regular → other.Regular →
      other.schema = inner.schema → other.seenIn "," = inner.seenIn ", " → inner.Compact) :
    compactValues fields values := by
  induction fields generalizing values others with
  | nil => cases values <;> trivial
  | cons field fields ihf =>
      cases values with
      | nil => trivial
      | cons value values =>
          cases others with
          | nil => exact absurd ho (by simp [regularValues])
          | cons other others =>
              rw [regularValues] at h ho
              rw [seenValues, seenValues] at he
              injection he with hfirst hrest
              rw [compactValues]
              refine ⟨?_, ihf h.2 ho.2 hrest fun inner hm => ih inner (List.mem_cons_of_mem _ hm)⟩
              exact FieldValue.compactIn_of_seenIn_eq h.1 ho.1 hfirst fun inner hi =>
                ih inner (by rw [hi]; exact List.mem_cons_self)

/-- **An atom that is seen alike in the program's text and another one in the solver's is
compact.** -/
theorem Atom.compact_of_seenIn_eq {atom : Atom} :
    ∀ other : Atom, atom.Regular → other.Regular → other.schema = atom.schema →
      other.seenIn "," = atom.seenIn ", " → atom.Compact := by
  induction atom using Atom.induction with
  | mk schema values ih =>
      rintro ⟨_, others⟩ h ho rfl he
      rw [Atom.Regular] at h ho
      rw [Atom.seenIn, Atom.seenIn] at he
      injection he with _ he
      rw [Atom.Compact]
      exact compactValues_of_seenValues_eq h.2 ho.2 he ih

/-! ## Texts that are equal -/

section Texts

variable {atom other : Atom}

/-- The decoder sees two atoms of one schema alike if the solver's texts are the same. -/
theorem Atom.Regular.seenIn_eq_of_solverText (h : atom.Regular) (ho : other.Regular)
    (hs : other.schema = atom.schema) (ht : other.solverText = atom.solverText) :
    other.seenIn "," = atom.seenIn "," := by
  have hread := (h.seenThrough spaced_solver).reads.bare
  have hother := (ho.seenThrough spaced_solver).reads.bare
  rw [hs, show other.spelled "," = atom.spelled "," from ht, hread] at hother
  injection hother with he
  exact he.symm

/-- An atom counts as equal to what is seen of the solver's text of another one only if the decoder
sees its program text that way as well. -/
theorem Atom.Regular.seenIn_eq_of_text (h : atom.Regular) (ho : other.Regular)
    (hs : other.schema = atom.schema) (ht : (other.seenIn ",").text = atom.text) :
    other.seenIn "," = atom.seenIn ", " := by
  have hread := (h.seenThrough spaced_program).reads.bare
  have hother := (ho.seenThrough spaced_solver).reads.bare
  -- what was decoded reads back from its program text
  have hagain := (rereads spaced_program ho.built _ _ hother).1
  rw [hs, show (other.seenIn ",").spelled ", " = atom.spelled ", " from ht, hread] at hagain
  injection hagain with he
  exact he.symm

theorem Atom.Regular.predicate_eq_of_solverText (h : atom.Regular) (ho : other.Regular)
    (ht : other.solverText = atom.solverText) : other.predicate = atom.predicate := by
  have hmatch : isAtomOf other.predicate.toList other.solverText.toList = true := by
    rw [Atom.solverText, Atom.spelled_eq]
    exact isAtomOf_bare ho.built.name
  rw [ht, Atom.solverText, Atom.spelled_eq] at hmatch
  exact (isAtomOf_application_iff ho.built.name h.built.name).mp hmatch

/-- **What is seen of the other atom counts as equal** exactly if the solver's texts are the same
and the atom is compact. -/
theorem Atom.Regular.seenIn_beq_iff (h : atom.Regular) (ho : other.Regular)
    (hs : other.schema = atom.schema) :
    (other.seenIn "," == atom) = true ↔ other.solverText = atom.solverText ∧ atom.Compact := by
  have hsolver := (h.seenThrough spaced_solver).spelled
  have hprogram := (h.seenThrough spaced_program).spelled
  have hother := (ho.seenThrough spaced_solver).spelled
  rw [Atom.beq_iff_text]
  constructor
  · intro ht
    have he := h.seenIn_eq_of_text ho hs ht
    have hcompact := Atom.compact_of_seenIn_eq other h ho hs he
    refine ⟨?_, hcompact⟩
    rw [Atom.solverText, Atom.solverText, ← hother, ← hsolver, he, hcompact.seenIn_eq]
  · rintro ⟨ht, hcompact⟩
    rw [h.seenIn_eq_of_solverText ho hs ht, hcompact.seenIn_eq]
    exact hprogram

end Texts

/-! ## Searching -/

section Search

variable {atom : Atom} {atoms : List Atom} {answer : Answer}

theorem Answer.contains_eq_ok (h : atom.Regular)
    (ha : ∀ other ∈ atoms, other.Regular
      ∧ (other.predicate = atom.predicate → other.schema = atom.schema))
    (hp : answer.atoms = atoms.map Atom.solverText) :
    answer.contains atom = .ok
      ((atoms.filter (·.predicate = atom.predicate)).any (·.seenIn "," == atom)) := by
  have hshows : List.Forall₂ (Shows atom.schema (·.seenIn ",")) atoms answer.atoms := by
    rw [hp, List.forall₂_map_right_iff]
    refine List.forall₂_same.mpr fun other hm => ?_
    obtain ⟨hr, hs⟩ := ha other hm
    refine ⟨hr.built.name, ⟨_, _, Atom.spelled_eq _ other⟩, fun he => ?_⟩
    rw [← hs he]
    exact (hr.seenThrough spaced_solver).reads.bare
  unfold Answer.contains
  rw [Answer.occurrences_eq_ok h.built.name hshows]
  show Except.ok _ = _
  rw [List.any_map]
  rfl

/--
**Membership in an answer.** Let the answer hold the solver's texts of regular
atoms, of which those with the atom's predicate have its schema. Then the search
for a regular atom succeeds, and it finds the atom if and only if the answer has
its text and the atom is compact.
-/
theorem Answer.contains_iff (h : atom.Regular)
    (ha : ∀ other ∈ atoms, other.Regular
      ∧ (other.predicate = atom.predicate → other.schema = atom.schema))
    (hp : answer.atoms = atoms.map Atom.solverText) :
    ∃ found, answer.contains atom = .ok found
      ∧ (found = true ↔ atom.solverText ∈ answer.atoms ∧ atom.Compact) := by
  refine ⟨_, Answer.contains_eq_ok h ha hp, ?_⟩
  rw [List.any_eq_true, hp]
  constructor
  · rintro ⟨other, hm, he⟩
    obtain ⟨hm, hpred⟩ := List.mem_filter.mp hm
    obtain ⟨ho, hs⟩ := ha other hm
    obtain ⟨ht, hcompact⟩ := (h.seenIn_beq_iff ho (hs (of_decide_eq_true hpred))).mp he
    exact ⟨List.mem_map.mpr ⟨other, hm, ht⟩, hcompact⟩
  · rintro ⟨hm, hcompact⟩
    obtain ⟨other, hm, ht⟩ := List.mem_map.mp hm
    obtain ⟨ho, hs⟩ := ha other hm
    have hpred := h.predicate_eq_of_solverText ho ht
    exact ⟨other, List.mem_filter.mpr ⟨hm, decide_eq_true hpred⟩,
      (h.seenIn_beq_iff ho (hs hpred)).mpr ⟨ht, hcompact⟩⟩

end Search

/-! A path of one step, which is a stop or an edge. -/

def stopSchema : Schema := ⟨"stop", [⟨"name", .scalar .string⟩]⟩

def edgeSchema : Schema := ⟨"edge", [⟨"from", .scalar .integer⟩, ⟨"to", .scalar .integer⟩]⟩

def pathSchema : Schema := ⟨"path", [⟨"step", .any⟩]⟩

def stopAtom : Atom := ⟨stopSchema, [.term (.str "a, b")]⟩

def stopPath : Atom := ⟨pathSchema, [.atom stopAtom]⟩

def edgePath : Atom :=
  ⟨pathSchema, [.atom ⟨edgeSchema, [.term (.int 1), .term (.int 2)]⟩]⟩

def pathAnswer : Answer := ⟨["path(edge(1,2))", "path(stop(\"a, b\"))"], [], false⟩

theorem stopPath_regular : stopPath.Regular :=
  ⟨by decide, ⟨⟨by decide, rfl, trivial⟩, trivial⟩⟩

theorem edgePath_regular : edgePath.Regular :=
  ⟨by decide, ⟨⟨by decide, rfl, rfl, trivial⟩, trivial⟩⟩

theorem pathAnswer_regular : ∀ other ∈ [edgePath, stopPath], other.Regular
    ∧ (other.predicate = pathSchema.predicate → other.schema = pathSchema) := by
  intro other hm
  rcases List.mem_cons.mp hm with rfl | hm
  · exact ⟨edgePath_regular, fun _ => rfl⟩
  · rw [List.mem_singleton.mp hm]
    exact ⟨stopPath_regular, fun _ => rfl⟩

theorem pathAnswer_atoms : pathAnswer.atoms = [edgePath, stopPath].map Atom.solverText := by decide

/-- The stop has one argument, and the comma in its name is in a string. -/
theorem Answer.contains_iff_stopPath :
    stopPath.Regular ∧ pathAnswer.atoms = [edgePath, stopPath].map Atom.solverText
      ∧ pathAnswer.contains stopPath = .ok true := by
  obtain ⟨found, hfound, hiff⟩ :=
    Answer.contains_iff stopPath_regular pathAnswer_regular pathAnswer_atoms
  have hmem : stopPath.solverText ∈ pathAnswer.atoms := by decide
  have hsame : (FieldValue.atom stopAtom).spelled "," = (FieldValue.atom stopAtom).text := by decide
  have hcompact : stopPath.Compact := ⟨by rwa [FieldValue.CompactIn], trivial⟩
  rw [hiff.mpr ⟨hmem, hcompact⟩] at hfound
  exact ⟨stopPath_regular, pathAnswer_atoms, hfound⟩

/-- The edge has two arguments, so its path is not found although its text is there. -/
theorem Answer.not_contains_edgePath :
    edgePath.Regular ∧ (∀ other ∈ [edgePath, stopPath], other.Regular
        ∧ (other.predicate = edgePath.predicate → other.schema = edgePath.schema))
      ∧ pathAnswer.atoms = [edgePath, stopPath].map Atom.solverText
      ∧ edgePath.solverText ∈ pathAnswer.atoms
      ∧ pathAnswer.contains edgePath = .ok false := by
  refine ⟨edgePath_regular, pathAnswer_regular, pathAnswer_atoms, by decide, ?_⟩
  rw [Answer.contains_eq_ok edgePath_regular pathAnswer_regular pathAnswer_atoms]
  exact congrArg Except.ok (by decide)

end AnswerSet
