import AnswerSet.Proofs.Occurrences

/-!
# Reading a ground program

The symbol table of a ground program stands between two lines with a zero. No
line before the first zero is one itself, no line of the table is, since it has a
blank, and what comes behind the second zero is not looked at. So the table is
found whole, whatever the rules, the atoms and the tail contain
(`GroundListing.symbolTable_text`). Lines may end in either way, each on its own.

The instances of a schema are the atoms of the table that have its predicate,
decoded in order. The predicate of a text is the name that it starts with
(`leadingName`). A search passes over all texts with another name
(`takeWhile_of_isAtomOf`), so it is enough that those with the schema's name are
atoms of the schema.
-/

namespace AnswerSet

/-! ## Lines -/

/-- How a line ends. -/
inductive LineEnd where
  | feed
  | returnFeed

/-- The characters at the end of a line. -/
def LineEnd.chars : LineEnd → List Char
  | .feed => ['\n']
  | .returnFeed => ['\r', '\n']

/-- The text does not end a line. -/
def Unbroken (cs : List Char) : Prop := '\n' ∉ cs ∧ '\r' ∉ cs

instance (cs : List Char) : Decidable (Unbroken cs) :=
  inferInstanceAs (Decidable ('\n' ∉ cs ∧ '\r' ∉ cs))

theorem Unbroken.append {cs ds : List Char} (hc : Unbroken cs) (hd : Unbroken ds) :
    Unbroken (cs ++ ds) :=
  ⟨by simp [hc.1, hd.1], by simp [hc.2, hd.2]⟩

/-- A line with its end. -/
structure Line where
  chars : List Char
  ending : LineEnd
  unbroken : Unbroken chars

/-- The line as it stands in a text. -/
def Line.written (line : Line) : List Char := line.chars ++ line.ending.chars

theorem lines_ending (ending : LineEnd) (rest : List Char) :
    Text.lines (ending.chars ++ rest) = [] :: Text.lines rest := by
  cases ending with
  | feed => exact Text.lines.eq_2 rest
  | returnFeed => exact Text.lines.eq_3 rest

theorem lines_cons {c : Char} (hn : c ≠ '\n') (hr : c ≠ '\r') (rest : List Char) :
    Text.lines (c :: rest) = Text.consFirst c (Text.lines rest) :=
  Text.lines.eq_4 c rest hn fun _ hc _ => hr hc

/-- **A line is cut off at its end.** -/
theorem Line.lines_append (line : Line) (rest : List Char) :
    Text.lines (line.written ++ rest) = line.chars :: Text.lines rest := by
  obtain ⟨cs, ending, hcs⟩ := line
  change Text.lines ((cs ++ ending.chars) ++ rest) = cs :: Text.lines rest
  rw [List.append_assoc]
  induction cs with
  | nil => exact lines_ending ending rest
  | cons c cs ih =>
      obtain ⟨hn, hr⟩ := hcs
      obtain ⟨hcn, hn⟩ := List.ne_and_not_mem_of_not_mem_cons hn
      obtain ⟨hcr, hr⟩ := List.ne_and_not_mem_of_not_mem_cons hr
      rw [List.cons_append, lines_cons hcn.symm hcr.symm, ih ⟨hn, hr⟩]
      rfl

theorem lines_flatMap (lines : List Line) (rest : List Char) :
    Text.lines (lines.flatMap Line.written ++ rest)
      = lines.map (·.chars) ++ Text.lines rest := by
  induction lines with
  | nil => rfl
  | cons line lines ih =>
      rw [List.flatMap_cons, List.append_assoc, line.lines_append, ih]
      rfl

/-! ## The listing of a ground program -/

/-- The line with a zero. -/
def endLine (ending : LineEnd) : Line where
  chars := sectionEnd
  ending := ending
  unbroken := by decide

/-- A line of the rules: any that is not the zero. -/
structure RuleLine extends Line where
  notEnd : chars ≠ sectionEnd

/-- A line of the table: a decimal number, a blank and the text of an atom. -/
structure TableLine where
  number : List Char
  atom : String
  ending : LineEnd
  isNumber : number ≠ [] ∧ number.all Char.isDigit = true
  unbroken : Unbroken atom.toList

/-- The line of a table's entry. -/
def TableLine.toLine (line : TableLine) : Line where
  chars := line.number ++ ' ' :: line.atom.toList
  ending := line.ending
  unbroken := by
    have hdigits : ∀ {c : Char}, c.isDigit = false → c ∉ line.number := by
      intro c hc hm
      rw [List.all_eq_true.mp line.isNumber.2 c hm] at hc
      exact absurd hc (by decide)
    have hnumber : Unbroken line.number := ⟨hdigits (by decide), hdigits (by decide)⟩
    have hblank : Unbroken [' '] := by decide
    exact hnumber.append (hblank.append line.unbroken)

/-- What the solver writes for a ground program. -/
structure GroundListing where
  rules : List RuleLine
  rulesEnd : LineEnd
  table : List TableLine
  tableEnd : LineEnd
  tail : List Char

namespace GroundListing

variable (listing : GroundListing)

/-- The listing as text. -/
def text : String :=
  .ofList ((listing.rules.map (·.toLine)).flatMap Line.written
    ++ ((endLine listing.rulesEnd).written
    ++ ((listing.table.map TableLine.toLine).flatMap Line.written
    ++ ((endLine listing.tableEnd).written ++ listing.tail))))

/-- The texts of the table's atoms. -/
def atoms : List String := listing.table.map (·.atom)

theorem lines_text : Text.lines listing.text.toList
    = listing.rules.map (·.chars) ++ sectionEnd ::
      (listing.table.map (·.toLine.chars) ++ sectionEnd :: Text.lines listing.tail) := by
  rw [text, String.toList_ofList, lines_flatMap, Line.lines_append, lines_flatMap,
    Line.lines_append]
  simp only [List.map_map]
  rfl

/-- What stands between the first two ends, if neither of the parts before has one. -/
theorem takeWhile_between {α : Type} [DecidableEq α] {stop : α} {before table after : List α}
    (hb : ∀ a ∈ before, a ≠ stop) (ht : ∀ a ∈ table, a ≠ stop) :
    (((before ++ stop :: (table ++ stop :: after)).dropWhile (· ≠ stop)).drop 1).takeWhile
      (· ≠ stop) = table := by
  rw [List.dropWhile_append_of_pos fun a ha => decide_eq_true (hb a ha),
    List.dropWhile_cons_of_neg (by simp), List.drop_succ_cons, List.drop_zero,
    List.takeWhile_append_of_pos fun a ha => decide_eq_true (ht a ha),
    List.takeWhile_cons_of_neg (by simp), List.append_nil]

/-- A blank tells an entry from the end of the table. -/
theorem chars_ne_sectionEnd (line : TableLine) : line.toLine.chars ≠ sectionEnd := by
  intro h
  have hblank : ' ' ∈ line.toLine.chars := List.mem_append_right _ List.mem_cons_self
  rw [h] at hblank
  exact absurd hblank (by decide)

theorem afterFirst?_number {number : List Char} (h : number.all Char.isDigit = true)
    (cs : List Char) : Text.afterFirst? ' ' (number ++ ' ' :: cs) = some cs := by
  induction number with
  | nil => rfl
  | cons c number ih =>
      obtain ⟨hc, hrest⟩ := Bool.and_eq_true_iff.mp (by simpa only [List.all_cons] using h)
      have hne : c ≠ ' ' := by
        rintro rfl
        exact absurd hc (by decide)
      rw [List.cons_append, Text.afterFirst?, if_neg hne, ih hrest]

/-- **The table is read whole and in order.** -/
theorem symbolTable_text : symbolTable listing.text = listing.atoms := by
  have hrules : ∀ cs ∈ listing.rules.map (·.chars), cs ≠ sectionEnd := by
    intro cs hcs
    obtain ⟨rule, -, rfl⟩ := List.mem_map.mp hcs
    exact rule.notEnd
  have htable : ∀ cs ∈ listing.table.map (·.toLine.chars), cs ≠ sectionEnd := by
    intro cs hcs
    obtain ⟨line, -, rfl⟩ := List.mem_map.mp hcs
    exact chars_ne_sectionEnd line
  unfold symbolTable
  dsimp only
  rw [lines_text, takeWhile_between hrules htable, List.filterMap_map]
  have hentry : (Text.afterFirst? ' ' ∘ fun line : TableLine => line.toLine.chars)
      = some ∘ fun line => line.atom.toList :=
    funext fun line => afterFirst?_number line.isNumber.2 line.atom.toList
  rw [hentry, List.filterMap_eq_map, List.map_map, atoms]
  exact List.map_congr_left fun line _ => String.ofList_toList

end GroundListing

/-! ## The instances of a schema -/

/-- The name that a text starts with, behind blanks. -/
def leadingName (text : String) : String :=
  .ofList ((Text.trim text.toList).takeWhile isPredicateChar)

theorem leadingName_of_matches {predicate text : String} (hn : isPredicateName predicate = true)
    (h : matchesPredicate predicate text = true) : leadingName text = predicate := by
  rw [leadingName, takeWhile_of_isAtomOf hn h, String.ofList_toList]

section Instances

variable {schema : Schema} {texts : List String} {instances : List Atom}

/-- A search finds the texts with the schema's name if they are atoms of the schema. -/
theorem Answer.occurrences_of_leadingName (hb : schema.Built)
    (hi : ∀ atom ∈ instances, atom.schema = schema ∧ atom.Conforms)
    (ht : texts.filter (leadingName · = schema.predicate) = instances.map Atom.solverText)
    (costs : List Int64) (optimal : Bool) :
    (⟨texts, costs, optimal⟩ : Answer).occurrences schema = .ok instances := by
  have hmatches : ∀ text ∈ texts, matchesPredicate schema.predicate text
      = decide (leadingName text = schema.predicate) := by
    intro text hm
    rw [Bool.eq_iff_iff, decide_eq_true_eq]
    refine ⟨leadingName_of_matches hb.name, fun hname => ?_⟩
    -- the text is one of the instances
    have hin : text ∈ instances.map Atom.solverText := by
      rw [← ht]
      exact List.mem_filter.mpr ⟨hm, decide_eq_true hname⟩
    obtain ⟨atom, hatom, rfl⟩ := List.mem_map.mp hin
    obtain ⟨rfl, -⟩ := hi atom hatom
    rw [Atom.solverText, Atom.spelled_eq]
    exact (isAtomOf_application_iff hb.name hb.name).mpr rfl
  unfold Answer.occurrences
  rw [List.filter_congr hmatches, ht, mapM_eq_ok_iff, List.forall₂_map_left_iff,
    List.forall₂_same]
  intro atom hatom
  obtain ⟨rfl, hconforms⟩ := hi atom hatom
  exact hconforms.decode_printed hb (Or.inr rfl)

end Instances

theorem ProcessOutput.exists_check {output : ProcessOutput} (h : output.isError = false) :
    ∃ warning, output.check = .ok warning := by
  unfold isError at h
  unfold check
  cases hc : output.exitCode with
  | none => exact ⟨_, rfl⟩
  | some code =>
      rw [hc] at h
      exact ⟨_, if_neg (by simpa using h)⟩

/--
**Possible instances are read completely and in order.** From every listing of a
ground program, with any rules, any tail and either end at each line, exactly the
texts of the table's atoms are read, in order. The instances of a schema in a
program are asked for by one run without a time limit. If its output is a
listing and it did not end with an error, and if the atoms of the table with the
schema's name are the texts of conforming atoms of the schema, these atoms are
the instances, in the order of the table.
-/
theorem GroundListing.possibleInstances_text (listing : GroundListing) :
    symbolTable listing.text = listing.atoms
    ∧ ∀ (schema : Schema) (instances : List Atom), schema.Built →
        (∀ atom ∈ instances, atom.schema = schema ∧ atom.Conforms) →
        listing.atoms.filter (leadingName · = schema.predicate)
          = instances.map Atom.solverText →
        ∀ (program : Program) (config : SolverConfig) (text : String),
          program.render = .ok text →
          ∃ call, program.possibleInstances config schema = .ok call
            ∧ call.invocation = ⟨config, ["--output=smodels"], text, none⟩
            ∧ ∀ raw output, raw.decode = .ok output → output.stdout = listing.text →
              output.isError = false → call.finish (.ok raw) = .ok instances := by
  refine ⟨listing.symbolTable_text, fun schema instances hb hi ht program config text hr => ?_⟩
  let search : List String → Except Error (List Atom) := fun atoms =>
    ((⟨atoms, [], false⟩ : Answer).occurrences schema).mapError .decode
  refine ⟨(config.groundAtoms text).andThen search, ?_, rfl, fun raw output hraw hout he => ?_⟩
  · rw [Program.possibleInstances, hr]
    rfl
  · obtain ⟨warning, hcheck⟩ := ProcessOutput.exists_check he
    have hatoms : (config.groundAtoms text).finish (.ok raw) = .ok listing.atoms := by
      rw [← listing.symbolTable_text, ← hout]
      change ((raw.decode.mapError Error.system).bind fun output =>
        output.check.bind fun _ => .ok (symbolTable output.stdout)) = _
      rw [hraw]
      change (output.check.bind fun _ => .ok (symbolTable output.stdout)) = _
      rw [hcheck]
      rfl
    rw [SolverCall.finish_andThen, hatoms]
    change ((⟨listing.atoms, [], false⟩ : Answer).occurrences schema).mapError Error.decode = _
    rw [Answer.occurrences_of_leadingName hb hi ht]
    rfl

/-! A table with a blank and a number in a string, and a tail with another zero. -/

def mixedTable : List TableLine :=
  [⟨['2'], "a(-1)", .feed, by decide, by decide⟩,
    ⟨['1', '0'], "a'(1,\"0 a(3)\")", .returnFeed, by decide, by decide⟩,
    ⟨['7'], "ab", .feed, by decide, by decide⟩,
    ⟨['0'], "a(2)", .returnFeed, by decide, by decide⟩]

def mixedListing : GroundListing where
  rules := [⟨⟨"1 2 0 0".toList, .feed, by decide⟩, by decide⟩,
    ⟨⟨"0 0".toList, .returnFeed, by decide⟩, by decide⟩]
  rulesEnd := .returnFeed
  table := mixedTable
  tableEnd := .feed
  tail := "B+\n0\n9 a(9)\n0\n".toList

def mixedInstances : List Atom :=
  [⟨numberSchema, [.term (.int (-1))]⟩, ⟨numberSchema, [.term (.int 2)]⟩]

/-- The string, the longer predicates and the tail do not get in the way. -/
theorem GroundListing.possibleInstances_mixedListing :
    mixedListing.text
        = "1 2 0 0\n0 0\r\n0\r\n2 a(-1)\n10 a'(1,\"0 a(3)\")\r\n7 ab\n0 a(2)\r\n0\nB+\n0\n9 a(9)\n0\n"
      ∧ symbolTable mixedListing.text = ["a(-1)", "a'(1,\"0 a(3)\")", "ab", "a(2)"]
      ∧ ∀ config : SolverConfig, ∃ call,
          Program.empty.possibleInstances config numberSchema = .ok call
          ∧ call.finish (.ok ⟨mixedListing.text.toUTF8, "".toUTF8, some 0, false⟩)
            = .ok mixedInstances := by
  have hread := mixedListing.possibleInstances_text
  refine ⟨by decide, hread.1, fun config => ?_⟩
  have hi : ∀ atom ∈ mixedInstances, atom.schema = numberSchema ∧ atom.Conforms := by
    intro atom hm
    rcases List.mem_pair.mp hm with rfl | rfl
    · exact ⟨rfl, rfl, trivial⟩
    · exact ⟨rfl, rfl, trivial⟩
  obtain ⟨call, hcall, -, hfinish⟩ := hread.2 numberSchema mixedInstances (by decide) hi (by decide)
    Program.empty config "" rfl
  exact ⟨call, hcall, hfinish _ _ (RawOutput.decode_toUTF8 mixedListing.text "" (some 0)) rfl rfl⟩

end AnswerSet
