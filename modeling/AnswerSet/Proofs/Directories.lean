import AnswerSet.CommandLine.Session
import AnswerSet.Proofs.Decoding

/-!
# Programs under a directory

The programs under a directory are the places in its tree that are named like a
program. The walk lists a directory before its entries and the entries by name, so
the places come in lexicographic order of the names that lead to them, and each
comes once.

**The name alone decides.** A directory with the name of a program is taken for one,
the directory where the walk starts included, and as it has no text the whole command
fails on it. Without such a directory exactly the files are found, and nothing but
their bytes can make the command fail on loading. The walk itself is one statement
(`listing_visits`), by induction on the tree: where an entry's walk ends the next
entry's begins, and all names under the first come before those under the next.
-/

namespace AnswerSet.CommandLine

/-! ## Names of paths -/

/-- What stands as the name of an entry in a directory. -/
structure IsEntryName (name : String) : Prop where
  nonempty : name ≠ ""
  not_dot : name ≠ "."
  not_dots : name ≠ ".."
  no_slash : '/' ∉ name.toList

/-- A program is named by a stem and the extension `lp`. -/
def IsProgramName (name : String) : Prop := ∃ stem, stem ≠ "" ∧ name = stem ++ ".lp"

theorem pathNames_entryPath (path : String) {name : String} (h : '/' ∉ name.toList) :
    ∃ before, pathNames (entryPath path name) = before ++ [name] := by
  have hname : (Text.splitAt '/' name.toList).map String.ofList = [name] := by
    rw [Text.splitAt_of_not_mem h, List.map_singleton, String.ofList_toList]
  unfold pathNames entryPath
  by_cases hslash : path.toList.getLast? = some '/'
  · obtain ⟨cs, hcs⟩ := List.getLast?_eq_some_iff.mp hslash
    refine ⟨(Text.splitAt '/' cs).map String.ofList, ?_⟩
    rw [if_pos hslash, String.toList_append, hcs, List.append_assoc, List.singleton_append,
      Text.splitAt_append, List.map_append, hname]
  · refine ⟨(Text.splitAt '/' path.toList).map String.ofList, ?_⟩
    have hpath : (path ++ "/" ++ name).toList = path.toList ++ '/' :: name.toList := by
      simp [String.toList_append]
    rw [if_neg hslash, hpath, Text.splitAt_append, List.map_append, hname]

/-- The path of an entry ends with its name. -/
theorem baseName?_entryPath (path : String) {name : String} (h : IsEntryName name) :
    baseName? (entryPath path name) = some name := by
  obtain ⟨before, hbefore⟩ := pathNames_entryPath path h.no_slash
  have hkept : [name].filter (fun name => !name.isEmpty && name ≠ ".") = [name] := by
    simp [h.nonempty, h.not_dot]
  simp only [baseName?, hbefore, List.filter_append, hkept, List.getLast?_concat]
  split
  · rename_i heq
    injection heq with heq
    exact absurd heq h.not_dots
  · rfl

/-- The characters of a program's name, from the back. -/
theorem isProgramName_iff {name : String} :
    IsProgramName name ↔ ∃ c cs, name.toList.reverse = 'p' :: 'l' :: '.' :: c :: cs := by
  constructor
  · rintro ⟨stem, hstem, rfl⟩
    cases h : stem.toList.reverse with
    | nil =>
        rw [List.reverse_eq_nil_iff] at h
        exact absurd (String.toList_eq_nil_iff.mp h) hstem
    | cons c cs => exact ⟨c, cs, by simp [String.toList_append, h]⟩
  · rintro ⟨c, cs, h⟩
    refine ⟨String.ofList (c :: cs).reverse, by simp, ?_⟩
    have hname := congrArg List.reverse h
    rw [List.reverse_reverse] at hname
    apply String.toList_inj.mp
    rw [hname, String.toList_append, String.toList_ofList]
    simp

/-- The extension is `lp` exactly for the names of programs. -/
theorem extension?_eq_lp_iff {path : String} :
    extension? path = some "lp" ↔ ∃ name, baseName? path = some name ∧ IsProgramName name := by
  unfold extension?
  cases baseName? path with
  | none => simp
  | some name =>
      simp only [Option.bind_eq_bind, Option.bind_some, Option.some.injEq, exists_eq_left',
        isProgramName_iff]
      have hsplit := List.takeWhile_append_dropWhile (p := (· ≠ '.')) (l := name.toList.reverse)
      constructor
      · intro h
        split at h
        · rename_i c cs hdrop
          have htake : name.toList.reverse.takeWhile (· ≠ '.') = ['p', 'l'] := by
            have hlp := congrArg String.toList (Option.some.inj h)
            rw [String.toList_ofList] at hlp
            exact List.reverse_eq_iff.mp hlp
          exact ⟨c, cs, by rw [← hsplit, htake, hdrop]; rfl⟩
        · cases h
      · rintro ⟨c, cs, h⟩
        simp [h]

/-! ## Places in a tree -/

/-- What holds of a directory if it holds of its entries, and of files, holds of every tree. -/
theorem FileTree.induction {motive : FileTree → Prop} (file : ∀ content, motive (.file content))
    (directory : ∀ entries, (∀ name entry, (name, entry) ∈ entries → motive entry) →
      motive (.directory entries)) : ∀ tree, motive tree
  | .file content => file content
  | .directory entries => directory entries fun name entry hentry =>
      have : sizeOf entry < 1 + sizeOf entries := by
        have hlt := List.sizeOf_lt_of_mem hentry
        rw [Prod.mk.sizeOf_spec] at hlt
        omega
      FileTree.induction file directory entry

/-- `tree.Holds names entry`: the names lead from the tree to the entry, one directory each. -/
inductive FileTree.Holds : FileTree → List String → FileTree → Prop where
  | here (tree : FileTree) : Holds tree [] tree
  | inside {entries : List (String × FileTree)} {name : String} {inner : FileTree}
      {names : List String} {entry : FileTree} :
      (name, inner) ∈ entries → Holds inner names entry →
      Holds (.directory entries) (name :: names) entry

theorem FileTree.holds_file {content : ByteArray} {names : List String} {entry : FileTree} :
    (FileTree.file content).Holds names entry ↔ names = [] ∧ entry = .file content := by
  constructor
  · rintro ⟨⟩
    exact ⟨rfl, rfl⟩
  · rintro ⟨rfl, rfl⟩
    exact .here _

theorem FileTree.holds_directory {entries : List (String × FileTree)} {names : List String}
    {entry : FileTree} : (FileTree.directory entries).Holds names entry ↔
      names = [] ∧ entry = .directory entries
        ∨ ∃ name inner rest, names = name :: rest ∧ (name, inner) ∈ entries
          ∧ inner.Holds rest entry := by
  constructor
  · rintro (_ | ⟨hmem, hrest⟩)
    · exact .inl ⟨rfl, rfl⟩
    · exact .inr ⟨_, _, _, rfl, hmem, hrest⟩
  · rintro (⟨rfl, rfl⟩ | ⟨name, inner, rest, rfl, hmem, hrest⟩)
    · exact .here _
    · exact .inside hmem hrest

/-- The path from the start of the walk that names lead along. -/
def pathTo (directory : String) (names : List String) : String := names.foldl entryPath directory

/-- The name of the place that names lead to. The start has the one that its own path gives it. -/
def placeName? (directory : String) (names : List String) : Option String :=
  names.getLast?.or (baseName? directory)

/-- Is the place named like a program? -/
def IsProgramPlace (directory : String) (names : List String) : Prop :=
  ∃ name, placeName? directory names = some name ∧ IsProgramName name

/-- A tree in which everything can be listed and read: the entries of a directory have different
names, and no path grows too long. -/
structure FileTree.Listable (directory : String) (tree : FileTree) : Prop where
  named : ∀ {names entries}, tree.Holds names (.directory entries) →
    ∀ name ∈ entries.map (·.1), IsEntryName name
  distinct : ∀ {names entries}, tree.Holds names (.directory entries) →
    (entries.map (·.1)).Nodup
  reachable : ∀ {names entry}, tree.Holds names entry →
    isTooLong (pathTo directory names) = false

/-- In a directory that can be listed so can all entries. -/
theorem FileTree.Listable.inside {directory name : String} {entries : List (String × FileTree)}
    {entry : FileTree} (h : (FileTree.directory entries).Listable directory)
    (hentry : (name, entry) ∈ entries) : entry.Listable (entryPath directory name) where
  named hholds := h.named (.inside hentry hholds)
  distinct hholds := h.distinct (.inside hentry hholds)
  reachable hholds := h.reachable (.inside hentry hholds)

theorem FileTree.Listable.isEntryName {directory : String} {tree entry : FileTree}
    {names : List String} (h : tree.Listable directory) (hholds : tree.Holds names entry) :
    ∀ name ∈ names, IsEntryName name := by
  induction hholds generalizing directory with
  | here => simp
  | @inside entries name inner names entry hmem hrest ih =>
      intro name' hname
      rcases List.mem_cons.mp hname with rfl | hname
      · exact h.named (.here _) _ (List.mem_map_of_mem hmem)
      · exact ih (h.inside hmem) name' hname

/-- A path gives a place the name under which it stands in its directory. -/
theorem baseName?_pathTo {directory : String} {names : List String}
    (h : ∀ name ∈ names, IsEntryName name) :
    baseName? (pathTo directory names) = placeName? directory names := by
  rcases List.eq_nil_or_concat names with rfl | ⟨before, name, rfl⟩
  · rfl
  · rw [List.concat_eq_append] at h ⊢
    rw [placeName?, List.getLast?_concat, pathTo, List.foldl_append]
    exact baseName?_entryPath _ (h name (by simp))

theorem isProgramPath_pathTo {directory : String} {tree entry : FileTree} {names : List String}
    (h : tree.Listable directory) (hholds : tree.Holds names entry) :
    isProgramPath (pathTo directory names) = true ↔ IsProgramPlace directory names := by
  rw [isProgramPath, decide_eq_true_iff, extension?_eq_lp_iff,
    baseName?_pathTo (h.isEntryName hholds)]
  rfl

/-! ## The walk -/

/-- The places that meet a condition, by their paths and each once: a directory before its entries
and the entries by name. -/
def Visits (directory : String) (P : List String → FileTree → Prop)
    (found : List (String × FileTree)) : Prop :=
  ∃ places : List (List String × FileTree),
    found = places.map (fun place => (pathTo directory place.1, place.2))
      ∧ places.Pairwise (·.1 < ·.1)
      ∧ ∀ names entry, (names, entry) ∈ places ↔ P names entry

theorem entryListings_eq_map (path : String) (entries : List (String × FileTree)) :
    FileTree.entryListings path entries
      = entries.map fun e => (e.1, e.2.listing (entryPath path e.1)) := by
  induction entries with
  | nil => rw [FileTree.entryListings, List.map_nil]
  | cons e entries ih =>
      obtain ⟨name, entry⟩ := e
      rw [FileTree.entryListings, ih, List.map_cons]

/-- The entries of a directory by name. -/
def sortedEntries (entries : List (String × FileTree)) : List (String × FileTree) :=
  entries.mergeSort fun a b => a.1 ≤ b.1

theorem mem_sortedEntries {e : String × FileTree} {entries : List (String × FileTree)} :
    e ∈ sortedEntries entries ↔ e ∈ entries :=
  (List.mergeSort_perm entries _).mem_iff

/-- Different names come in increasing order. -/
theorem sortedEntries_pairwise {entries : List (String × FileTree)}
    (h : (entries.map (·.1)).Nodup) : (sortedEntries entries).Pairwise (·.1 < ·.1) := by
  have hle : (sortedEntries entries).Pairwise fun a b => decide (a.1 ≤ b.1) = true := by
    apply List.pairwise_mergeSort
    · intro a b c hab hbc
      exact decide_eq_true (String.le_trans (of_decide_eq_true hab) (of_decide_eq_true hbc))
    · intro a b
      simpa using String.le_total a.1 b.1
  have hne : ((sortedEntries entries).map (·.1)).Nodup :=
    ((List.mergeSort_perm entries _).map _).nodup_iff.mpr h
  refine hle.imp₂ (fun a b hab hne => ?_) (List.pairwise_map.mp hne)
  apply String.not_le.mp
  intro hba
  exact hne (String.le_antisymm (of_decide_eq_true hab) hba)

theorem listing_file (path : String) (content : ByteArray) :
    (FileTree.file content).listing path = [(path, .file content)] := by
  rw [FileTree.listing]

/-- A directory is listed before its entries, and they by name. -/
theorem listing_directory (path : String) (entries : List (String × FileTree)) :
    (FileTree.directory entries).listing path = (path, .directory entries)
      :: (sortedEntries entries).flatMap fun e => e.2.listing (entryPath path e.1) := by
  have hsorted : (sortedEntries entries).map (fun e => (e.1, e.2.listing (entryPath path e.1)))
      = (FileTree.entryListings path entries).mergeSort fun a b => a.1 ≤ b.1 := by
    rw [entryListings_eq_map]
    exact List.map_mergeSort fun a _ b _ => rfl
  rw [FileTree.listing, ← hsorted, List.flatMap_map]

/-- Walks through entries of increasing names, one after the other, make one walk. -/
theorem visits_entries {path : String} {entries : List (String × FileTree)}
    (hsorted : entries.Pairwise (·.1 < ·.1))
    (h : ∀ name entry, (name, entry) ∈ entries →
      Visits (entryPath path name) entry.Holds (entry.listing (entryPath path name))) :
    Visits path (fun names entry => ∃ name inner rest, names = name :: rest
        ∧ (name, inner) ∈ entries ∧ inner.Holds rest entry)
      (entries.flatMap fun e => e.2.listing (entryPath path e.1)) := by
  induction entries with
  | nil => exact ⟨[], rfl, .nil, by simp⟩
  | cons e entries ih =>
      obtain ⟨name, entry⟩ := e
      obtain ⟨hfirst, hrest⟩ := List.pairwise_cons.mp hsorted
      obtain ⟨own, hown, howns, hownm⟩ := h name entry List.mem_cons_self
      obtain ⟨others, hothers, hotherss, hothersm⟩ :=
        ih hrest fun name entry hm => h name entry (List.mem_cons_of_mem _ hm)
      -- the first entry's own places are reached through its name
      refine ⟨own.map (fun place => (name :: place.1, place.2)) ++ others, ?_, ?_, ?_⟩
      · rw [List.flatMap_cons, hown, hothers, List.map_append, List.map_map]
        rfl
      · refine List.pairwise_append.mpr ⟨?_, hotherss, ?_⟩
        · refine List.pairwise_map.mpr (howns.imp fun hlt => ?_)
          exact List.cons_lt_cons_iff.mpr (.inr ⟨rfl, hlt⟩)
        · -- under different entries the first name decides
          intro place hplace other hother
          obtain ⟨inner, _, rfl⟩ := List.mem_map.mp hplace
          obtain ⟨name', entry', rest, hnames, hentry, _⟩ := (hothersm other.1 other.2).mp hother
          rw [hnames]
          exact List.cons_lt_cons_iff.mpr (.inl (hfirst _ hentry))
      · intro names place
        rw [List.mem_append, hothersm, List.mem_map]
        constructor
        · rintro (⟨⟨rest, inner⟩, hmem, heq⟩ | ⟨name', inner, rest, rfl, hmem, hholds⟩)
          · cases heq
            exact ⟨name, entry, rest, rfl, List.mem_cons_self, (hownm rest inner).mp hmem⟩
          · exact ⟨name', inner, rest, rfl, List.mem_cons_of_mem _ hmem, hholds⟩
        · rintro ⟨name', inner, rest, rfl, hmem, hholds⟩
          rcases List.mem_cons.mp hmem with heq | hmem
          · cases heq
            exact .inl ⟨(rest, place), (hownm rest place).mpr hholds, rfl⟩
          · exact .inr ⟨name', inner, rest, rfl, hmem, hholds⟩

/-- **The walk comes to every place of the tree once, and in order.** -/
theorem listing_visits {path : String} {tree : FileTree} (h : tree.Listable path) :
    Visits path tree.Holds (tree.listing path) := by
  induction tree using FileTree.induction generalizing path with
  | file content =>
      refine ⟨[([], .file content)], listing_file path content, List.pairwise_singleton _ _, ?_⟩
      intro names entry
      simp [FileTree.holds_file]
  | directory entries ih =>
      obtain ⟨places, hplaces, hsorted, hmem⟩ :=
        visits_entries (sortedEntries_pairwise (h.distinct (.here _))) fun name entry hentry =>
          have hentry := mem_sortedEntries.mp hentry
          ih name entry hentry (h.inside hentry)
      refine ⟨([], .directory entries) :: places, ?_, ?_, ?_⟩
      · rw [listing_directory, hplaces]
        rfl
      · -- the directory itself is where no name leads
        refine List.pairwise_cons.mpr ⟨?_, hsorted⟩
        intro place hplace
        obtain ⟨name, inner, rest, hnames, _⟩ := (hmem place.1 place.2).mp hplace
        rw [hnames]
        exact List.nil_lt_cons _ _
      · intro names entry
        simp only [List.mem_cons, Prod.mk.injEq, hmem, mem_sortedEntries,
          FileTree.holds_directory]

section Visits

variable {directory : String} {P Q : List String → FileTree → Prop}
  {found : List (String × FileTree)}

/-- Sifting what a walk found by a test of the places. -/
theorem Visits.filter (h : Visits directory P found) {p : String × FileTree → Bool}
    (hp : ∀ names entry, P names entry →
      (p (pathTo directory names, entry) = true ↔ Q names entry)) :
    Visits directory (fun names entry => P names entry ∧ Q names entry) (found.filter p) := by
  obtain ⟨places, rfl, hsorted, hmem⟩ := h
  refine ⟨places.filter fun place => p (pathTo directory place.1, place.2), ?_,
    hsorted.filter _, ?_⟩
  · rw [List.filter_map]
    rfl
  · intro names entry
    rw [List.mem_filter, hmem]
    exact and_congr_right fun hplace => hp names entry hplace

/-- Conditions that agree on all places find the same. -/
theorem Visits.congr (h : Visits directory P found)
    (hPQ : ∀ names entry, P names entry ↔ Q names entry) : Visits directory Q found := by
  obtain ⟨places, hfound, hsorted, hmem⟩ := h
  exact ⟨places, hfound, hsorted, fun names entry => (hmem names entry).trans (hPQ names entry)⟩

/-- What is found lies at a place that meets the condition. -/
theorem Visits.mem_iff (h : Visits directory P found) {path : String} {entry : FileTree} :
    (path, entry) ∈ found ↔ ∃ names, path = pathTo directory names ∧ P names entry := by
  obtain ⟨places, rfl, _, hmem⟩ := h
  constructor
  · intro hfound
    obtain ⟨⟨names, place⟩, hplace, heq⟩ := List.mem_map.mp hfound
    cases heq
    exact ⟨names, rfl, (hmem names place).mp hplace⟩
  · rintro ⟨names, rfl, hplace⟩
    exact List.mem_map.mpr ⟨(names, entry), (hmem names entry).mpr hplace, rfl⟩

end Visits

/-! ## Finding the programs -/

/-- The programs that are found under a directory are the places of its tree that meet the
condition, and it is an error if there are none. -/
def Finds (view : View) (directory : String) (tree : FileTree)
    (P : List String → FileTree → Prop) : Prop :=
  ∃ found, Visits directory (fun names entry => tree.Holds names entry ∧ P names entry) found
    ∧ programsUnder view directory =
      if found.isEmpty then .error (.emptyDirectory directory) else .ok found

/-- A file that is named like a program. -/
def IsProgramFile (directory : String) (names : List String) (entry : FileTree) : Prop :=
  IsProgramPlace directory names ∧ ∃ content, entry = .file content

/-- Is a directory in the tree named like a program? The one where the walk starts counts. -/
def HasProgramDirectory (directory : String) (tree : FileTree) : Prop :=
  ∃ names entries, tree.Holds names (.directory entries) ∧ IsProgramPlace directory names

section Finds

variable {view : View} {directory : String} {tree : FileTree}

/-- The programs in a tree that can be listed. -/
theorem programs_eq (htree : tree.Listable directory) :
    tree.programs directory
      = .ok ((tree.listing directory).filter fun place => isProgramPath place.1) := by
  have hshort : (tree.listing directory).find?
      (fun place => place.2.isDirectory && isTooLong place.1) = none := by
    apply List.find?_eq_none.mpr
    rintro ⟨path, entry⟩ hplace
    obtain ⟨names, rfl, hholds⟩ := (listing_visits htree).mem_iff.mp hplace
    simp [htree.reachable hholds]
  rw [FileTree.programs]
  simp only [hshort]

/-- Everything named like a program is found. -/
theorem finds_programPlaces (hview : view directory = .ok tree) (htree : tree.Listable directory) :
    Finds view directory tree fun names _ => IsProgramPlace directory names := by
  refine ⟨_, (listing_visits htree).filter (p := fun place => isProgramPath place.1)
    fun names entry hholds => isProgramPath_pathTo htree hholds, ?_⟩
  rw [programsUnder, hview]
  simp only [Except.mapError, bind, Except.bind, programs_eq htree]
  cases (tree.listing directory).filter fun place => isProgramPath place.1 <;> rfl

/-- Only files are found exactly if no directory is named like a program. -/
theorem finds_programFiles_iff (hview : view directory = .ok tree)
    (htree : tree.Listable directory) :
    Finds view directory tree (IsProgramFile directory) ↔ ¬ HasProgramDirectory directory tree := by
  obtain ⟨found, hvisits, hfound⟩ := finds_programPlaces hview htree
  constructor
  · rintro ⟨files, hfiles, hfound'⟩ ⟨names, entries, hholds, hprogram⟩
    have hmem : (pathTo directory names, FileTree.directory entries) ∈ found :=
      hvisits.mem_iff.mpr ⟨names, rfl, hholds, hprogram⟩
    -- the outcome tells what was found, so both conditions find the same
    have heq : files = found := by
      rw [hfound] at hfound'
      cases found with
      | nil => simp at hmem
      | cons place found =>
          cases files with
          | nil => simp at hfound'
          | cons file files => simpa using hfound'.symm
    rw [← heq] at hmem
    obtain ⟨_, _, _, _, content, hfile⟩ := hfiles.mem_iff.mp hmem
    cases hfile
  · intro hnone
    refine ⟨found, hvisits.congr fun names entry => and_congr_right fun hholds => ?_, hfound⟩
    refine ⟨fun hprogram => ⟨hprogram, ?_⟩, fun hfile => hfile.1⟩
    cases entry with
    | file content => exact ⟨content, rfl⟩
    | directory entries => exact absurd ⟨names, entries, hholds, hprogram⟩ hnone

end Finds

/-! ## Loading them -/

/-- A file can be loaded as a text if its bytes are one, and a directory cannot. -/
theorem text_ok_iff {tree : FileTree} :
    (∃ text, tree.text = .ok text) ↔ ∃ content, tree = .file content ∧ content.IsValidUTF8 := by
  cases tree with
  | directory entries => simp [FileTree.text]
  | file content =>
      rw [FileTree.text, String.fromUTF8?]
      by_cases h : content.IsValidUTF8
      · simp [h]
      · simp [h]

section Load

variable {view : View} {directory : String} {tree : FileTree}

/-- A command given only a directory loads what was found there. -/
theorem load_directory {found : List (String × FileTree)}
    (h : programsUnder view directory = .ok found) (hne : found ≠ [])
    (hreach : ∀ place ∈ found, isTooLong place.1 = false) :
    Sources.load view ⟨[], some directory⟩
      = found.mapM fun place => place.2.text.mapError (.unreadable place.1) := by
  have hfound : found.map (fun place => (place.1, reach place.1 place.2))
      = found.map fun place => (place.1, .ok place.2) := by
    refine List.map_congr_left fun place hplace => ?_
    rw [reach, hreach place hplace]
    rfl
  unfold Sources.load
  simp only [h, bind, Except.bind, List.map_nil, List.nil_append, hfound]
  cases found with
  | nil => exact absurd rfl hne
  | cons place found =>
      have htexts := List.mapM_map (l := place :: found)
        (f := fun place : String × FileTree => (place.1, Except.ok (ε := SystemError) place.2))
        (g := fun source => (source.2.bind FileTree.text).mapError
          (CommandError.unreadable source.1))
      exact htexts

/-- If all programs are texts, loading fails exactly if one of them is no file. -/
theorem load_directory_ok_iff (hview : view directory = .ok tree) (htree : tree.Listable directory)
    (hsome : ∃ names entry, tree.Holds names entry ∧ IsProgramFile directory names entry)
    (htexts : ∀ names content, tree.Holds names (.file content) → IsProgramPlace directory names →
      content.IsValidUTF8) :
    (∃ texts, Sources.load view ⟨[], some directory⟩ = .ok texts)
      ↔ ¬ HasProgramDirectory directory tree := by
  obtain ⟨found, hvisits, hfound⟩ := finds_programPlaces hview htree
  obtain ⟨names, entry, hholds, hprogram, _⟩ := hsome
  have hne : found ≠ [] := List.ne_nil_of_mem (hvisits.mem_iff.mpr ⟨names, rfl, hholds, hprogram⟩)
  rw [if_neg (by simpa using hne)] at hfound
  have hreach : ∀ place ∈ found, isTooLong place.1 = false := by
    rintro ⟨path, entry⟩ hplace
    obtain ⟨names, rfl, hholds, _⟩ := hvisits.mem_iff.mp hplace
    exact htree.reachable hholds
  rw [load_directory hfound hne hreach, mapM_ok_iff]
  simp only [Except.mapError_eq_ok, text_ok_iff]
  constructor
  · rintro hfiles ⟨names, entries, hholds, hprogram⟩
    obtain ⟨content, hfile, _⟩ :=
      hfiles (_, .directory entries) (hvisits.mem_iff.mpr ⟨names, rfl, hholds, hprogram⟩)
    cases hfile
  · rintro hnone ⟨path, entry⟩ hplace
    obtain ⟨names, rfl, hholds, hprogram⟩ := hvisits.mem_iff.mp hplace
    cases entry with
    | file content => exact ⟨content, rfl, htexts names content hholds hprogram⟩
    | directory entries => exact absurd ⟨names, entries, hholds, hprogram⟩ hnone

end Load

/-- Once its program is loaded, a command fails only in the library. -/
theorem Command.call_of_load_ok {config : SolverConfig} {view : View} {command : Command}
    {texts : List String} (h : command.sources.load view = .ok texts) {cause : CommandError}
    (hcall : command.call config view = .error cause) : ∃ error, cause = .library error := by
  cases command with
  | solve sources solver timeout models options json =>
      rw [Command.sources] at h
      simp only [Command.call, h, bind, Except.bind] at hcall
      split at hcall
      · rename_i e heq
        obtain ⟨error, _, he⟩ := Except.mapError_eq_error.mp heq
        injection hcall with hcall
        exact ⟨_, hcall ▸ he.symm⟩
      · cases hcall
  | check sources solver =>
      rw [Command.sources] at h
      simp only [Command.call, h, bind, Except.bind] at hcall
      cases hcall
  | ground sources solver predicate json =>
      rw [Command.sources] at h
      simp only [Command.call, h, bind, Except.bind] at hcall
      cases hcall

/-- A command whose program cannot be loaded fails with that. -/
theorem Command.call_of_load_error {config : SolverConfig} {view : View} {command : Command}
    {cause : CommandError} (h : command.sources.load view = .error cause) :
    command.call config view = .error cause := by
  cases command <;>
    · rw [Command.sources] at h
      simp only [Command.call, h, bind, Except.bind]

theorem programsUnder_ne_library {view : View} {directory : String} {error : Error} :
    programsUnder view directory ≠ .error (.library error) := by
  intro h
  rw [programsUnder] at h
  cases hview : view directory with
  | error cause =>
      rw [hview] at h
      cases h
  | ok tree =>
      simp only [hview, Except.mapError, bind, Except.bind] at h
      split at h <;> cases h

/-- Loading does not fail in the library. -/
theorem load_ne_library {view : View} {sources : Sources} {error : Error} :
    sources.load view ≠ .error (.library error) := by
  obtain ⟨files, directory?⟩ := sources
  -- a source that cannot be read has an error of its own
  have hmapM : ∀ programs : List (String × Except SystemError FileTree),
      (programs.mapM fun source => (source.2.bind FileTree.text).mapError
        (CommandError.unreadable source.1)) ≠ .error (.library error) := by
    intro programs h
    obtain ⟨_, _, _, _, _, hread⟩ := mapM_eq_error_iff.mp h
    obtain ⟨_, _, hcause⟩ := Except.mapError_eq_error.mp hread
    cases hcause
  intro h
  unfold Sources.load at h
  cases directory? with
  | none =>
      simp only [bind, Except.bind, pure, Except.pure] at h
      split at h
      · cases h
      · exact hmapM _ h
  | some directory =>
      cases hfound : programsUnder view directory with
      | error cause =>
          simp only [hfound, bind, Except.bind] at h
          injection h with h
          exact programsUnder_ne_library (h ▸ hfound)
      | ok found =>
          simp only [hfound, bind, Except.bind] at h
          split at h
          · cases h
          · exact hmapM _ h

/--
**The programs under a directory are the places that are named like one.**

In a tree in which everything can be listed and read, what is found is everything with
the name of a program, at any depth and the start included, each once, a directory before
its entries and the entries by name; finding nothing is an error. It is exactly the files
of such a name if and only if no directory has one. If there are such files, and all are
texts, the same condition decides whether a command given only the directory passes loading.
-/
theorem finds_programs {view : View} {directory : String} {tree : FileTree}
    (hview : view directory = .ok tree) (htree : tree.Listable directory) :
    Finds view directory tree (fun names _ => IsProgramPlace directory names)
      ∧ (Finds view directory tree (IsProgramFile directory)
          ↔ ¬ HasProgramDirectory directory tree)
      ∧ ((∃ names entry, tree.Holds names entry ∧ IsProgramFile directory names entry) →
        (∀ names content, tree.Holds names (.file content) → IsProgramPlace directory names →
          content.IsValidUTF8) →
        ∀ (config : SolverConfig) (command : Command), command.sources = ⟨[], some directory⟩ →
          ((∀ cause, command.call config view = .error cause → ∃ error, cause = .library error)
            ↔ ¬ HasProgramDirectory directory tree)) := by
  refine ⟨finds_programPlaces hview htree, finds_programFiles_iff hview htree, ?_⟩
  intro hsome htexts config command hsources
  rw [← load_directory_ok_iff hview htree hsome htexts, ← hsources]
  constructor
  · intro hcall
    cases hload : command.sources.load view with
    | ok texts => exact ⟨texts, rfl⟩
    | error cause =>
        obtain ⟨error, rfl⟩ := hcall cause (Command.call_of_load_error hload)
        exact absurd hload load_ne_library
  · rintro ⟨texts, hload⟩ cause hcall
    exact Command.call_of_load_ok hload hcall

/-! ## A directory that is named like a program -/

/-- What is kept of an old program, under the name that the program had. -/
def oldProgram : FileTree := .directory [("base.lp", .file "a.\n".toUTF8)]

/-- The programs of a project. -/
def projectPrograms : FileTree := .directory [("old.lp", oldProgram)]

/-- The view from the directory of the project. -/
def projectView : View := FileTree.find (.directory [("programs", projectPrograms)])

theorem projectView_programs : projectView "programs" = .ok projectPrograms := by
  rfl

theorem holds_projectPrograms {names : List String} {entry : FileTree} :
    projectPrograms.Holds names entry ↔
      names = [] ∧ entry = projectPrograms ∨ names = ["old.lp"] ∧ entry = oldProgram
        ∨ names = ["old.lp", "base.lp"] ∧ entry = .file "a.\n".toUTF8 := by
  rw [projectPrograms, FileTree.holds_directory]
  constructor
  · rintro (h | ⟨name, inner, rest, rfl, hmem, hholds⟩)
    · exact .inl h
    · obtain ⟨rfl, rfl⟩ := Prod.mk.inj (List.mem_singleton.mp hmem)
      rw [oldProgram, FileTree.holds_directory] at hholds
      rcases hholds with ⟨rfl, rfl⟩ | ⟨name, inner, rest, rfl, hmem, hholds⟩
      · exact .inr (.inl ⟨rfl, rfl⟩)
      · obtain ⟨rfl, rfl⟩ := Prod.mk.inj (List.mem_singleton.mp hmem)
        obtain ⟨rfl, rfl⟩ := FileTree.holds_file.mp hholds
        exact .inr (.inr ⟨rfl, rfl⟩)
  · rintro (h | ⟨rfl, rfl⟩ | ⟨rfl, rfl⟩)
    · exact .inl h
    · exact .inr ⟨_, _, _, rfl, List.mem_singleton_self _, .here _⟩
    · exact .inr ⟨_, _, _, rfl, List.mem_singleton_self _,
        .inside (List.mem_singleton_self _) (.here _)⟩

theorem isEntryName_old : IsEntryName "old.lp" := ⟨by decide, by decide, by decide, by decide⟩

theorem isEntryName_base : IsEntryName "base.lp" := ⟨by decide, by decide, by decide, by decide⟩

theorem listable_projectPrograms : projectPrograms.Listable "programs" where
  named hholds name hname := by
    rcases holds_projectPrograms.mp hholds with ⟨_, h⟩ | ⟨_, h⟩ | ⟨_, h⟩
    · cases h
      rw [List.mem_singleton.mp hname]
      exact isEntryName_old
    · cases h
      rw [List.mem_singleton.mp hname]
      exact isEntryName_base
    · cases h
  distinct hholds := by
    rcases holds_projectPrograms.mp hholds with ⟨_, h⟩ | ⟨_, h⟩ | ⟨_, h⟩
    · cases h
      exact List.nodup_singleton _
    · cases h
      exact List.nodup_singleton _
    · cases h
  reachable hholds := by
    rcases holds_projectPrograms.mp hholds with ⟨rfl, _⟩ | ⟨rfl, _⟩ | ⟨rfl, _⟩
    · decide
    · decide
    · decide

theorem isProgramPlace_old : IsProgramPlace "programs" ["old.lp"] :=
  ⟨"old.lp", rfl, "old", by decide, by decide⟩

theorem isProgramPlace_base : IsProgramPlace "programs" ["old.lp", "base.lp"] :=
  ⟨"base.lp", rfl, "base", by decide, by decide⟩

theorem hasProgramDirectory_projectPrograms : HasProgramDirectory "programs" projectPrograms :=
  ⟨["old.lp"], _, holds_projectPrograms.mpr (.inr (.inl ⟨rfl, rfl⟩)), isProgramPlace_old⟩

theorem isProgramFile_base : ∃ names entry, projectPrograms.Holds names entry
    ∧ IsProgramFile "programs" names entry :=
  ⟨_, _, holds_projectPrograms.mpr (.inr (.inr ⟨rfl, rfl⟩)), isProgramPlace_base, _, rfl⟩

theorem texts_projectPrograms (names : List String) (content : ByteArray)
    (h : projectPrograms.Holds names (.file content)) : content.IsValidUTF8 := by
  rcases holds_projectPrograms.mp h with ⟨_, h⟩ | ⟨_, h⟩ | ⟨_, h⟩
  · cases h
  · cases h
  · cases h
    exact "a.\n".isValidUTF8

/-- The programs of the project are found, and no command passes loading. -/
theorem finds_programs_project : projectPrograms.Listable "programs"
    ∧ Finds projectView "programs" projectPrograms (fun names _ => IsProgramPlace "programs" names)
    ∧ ∀ (config : SolverConfig) (command : Command), command.sources = ⟨[], some "programs"⟩ →
      ((∀ cause, command.call config projectView = .error cause → ∃ error, cause = .library error)
        ↔ ¬ HasProgramDirectory "programs" projectPrograms) :=
  have h := finds_programs projectView_programs listable_projectPrograms
  ⟨listable_projectPrograms, h.1, h.2.2 isProgramFile_base
    fun names content hholds _ => texts_projectPrograms names content hholds⟩

theorem listing_projectPrograms : projectPrograms.listing "programs"
    = [("programs", projectPrograms), ("programs/old.lp", oldProgram),
      ("programs/old.lp/base.lp", .file "a.\n".toUTF8)] := by
  have hold : entryPath "programs" "old.lp" = "programs/old.lp" := by decide
  have hbase : entryPath "programs/old.lp" "base.lp" = "programs/old.lp/base.lp" := by decide
  simp only [projectPrograms, oldProgram, listing_directory, sortedEntries,
    List.mergeSort_singleton, List.flatMap_cons, List.flatMap_nil, listing_file, hold, hbase,
    List.append_nil]

theorem programsUnder_project : programsUnder projectView "programs" = .ok
    [("programs/old.lp", oldProgram), ("programs/old.lp/base.lp", .file "a.\n".toUTF8)] := by
  have hstart : isProgramPath "programs" = false := by decide
  have hold : isProgramPath "programs/old.lp" = true := by decide
  have hbase : isProgramPath "programs/old.lp/base.lp" = true := by decide
  simp [programsUnder, projectView_programs, Except.mapError, bind, Except.bind,
    programs_eq listable_projectPrograms, listing_projectPrograms, hstart, hold, hbase, pure,
    Except.pure]

/-- A directory with the name of a program is found as one, and checking the only program fails. -/
theorem not_finds_programFiles_project : projectView "programs" = .ok projectPrograms
    ∧ projectPrograms.Listable "programs"
    ∧ (∃ names entry, projectPrograms.Holds names entry ∧ IsProgramFile "programs" names entry)
    ∧ ¬ Finds projectView "programs" projectPrograms (IsProgramFile "programs")
    ∧ ∀ config, (Command.check ⟨[], some "programs"⟩ none).call config projectView
      = .error (.unreadable "programs/old.lp" .isDirectory) := by
  have hview := projectView_programs
  have htree := listable_projectPrograms
  refine ⟨hview, htree, isProgramFile_base, ?_, ?_⟩
  · intro hfiles
    exact (finds_programFiles_iff hview htree).mp hfiles hasProgramDirectory_projectPrograms
  · intro config
    have hreach : ∀ place ∈ [("programs/old.lp", oldProgram),
        ("programs/old.lp/base.lp", FileTree.file "a.\n".toUTF8)],
        isTooLong place.1 = false := by
      intro place hplace
      rcases List.mem_cons.mp hplace with rfl | hplace
      · decide
      · rw [List.mem_singleton.mp hplace]
        decide
    apply Command.call_of_load_error
    rw [Command.sources, load_directory programsUnder_project (by simp) hreach]
    simp [oldProgram, FileTree.text, Except.mapError, bind, Except.bind]

end AnswerSet.CommandLine
