import AnswerSet.Bindings
import AnswerSet.Proofs.Construction
import Mathlib.Data.List.Dedup

/-!
# Atoms that are remembered

Bindings are filled by calls that remember an atom under a tag. An entry is kept
under a key, the predicate of the atom's schema and the tag, where the empty tag
stands for the default one. What a key holds is the last atom that was remembered
under it (`Bindings.get?_ofHistory`), and no key is kept twice
(`Bindings.nodup_keys_ofHistory`).

So the atoms are told apart as far as their keys are. **A key is less than a
schema and a tag.** Schemas of one predicate share their keys, and the name of
the default entry is a tag like any other. `Bindings.isolates_iff` says that every
schema and tag has an entry of its own exactly if neither happens among those in
use.
-/

namespace AnswerSet

/-! ## Keys -/

/-- Do the tags name the same entry of a predicate? -/
def SameEntry (s t : String) : Prop :=
  s = t ∨ (s = "" ∧ t = defaultTag) ∨ (s = defaultTag ∧ t = "")

theorem entryTag_empty : entryTag "" = defaultTag := rfl

theorem entryTag_of_ne {tag : String} (h : tag ≠ "") : entryTag tag = tag := by
  rw [entryTag, if_neg (by simpa using h)]

theorem entryTag_eq_iff {s t : String} : entryTag s = entryTag t ↔ SameEntry s t := by
  unfold SameEntry
  by_cases hs : s = ""
  · by_cases ht : t = ""
    · simp [hs, ht]
    · rw [hs, entryTag_empty, entryTag_of_ne ht]
      simp [ht, Ne.symm ht, eq_comm]
  · by_cases ht : t = ""
    · rw [ht, entryTag_empty, entryTag_of_ne hs]
      simp [hs]
    · rw [entryTag_of_ne hs, entryTag_of_ne ht]
      simp [hs, ht]

/-- A call that remembers an atom under a tag. -/
structure Remembering where
  tag : String
  atom : Atom

namespace Remembering

/-- The schema and the tag of the call. -/
def place (call : Remembering) : Schema × String := (call.atom.schema, call.tag)

/-- The key under which a schema is looked up by a tag. -/
def keyOf (place : Schema × String) : BindingKey := ⟨place.1.predicate, entryTag place.2⟩

end Remembering

open Remembering

/-- The last atom that was remembered by a call with the property. -/
def lastAtom? (history : List Remembering) (p : Remembering → Bool) : Option Atom :=
  ((history.filter p).getLast?).map (·.atom)

section LastAtom

variable {history : List Remembering} {p : Remembering → Bool} {call : Remembering}

theorem lastAtom?_append_pos (h : p call = true) :
    lastAtom? (history ++ [call]) p = some call.atom := by
  simp [lastAtom?, List.filter_append, h]

theorem lastAtom?_append_neg (h : p call = false) :
    lastAtom? (history ++ [call]) p = lastAtom? history p := by
  simp [lastAtom?, List.filter_append, h]

theorem exists_of_lastAtom?_eq_some {atom : Atom} (h : lastAtom? history p = some atom) :
    ∃ call ∈ history, p call = true ∧ call.atom = atom := by
  obtain ⟨call, hlast, rfl⟩ := Option.map_eq_some_iff.mp h
  obtain ⟨hm, hp⟩ := List.mem_filter.mp (List.mem_of_getLast? hlast)
  exact ⟨call, hm, hp, rfl⟩

end LastAtom

/-! ## One call -/

namespace Bindings

/-- The atom under a key. -/
def get? (bindings : Bindings) (key : BindingKey) : Option Atom :=
  (bindings.entries.find? (·.1 = key)).map (·.2)

/-- The keys that are in use. -/
def keys (bindings : Bindings) : List BindingKey := bindings.entries.map (·.1)

theorem lookup_eq (bindings : Bindings) (schema : Schema) (tag : String) :
    bindings.lookup schema tag =
      match bindings.get? (keyOf (schema, tag)) with
      | some atom => .ok atom
      | none => .error (.notRemembered schema.predicate (entryTag tag)) := by
  unfold lookup get? keyOf
  dsimp only
  cases bindings.entries.find? (·.1 = ⟨schema.predicate, entryTag tag⟩) with
  | none => rfl
  | some entry => rfl

theorem find?_insert (key k : BindingKey) (atom : Atom) (entries : List (BindingKey × Atom)) :
    (insert key atom entries).find? (·.1 = k)
      = if key = k then some (key, atom) else entries.find? (·.1 = k) := by
  induction entries with
  | nil =>
      by_cases h : key = k
      · simp [insert, h]
      · simp [insert, h]
  | cons entry entries ih =>
      rw [insert]
      by_cases he : entry.1 = key
      · -- the entry of the key is replaced where it stands
        rw [if_pos he]
        by_cases h : key = k
        · simp [h]
        · have hne : entry.1 ≠ k := fun hk => h (he.symm.trans hk)
          simp [h, hne]
      · rw [if_neg he]
        by_cases hk : entry.1 = k
        · have hne : key ≠ k := fun h => he (hk.trans h.symm)
          simp [hk, hne]
        · rw [List.find?_cons_of_neg (by simpa using hk), ih,
            List.find?_cons_of_neg (by simpa using hk)]

theorem mem_map_insert {key k : BindingKey} {atom : Atom} {entries : List (BindingKey × Atom)} :
    k ∈ (insert key atom entries).map (·.1) ↔ k = key ∨ k ∈ entries.map (·.1) := by
  induction entries with
  | nil => simp [insert]
  | cons entry entries ih =>
      rw [insert]
      split
      · rename_i he
        simp [he]
      · rw [List.map_cons, List.mem_cons, ih, List.map_cons, List.mem_cons]
        exact or_left_comm

theorem nodup_map_insert {key : BindingKey} {atom : Atom} {entries : List (BindingKey × Atom)}
    (h : (entries.map (·.1)).Nodup) : ((insert key atom entries).map (·.1)).Nodup := by
  induction entries with
  | nil => simp [insert]
  | cons entry entries ih =>
      obtain ⟨hnotin, hrest⟩ := List.nodup_cons.mp h
      rw [insert]
      split
      · rename_i he
        rw [List.map_cons, ← he]
        exact List.nodup_cons.mpr ⟨hnotin, hrest⟩
      · rename_i he
        refine List.nodup_cons.mpr ⟨fun hm => ?_, ih hrest⟩
        exact (mem_map_insert.mp hm).elim he hnotin

/-- **Remembering changes what is under its key and nothing else.** -/
theorem get?_remember (bindings : Bindings) (call : Remembering) (key : BindingKey) :
    (bindings.remember call.tag call.atom).get? key
      = if keyOf call.place = key then some call.atom else bindings.get? key := by
  unfold get? remember
  rw [find?_insert]
  change Option.map _ (if keyOf call.place = key then _ else _) = _
  split
  · rfl
  · rfl

/-! ## A history of calls -/

/-- The bindings after the calls in order. -/
def ofHistory (history : List Remembering) : Bindings :=
  history.foldl (fun bindings call => bindings.remember call.tag call.atom) empty

theorem ofHistory_append (history : List Remembering) (call : Remembering) :
    ofHistory (history ++ [call]) = (ofHistory history).remember call.tag call.atom := by
  rw [ofHistory, List.foldl_append]
  rfl

/-- **A key holds the last atom that was remembered under it.** -/
theorem get?_ofHistory (history : List Remembering) (key : BindingKey) :
    (ofHistory history).get? key = lastAtom? history fun call => keyOf call.place = key := by
  induction history using List.reverseRecOn with
  | nil => rfl
  | append_singleton history call ih =>
      rw [ofHistory_append, get?_remember]
      by_cases h : keyOf call.place = key
      · rw [if_pos h, lastAtom?_append_pos (decide_eq_true h)]
      · rw [if_neg h, lastAtom?_append_neg (decide_eq_false h), ih]

theorem mem_keys_ofHistory {history : List Remembering} {key : BindingKey} :
    key ∈ (ofHistory history).keys ↔ key ∈ history.map fun call => keyOf call.place := by
  induction history using List.reverseRecOn with
  | nil => exact Iff.rfl
  | append_singleton history call ih =>
      rw [ofHistory_append, List.map_append, List.mem_append, ← ih]
      exact mem_map_insert.trans (by simp [keyOf, place, Atom.predicate, or_comm, keys])

/-- No key is kept twice. -/
theorem nodup_keys_ofHistory (history : List Remembering) : (ofHistory history).keys.Nodup := by
  induction history using List.reverseRecOn with
  | nil => exact List.nodup_nil
  | append_singleton history call ih =>
      rw [ofHistory_append]
      exact nodup_map_insert ih

/-- **There are as many entries as keys.** -/
theorem size_ofHistory (history : List Remembering) :
    (ofHistory history).size = (history.map fun call => keyOf call.place).dedup.length := by
  have hperm : (ofHistory history).keys.Perm (history.map fun call => keyOf call.place).dedup := by
    refine (List.perm_ext_iff_of_nodup (nodup_keys_ofHistory history) (List.nodup_dedup _)).mpr ?_
    intro key
    rw [mem_keys_ofHistory, List.mem_dedup]
  rw [← hperm.length_eq, keys, List.length_map, size]

/-! ## Isolation -/

/-- Every schema and tag in use has an entry of its own: it holds the last atom of the schema
that was remembered under the tag, and there are as many entries as schemas and tags were used. -/
def Isolates (used : Schema → String → Prop) : Prop :=
  ∀ history : List Remembering, (∀ call ∈ history, used call.atom.schema call.tag) →
    (∀ schema tag, used schema tag → ∀ atom, (ofHistory history).lookup schema tag = .ok atom
      ↔ lastAtom? history (fun call => call.place = (schema, tag)) = some atom)
    ∧ (ofHistory history).size = (history.map place).dedup.length

/-- Schemas and tags in use that share a key are the same. -/
def KeysApart (used : Schema → String → Prop) : Prop :=
  ∀ a s b t, used a s → used b t → a.predicate = b.predicate → SameEntry s t → a = b ∧ s = t

section Apart

variable {used : Schema → String → Prop} {history : List Remembering}

theorem KeysApart.keyOf_eq_iff (h : KeysApart used) {p q : Schema × String} (hp : used p.1 p.2)
    (hq : used q.1 q.2) : keyOf p = keyOf q ↔ p = q := by
  constructor
  · intro he
    injection he with hpredicate htag
    obtain ⟨hs, ht⟩ := h p.1 p.2 q.1 q.2 hp hq hpredicate (entryTag_eq_iff.mp htag)
    exact Prod.ext hs ht
  · rintro rfl
    rfl

theorem lookup_eq_ok_iff {bindings : Bindings} {schema : Schema} {tag : String} {atom : Atom} :
    bindings.lookup schema tag = .ok atom ↔ bindings.get? (keyOf (schema, tag)) = some atom := by
  rw [lookup_eq]
  cases bindings.get? (keyOf (schema, tag)) with
  | none => simp
  | some found => simp

theorem KeysApart.lastAtom?_eq (h : KeysApart used)
    (hu : ∀ call ∈ history, used call.atom.schema call.tag) {place : Schema × String}
    (hp : used place.1 place.2) :
    lastAtom? history (fun call => keyOf call.place = keyOf place)
      = lastAtom? history fun call => call.place = place := by
  unfold lastAtom?
  congr 2
  refine List.filter_congr fun call hm => ?_
  exact decide_eq_decide.mpr (h.keyOf_eq_iff (hu call hm) hp)

/-- The keys are as many as the schemas and tags that they stand for. -/
theorem KeysApart.length_dedup_eq (h : KeysApart used)
    (hu : ∀ call ∈ history, used call.atom.schema call.tag) :
    (history.map fun call => keyOf call.place).dedup.length
      = (history.map place).dedup.length := by
  have hused : ∀ p ∈ (history.map place).dedup, used p.1 p.2 := by
    intro p hp
    obtain ⟨call, hm, rfl⟩ := List.mem_map.mp (List.mem_dedup.mp hp)
    exact hu call hm
  have hnodup : ((history.map place).dedup.map keyOf).Nodup :=
    List.Nodup.map_on
      (fun p hp q hq he => (h.keyOf_eq_iff (hused p hp) (hused q hq)).mp he) (List.nodup_dedup _)
  have hperm : (history.map fun call => keyOf call.place).dedup.Perm
      ((history.map place).dedup.map keyOf) := by
    refine (List.perm_ext_iff_of_nodup (List.nodup_dedup _) hnodup).mpr fun key => ?_
    simp
  rw [hperm.length_eq, List.length_map]

end Apart

/--
**Remembered atoms are isolated as far as their keys are.** After any calls, a
schema and a tag find the last atom that was remembered under their predicate and
entry, unchanged, and nothing if there is none; there are as many entries as
predicates and entries were used. So each schema and tag in use has an entry of
its own exactly if no two schemas in use share their predicate and the default
entry is not named in two ways.
-/
theorem isolates_iff (used : Schema → String → Prop) :
    (∀ (history : List Remembering) (schema : Schema) (tag : String),
      (ofHistory history).lookup schema tag =
        match lastAtom? history fun call => keyOf call.place = keyOf (schema, tag) with
        | some atom => .ok atom
        | none => .error (.notRemembered schema.predicate (entryTag tag)))
    ∧ (∀ history : List Remembering,
      (ofHistory history).size = (history.map fun call => keyOf call.place).dedup.length)
    ∧ (Isolates used ↔ KeysApart used) := by
  refine ⟨fun history schema tag => ?_, size_ofHistory, fun h a s b t ha hb hp ht => ?_,
    fun h history hu => ⟨fun schema tag hplace atom => ?_, ?_⟩⟩
  · rw [lookup_eq, get?_ofHistory]
  · -- an atom of the one schema is found by the other
    have hschema : (a.any.run 0).1.schema = a := by
      cases a with
      | mk predicate fields => rw [run_any]
    let call : Remembering := ⟨s, (a.any.run 0).1⟩
    have hcall : call.place = (a, s) := Prod.ext hschema rfl
    have hkey : keyOf call.place = keyOf (b, t) := by
      rw [hcall, keyOf, keyOf, entryTag_eq_iff.mpr ht, hp]
    have hfound : (ofHistory [call]).lookup b t = .ok call.atom := by
      rw [lookup_eq_ok_iff, get?_ofHistory]
      rw [← List.nil_append [call]]
      exact lastAtom?_append_pos (decide_eq_true hkey)
    have hused : ∀ c ∈ [call], used c.atom.schema c.tag := by
      intro c hm
      rw [List.mem_singleton.mp hm, hschema]
      exact ha
    have hlast := (((h [call] hused).1 b t hb) call.atom).mp hfound
    obtain ⟨c, hm, hc, -⟩ := exists_of_lastAtom?_eq_some hlast
    rw [List.mem_singleton.mp hm, decide_eq_true_eq, hcall] at hc
    exact Prod.ext_iff.mp hc
  · rw [lookup_eq_ok_iff, get?_ofHistory, h.lastAtom?_eq hu hplace]
  · rw [size_ofHistory, h.length_dedup_eq hu]

/-- A plain node. -/
def plainNode : Atom := ⟨nodeSchema, [.term (.int 1)]⟩

/-- A person and a node under one tag, another node under the default one. -/
def tagged : List Remembering :=
  [⟨"first", plainNode⟩, ⟨"first", ticketOwner⟩, ⟨"", ⟨nodeSchema, [.term (.int 2)]⟩⟩]

/-- Nodes and persons do not get in each other's way, nor do the tags. -/
theorem isolates_tagged :
    (∀ call ∈ tagged, call.atom.schema ∈ [nodeSchema, personSchema] ∧ call.tag ≠ defaultTag)
      ∧ Isolates (fun schema tag => schema ∈ [nodeSchema, personSchema] ∧ tag ≠ defaultTag)
      ∧ (ofHistory tagged).lookup nodeSchema "first" = .ok plainNode
      ∧ (ofHistory tagged).size = 3 := by
  refine ⟨by decide, (isolates_iff _).2.2.mpr ?_, rfl, rfl⟩
  rintro a s b t ⟨ha, hs⟩ ⟨hb, ht⟩ hp hst
  have hdistinct : ∀ a ∈ [nodeSchema, personSchema], ∀ b ∈ [nodeSchema, personSchema],
      a.predicate = b.predicate → a = b := by decide
  refine ⟨hdistinct a ha b hb hp, ?_⟩
  rcases hst with he | ⟨-, he⟩ | ⟨he, -⟩
  · exact he
  · exact absurd he ht
  · exact absurd he hs

/--
A node of the grid is found by the schema of plain nodes, of which none was
remembered, and takes the place of one that was. What has the default tag's name
is found without a tag.
-/
theorem not_isolates_gridNode :
    nodeSchema.Built ∧ gridNodeSchema.Built
      ∧ (ofHistory [⟨"first", gridNode⟩]).lookup nodeSchema "first" = .ok gridNode
      ∧ (ofHistory [⟨"first", plainNode⟩, ⟨"first", gridNode⟩]).lookup nodeSchema "first"
        = .ok gridNode
      ∧ (ofHistory [⟨"first", plainNode⟩, ⟨"first", gridNode⟩]).size = 1
      ∧ (ofHistory [⟨defaultTag, plainNode⟩]).lookup nodeSchema "" = .ok plainNode
      ∧ ¬ Isolates fun schema _ => schema.Built := by
  have hnode : nodeSchema.Built := by decide
  have hgrid : gridNodeSchema.Built := by decide
  refine ⟨hnode, hgrid, rfl, rfl, rfl, rfl, fun h => ?_⟩
  have hused : ∀ call ∈ [(⟨"first", gridNode⟩ : Remembering)], call.atom.schema.Built := by
    intro call hm
    rw [List.mem_singleton.mp hm]
    exact hgrid
  have hfound := (h [⟨"first", gridNode⟩] hused).1 nodeSchema "first" hnode gridNode
  have hnone : lastAtom? [⟨"first", gridNode⟩] (fun call => call.place = (nodeSchema, "first"))
      = none := by rfl
  rw [hnone] at hfound
  exact absurd (hfound.mp rfl) (by simp)

end Bindings

end AnswerSet
