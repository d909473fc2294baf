import AnswerSet.Proofs.JsonText
import Mathlib.Data.List.Chain

/-!
# Reading the text of a document

A document is read from each of its texts (`read?_of_isTextOf`).

The machine that cuts a text into tokens finds the tokens it was written from
(`read?_lexemes`). Words and numbers end only where a character comes that cannot
belong to them, so two of them must not stand side by side. In a document they
never do: between any two values stands a token that is a single character
(`apart_tokens`).

The machine that reads the tokens comes from waiting for a value to standing behind
it, whatever is still open around it (`reads_tokens`).
-/

namespace AnswerSet.Json

/-! ## The tokens of a text -/

namespace Lexer

/-- The tokens that the machine finds in the rest of a text. -/
def read? : Lexer → List Char → Option (List Token)
  | lexer, [] => lexer.finish
  | lexer, c :: cs =>
    (lexer.step c).bind fun (tokens, next) => (next.read? cs).map (tokens ++ ·)

theorem foldlM_advance (tokens : List Token) (lexer : Lexer) (cs : List Char) :
    (do
      let (read, last) ← cs.foldlM advance (tokens, lexer)
      return read.reverse ++ (← last.finish)) =
      (lexer.read? cs).map (tokens.reverse ++ ·) := by
  induction cs generalizing tokens lexer with
  | nil => cases h : lexer.finish <;> simp [read?, h]
  | cons c cs ih =>
      rw [List.foldlM_cons]
      cases h : lexer.step c with
      | none => simp [advance, read?, h]
      | some next =>
          simp only [advance, read?, h, Option.bind_eq_bind, Option.bind_some,
            Option.pure_def] at ih ⊢
          rw [ih]
          simp [Function.comp_def]

/-- The machine starts between tokens. -/
theorem tokens?_eq_read? (cs : List Char) : tokens? cs = between.read? cs := by
  refine (foldlM_advance [] between cs).trans ?_
  simp

/-- A step that finishes no token. -/
theorem read?_of_step {lexer next : Lexer} {c : Char} (h : lexer.step c = some ([], next))
    (cs : List Char) : lexer.read? (c :: cs) = next.read? cs := by
  simp [read?, h]

theorem read?_gap {gap : List Char} (hg : Gap gap) (cs : List Char) :
    between.read? (gap ++ cs) = between.read? cs := by
  induction gap with
  | nil => rfl
  | cons c gap ih =>
      obtain ⟨hc, hg⟩ := List.forall_mem_cons.mp hg
      have blank : between.step c = some ([], between) := by
        simp only [List.mem_cons, List.not_mem_nil, or_false] at hc
        rcases hc with rfl | rfl | rfl | rfl <;> rfl
      rw [List.cons_append, read?_of_step blank, ih hg]

/-! ### Words and numbers -/

/-- The text does not go on with a character of a word or a number. -/
def Ends (cs : List Char) : Prop :=
  ∀ c ∈ cs.head?, c.isLower = false ∧ isNumberChar c = false

/-- A token that is still open is closed by what follows, and the rest is read from there. -/
theorem read?_of_finish {lexer : Lexer} {token : Token} (hf : lexer.finish = some [token])
    (hs : ∀ c, c.isLower = false → isNumberChar c = false →
      lexer.step c = (start c).map fun (tokens, next) => (token :: tokens, next))
    {cs : List Char} (he : Ends cs) :
    lexer.read? cs = (between.read? cs).map (token :: ·) := by
  cases cs with
  | nil => exact hf
  | cons c cs =>
      obtain ⟨hl, hn⟩ := he c rfl
      have hstart : between.step c = start c := rfl
      rw [read?, read?, hs c hl hn, hstart]
      cases start c <;> simp [Function.comp_def]

theorem read?_word {word cs : List Char} {token : Token} (hw : wordToken? word.reverse = some token)
    (he : Ends cs) : (Lexer.word word).read? cs = (between.read? cs).map (token :: ·) := by
  refine read?_of_finish (by simp [finish, hw]) (fun c hl _ => ?_) he
  cases h : start c <;> simp [step, hl, hw, h]

theorem read?_number {number cs : List Char} {token : Token}
    (hn : numberToken? number.reverse = some token) (he : Ends cs) :
    (Lexer.number number).read? cs = (between.read? cs).map (token :: ·) := by
  refine read?_of_finish (by simp [finish, hn]) (fun c _ hc => ?_) he
  cases h : start c <;> simp [step, hc, hn, h]

/-- A token that stays open takes the characters that belong to it. -/
theorem read?_open {state : List Char → Lexer} {cs : List Char}
    (h : ∀ c ∈ cs, ∀ before, (state before).step c = some ([], state (c :: before)))
    (before rest : List Char) :
    (state before).read? (cs ++ rest) = (state (cs.reverse ++ before)).read? rest := by
  induction cs generalizing before with
  | nil => rfl
  | cons c cs ih =>
      obtain ⟨hc, h⟩ := List.forall_mem_cons.mp h
      rw [List.cons_append, read?_of_step (hc before), ih h, List.reverse_cons, List.append_assoc]
      rfl

theorem start_number {c : Char} (h : c.isDigit = true ∨ c = '-') :
    start c = some ([], number [c]) := by
  unfold start
  split <;> simp_all

/-- **A word is read up to its end.** -/
theorem read?_keyword {c : Char} {cs rest : List Char} {token : Token}
    (hs : between.step c = some ([], word [c])) (ht : wordToken? (c :: cs) = some token)
    (hl : ∀ d ∈ cs, d.isLower = true) (he : Ends rest) :
    between.read? (c :: cs ++ rest) = (between.read? rest).map (token :: ·) := by
  rw [List.cons_append, read?_of_step hs, read?_open fun d hd before => by simp [step, hl d hd]]
  exact read?_word (by simpa using ht) he

theorem head_of_numberToken? {c : Char} {cs : List Char} {token : Token}
    (h : numberToken? (c :: cs) = some token) : c.isDigit = true ∨ c = '-' := by
  by_contra hc
  rw [not_or, Bool.not_eq_true] at hc
  rw [numberToken?.eq_2 _ (fun _ heq => hc.2 (List.cons.inj heq).1)] at h
  simp [unsignedToken?, hc.1] at h

/-- **A number is read up to its end.** -/
theorem read?_numeral {cs rest : List Char} {token : Token} (ht : numberToken? cs = some token)
    (h : ∀ c ∈ cs, isNumberChar c = true) (he : Ends rest) :
    between.read? (cs ++ rest) = (between.read? rest).map (token :: ·) := by
  cases cs with
  | nil => exact absurd ht (by simp [numberToken?, unsignedToken?])
  | cons c cs =>
      have hstart : between.step c = some ([], number [c]) := start_number (head_of_numberToken? ht)
      rw [List.cons_append, read?_of_step hstart,
        read?_open fun d hd before => by simp [step, h d (List.mem_cons_of_mem _ hd)]]
      exact read?_number (by simpa using ht) he

/-! ### Strings -/

theorem step_hex {c : Char} {n : Nat} (h : HexDigit c n) (units : List Nat) (value left : Nat) :
    (hex units value (left + 2)).step c = some ([], hex units (value * 16 + n) (left + 1)) := by
  simp [step, hexDigit?_of_hexDigit h]

theorem step_hex_last {c : Char} {n : Nat} (h : HexDigit c n) (units : List Nat) (value : Nat) :
    (hex units value 1).step c = some ([], string ((value * 16 + n) :: units)) := by
  simp [step, hexDigit?_of_hexDigit h]

/-- **What stands between the quotes is read to its units.** -/
theorem read?_units {body : List Char} {ns : List Nat} (h : Units body ns) (before : List Nat)
    (rest : List Char) :
    (string before).read? (body ++ rest) = (string (ns.reverse ++ before)).read? rest := by
  induction h generalizing before with
  | nil => rfl
  | @plain c cs ns hc hq hb _ ih =>
      have hstep : (string before).step c = some ([], string (c.toNat :: before)) := by
        rw [step.eq_6 _ _ hq hb, if_neg (Nat.not_lt.mpr hc)]
      rw [List.cons_append, read?_of_step hstep, ih, List.reverse_cons, List.append_assoc]
      rfl
  | @escape c d cs ns hc _ ih =>
      have hbackslash : (string before).step '\\' = some ([], escape before) := rfl
      have hstep : (escape before).step c = some ([], string (d.toNat :: before)) := by
        have hu : c ≠ 'u' := by
          rintro rfl
          cases (simpleEscape?_of_mem hc).symm.trans (show simpleEscape? 'u' = none from rfl)
        rw [step.eq_8 _ _ hu, simpleEscape?_of_mem hc]
        rfl
      rw [List.cons_append, List.cons_append, read?_of_step hbackslash, read?_of_step hstep, ih,
        List.reverse_cons, List.append_assoc]
      rfl
  | @hex a b c d k l m n cs ns ha hb hc hd _ ih =>
      have hbackslash : (string before).step '\\' = some ([], escape before) := rfl
      have hu : (escape before).step 'u' = some ([], hex before 0 4) := rfl
      have value : (((0 * 16 + k) * 16 + l) * 16 + m) * 16 + n =
          k * 4096 + l * 256 + m * 16 + n := by omega
      simp only [List.cons_append]
      rw [read?_of_step hbackslash, read?_of_step hu, read?_of_step (step_hex ha before 0 2),
        read?_of_step (step_hex hb before _ 1), read?_of_step (step_hex hc before _ 0),
        read?_of_step (step_hex_last hd before _), ih, value, List.reverse_cons, List.append_assoc]
      rfl

/-- **A string is read to its text, if it has one.** -/
theorem read?_literal {body : List Char} {ns : List Nat} {text : Option String}
    (hb : Units body ns) (ht : HasText ns text) (rest : List Char) :
    between.read? ('"' :: (body ++ '"' :: rest)) =
      (between.read? rest).map (Token.string text :: ·) := by
  have hopen : between.step '"' = some ([], string []) := rfl
  have hclose : (string (ns.reverse ++ [])).step '"' = some ([.string text], between) := by
    rw [← decodeUnits_of_hasText ht]
    simp [step]
  rw [read?_of_step hopen, read?_units hb, read?, hclose]
  rfl

/-! ### Any token -/

/-- **A lexeme is read to its token.** -/
theorem read?_lexeme {cs rest : List Char} {token : Token} (h : Lexeme cs token)
    (he : token.isBare = true → Ends rest) :
    between.read? (cs ++ rest) = (between.read? rest).map (token :: ·) := by
  cases h with
  | openArray | closeArray | openObject | closeObject | comma | colon => rfl
  | null => exact read?_keyword rfl rfl (by simp) (he rfl)
  | true => exact read?_keyword rfl rfl (by simp) (he rfl)
  | false => exact read?_keyword rfl rfl (by simp) (he rfl)
  | integer n => exact read?_numeral (numberToken?_integer n) (isNumberChar_integer n) (he rfl)
  | minusZero =>
      have zero : numberToken? ['-', '0'] = some .nonInteger := rfl
      exact read?_numeral zero (by simp [isNumberChar]) (he rfl)
  | nonInteger hs hw hf hp hne =>
      exact read?_numeral (numberToken?_nonInteger hs hw hf hp hne)
        (isNumberChar_nonInteger hs hw hf hp) (he rfl)
  | string hb ht =>
      rw [List.cons_append, List.append_assoc]
      exact read?_literal hb ht rest

end Lexer

/-- Of two tokens side by side, one is a single character or a string. -/
def Apart (tokens : List Token) : Prop :=
  List.IsChain (fun left right => left.isBare = false ∨ right.isBare = false) tokens

/-- A single character or a quote ends the word or number before it, and so does a gap. -/
theorem ends_of_lexemes {cs : List Char} {tokens : List Token} (h : Lexemes cs tokens)
    (hb : ∀ token ∈ tokens.head?, token.isBare = false) : Lexer.Ends cs := by
  have ends_gap {gap : List Char} (hg : Gap gap) (rest : List Char) (hr : Lexer.Ends rest) :
      Lexer.Ends (gap ++ rest) := by
    cases gap with
    | nil => exact hr
    | cons c gap =>
        rintro d hd
        have hc := hg c List.mem_cons_self
        cases hd
        simp only [List.mem_cons, List.not_mem_nil, or_false] at hc
        rcases hc with rfl | rfl | rfl | rfl <;> decide
  cases h with
  | nil hg => simpa using ends_gap hg [] (by simp [Lexer.Ends])
  | @cons gap cs rest token tokens hg ht h =>
      refine ends_gap hg _ ?_
      have bare := hb token rfl
      cases ht with
      | openArray | closeArray | openObject | closeObject | comma | colon =>
          simp [Lexer.Ends, isNumberChar]
      | string _ _ => simp [Lexer.Ends, isNumberChar]
      | null | true | false | integer _ | minusZero | nonInteger _ _ _ _ _ => cases bare

/-- **The tokens of a text are found, if words and numbers stand apart.** -/
theorem Lexer.read?_lexemes {cs : List Char} {tokens : List Token} (h : Lexemes cs tokens)
    (ha : Apart tokens) : between.read? cs = some tokens := by
  induction h with
  | @nil gap hg =>
      rw [← List.append_nil gap, read?_gap hg]
      rfl
  | @cons gap cs rest token tokens hg ht h ih =>
      obtain ⟨hfirst, ha⟩ := List.isChain_cons.mp ha
      have hends : token.isBare = true → Ends rest := fun hbare =>
        ends_of_lexemes h fun next hnext => (hfirst next hnext).resolve_left (by simp [hbare])
      rw [read?_gap hg, read?_lexeme ht hends, ih ha, Option.map_some]

/-! ## The tokens of a document stand apart -/

theorem apart_cons {token : Token} {tokens : List Token} (ht : token.isBare = false)
    (h : Apart tokens) : Apart (token :: tokens) :=
  List.isChain_cons.mpr ⟨fun _ _ => .inl ht, h⟩

theorem apart_append {before after : List Token} {token : Token} (hb : Apart before)
    (ht : token.isBare = false) (ha : Apart after) : Apart (before ++ token :: after) :=
  List.isChain_append.mpr ⟨hb, apart_cons ht ha, fun _ _ next hnext => by
    cases hnext
    exact .inr ht⟩

theorem apart_singleton (token : Token) : Apart [token] := .singleton token

mutual

/-- **No two words or numbers stand side by side in a document.** -/
theorem apart_tokens : ∀ value : Json, Apart value.tokens
  | .null => apart_singleton _
  | .bool _ => apart_singleton _
  | .integer _ => apart_singleton _
  | .nonInteger => apart_singleton _
  | .string _ => apart_singleton _
  | .array items => by
      rw [tokens]
      exact apart_cons rfl (apart_append (apart_itemTokens items) rfl .nil)
  | .object members => by
      rw [tokens]
      exact apart_cons rfl (apart_append (apart_memberTokens members) rfl .nil)

theorem apart_itemTokens : ∀ items : List Json, Apart (itemTokens items)
  | [] => .nil
  | [item] => by
      rw [itemTokens]
      exact apart_tokens item
  | item :: next :: items => by
      rw [itemTokens]
      exact apart_append (apart_tokens item) rfl (apart_itemTokens (next :: items))

theorem apart_memberTokens : ∀ members : List (Option String × Json), Apart (memberTokens members)
  | [] => .nil
  | [(name, value)] => by
      rw [memberTokens]
      exact apart_cons rfl (apart_cons rfl (apart_tokens value))
  | (name, value) :: next :: members => by
      rw [memberTokens]
      exact apart_cons rfl (apart_cons rfl
        (apart_append (apart_tokens value) rfl (apart_memberTokens (next :: members))))

end

/-! ## The value of the tokens -/

theorem reads_of_step {reader next : Reader} {token : Token}
    (h : reader.step token = some next) (rest : List Token) :
    (token :: rest).foldlM Reader.step reader = rest.foldlM Reader.step next := by
  rw [List.foldlM_cons, h]
  rfl

/-- Where an array may end, its first item may start too. -/
theorem reads_firstItem {items : List Json} (hne : items ≠ []) (rest : List Token)
    (stack : List Frame) :
    (itemTokens items ++ rest).foldlM Reader.step (.firstItem stack) =
      (itemTokens items ++ rest).foldlM Reader.step (.value (.array [] :: stack)) := by
  match items with
  | [] => exact absurd rfl hne
  | [item] => cases item <;> rfl
  | item :: next :: items => cases item <;> rfl

/-- Where an object may end, its first name may start too. -/
theorem reads_firstName {members : List (Option String × Json)} (hne : members ≠ [])
    (rest : List Token) (stack : List Frame) :
    (memberTokens members ++ rest).foldlM Reader.step (.firstName stack) =
      (memberTokens members ++ rest).foldlM Reader.step (.name [] stack) := by
  match members with
  | [] => exact absurd rfl hne
  | [_] => rfl
  | _ :: _ :: _ => rfl

/-- A name and a colon leave the object waiting for the value. -/
theorem reads_name (name : Option String) (before : List (Option String × Json))
    (rest : List Token) (stack : List Frame) :
    (.string name :: .colon :: rest).foldlM Reader.step (.name before stack) =
      rest.foldlM Reader.step (.value (.object before name :: stack)) := rfl

mutual

/-- **A value is read in one piece, whatever is open around it.** -/
theorem reads_tokens : ∀ (value : Json) (rest : List Token) (stack : List Frame),
    (value.tokens ++ rest).foldlM Reader.step (.value stack) =
      rest.foldlM Reader.step (.after value stack)
  | .null, _, _ => rfl
  | .bool _, _, _ => rfl
  | .integer _, _, _ => rfl
  | .nonInteger, _, _ => rfl
  | .string _, _, _ => rfl
  | .array items, rest, stack => by
      have hopen : Reader.step (.value stack) .openArray = some (.firstItem stack) := rfl
      rw [tokens, List.cons_append, reads_of_step hopen, List.append_assoc]
      by_cases hne : items = []
      · subst hne
        rfl
      · exact (reads_firstItem hne _ stack).trans (reads_itemTokens items [] rest stack hne)
  | .object members, rest, stack => by
      have hopen : Reader.step (.value stack) .openObject = some (.firstName stack) := rfl
      rw [tokens, List.cons_append, reads_of_step hopen, List.append_assoc]
      by_cases hne : members = []
      · subst hne
        rfl
      · exact (reads_firstName hne _ stack).trans (reads_memberTokens members [] rest stack hne)

/-- The items of an array are kept in reverse until its end. -/
theorem reads_itemTokens : ∀ (items before : List Json) (rest : List Token) (stack : List Frame),
    items ≠ [] →
    (itemTokens items ++ .closeArray :: rest).foldlM Reader.step (.value (.array before :: stack)) =
      rest.foldlM Reader.step (.after (.array (before.reverse ++ items)) stack)
  | [], _, _, _, hne => absurd rfl hne
  | [item], before, rest, stack, _ => by
      have hclose : Reader.step (.after item (.array before :: stack)) .closeArray =
          some (.after (.array (item :: before).reverse) stack) := rfl
      rw [itemTokens, reads_tokens item, reads_of_step hclose, List.reverse_cons]
  | item :: next :: items, before, rest, stack, _ => by
      have hcomma : Reader.step (.after item (.array before :: stack)) .comma =
          some (.value (.array (item :: before) :: stack)) := rfl
      rw [itemTokens, List.append_assoc, reads_tokens item, List.cons_append,
        reads_of_step hcomma, reads_itemTokens (next :: items) _ _ _ (List.cons_ne_nil _ _),
        List.reverse_cons, List.append_assoc]
      rfl

/-- The members of an object are kept in reverse until its end. -/
theorem reads_memberTokens : ∀ (members before : List (Option String × Json)) (rest : List Token)
    (stack : List Frame), members ≠ [] →
    (memberTokens members ++ .closeObject :: rest).foldlM Reader.step (.name before stack) =
      rest.foldlM Reader.step (.after (.object (before.reverse ++ members)) stack)
  | [], _, _, _, hne => absurd rfl hne
  | [(name, value)], before, rest, stack, _ => by
      have hclose : Reader.step (.after value (.object before name :: stack)) .closeObject =
          some (.after (.object ((name, value) :: before).reverse) stack) := rfl
      rw [memberTokens, List.cons_append, List.cons_append, reads_name, reads_tokens value,
        reads_of_step hclose, List.reverse_cons]
  | (name, value) :: next :: members, before, rest, stack, _ => by
      have hcomma : Reader.step (.after value (.object before name :: stack)) .comma =
          some (.name ((name, value) :: before) stack) := rfl
      rw [memberTokens, List.cons_append, List.cons_append, reads_name, List.append_assoc,
        reads_tokens value, List.cons_append, reads_of_step hcomma,
        reads_memberTokens (next :: members) _ _ _ (List.cons_ne_nil _ _), List.reverse_cons,
        List.append_assoc]
      rfl

end

/-- **A document is read from each of its texts.** -/
theorem read?_of_isTextOf {text : String} {value : Json} (h : IsTextOf text value) :
    Json.read? text = some value := by
  have cut : tokens? text.toList = some value.tokens :=
    (Lexer.tokens?_eq_read? _).trans (Lexer.read?_lexemes h (apart_tokens value))
  have read := reads_tokens value [] []
  rw [List.append_nil] at read
  simp only [Json.read?, cut, read, Option.bind_eq_bind, Option.bind_some]
  rfl

end AnswerSet.Json
