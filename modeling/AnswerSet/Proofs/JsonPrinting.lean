import AnswerSet.Json.Print
import AnswerSet.Proofs.JsonReading

/-!
# Printed documents

What is printed for a document is one of its texts (`isTextOf_pretty`): a literal
escapes what must not stand between quotes, and the lines and blanks of the layout
are gaps. So every document has a text, also the one with a string that names a
lone surrogate, and it reads back as the document (`read?_pretty`).
-/

namespace AnswerSet.Json

/-! ## Texts put together -/

theorem gap_nil : Gap [] := fun _ hc => nomatch hc

theorem gap_append {front back : List Char} (hf : Gap front) (hb : Gap back) :
    Gap (front ++ back) :=
  List.forall_mem_append.mpr ⟨hf, hb⟩

theorem Lexemes.gap {gap cs : List Char} {tokens : List Token} (hg : Gap gap)
    (h : Lexemes cs tokens) : Lexemes (gap ++ cs) tokens := by
  cases h with
  | nil hg' => exact .nil (gap_append hg hg')
  | cons hg' ht h =>
      rw [← List.append_assoc]
      exact .cons (gap_append hg hg') ht h

theorem Lexemes.append {cs ds : List Char} {tokens more : List Token} (h : Lexemes cs tokens)
    (h' : Lexemes ds more) : Lexemes (cs ++ ds) (tokens ++ more) := by
  induction h with
  | nil hg => exact h'.gap hg
  | cons hg ht _ ih =>
      rw [List.append_assoc, List.append_assoc]
      exact .cons hg ht ih

theorem Lexeme.lexemes {cs : List Char} {token : Token} (h : Lexeme cs token) :
    Lexemes cs [token] := by
  have alone := Lexemes.cons gap_nil h (.nil gap_nil)
  rwa [List.nil_append, List.append_nil] at alone

/-! ## Literals -/

theorem encodes_toNat (cs : List Char) : Encodes (cs.map Char.toNat) cs := by
  induction cs with
  | nil => exact .nil
  | cons c cs ih =>
      have scalar : c.toNat < 0xD800 ∨ 0xDFFF < c.toNat := by
        rcases c.valid with h | h
        · exact .inl h
        · exact .inr h.1
      have whole := Encodes.char (n := c.toNat) (by simp [isHighSurrogate]; omega)
        (by simp [isLowSurrogate]; omega) ih
      rwa [Char.ofNat_toNat] at whole

/-- Each character has one unit, its code point, in whichever way it is spelled. -/
theorem units_escapeChar (c : Char) {cs : List Char} {ns : List Nat} (h : Units cs ns) :
    Units (escapeChar c ++ cs) (c.toNat :: ns) := by
  unfold escapeChar
  split
  · exact .escape (by simp [escapes]) h
  · exact .escape (by simp [escapes]) h
  · exact .escape (d := '\x08') (by simp [escapes]) h
  · exact .escape (d := '\t') (by simp [escapes]) h
  · exact .escape (d := '\n') (by simp [escapes]) h
  · exact .escape (d := '\x0c') (by simp [escapes]) h
  · exact .escape (d := '\r') (by simp [escapes]) h
  · rename_i hq hb _ _ _ _ _
    split
    · rename_i hc
      have digit (n : Nat) : HexDigit (n % 16).digitChar (n % 16) :=
        ⟨Nat.mod_lt _ (by decide), .inl rfl⟩
      have value : c.toNat / 4096 % 16 * 4096 + c.toNat / 256 % 16 * 256 + c.toNat / 16 % 16 * 16
          + c.toNat % 16 = c.toNat := by omega
      have hex := Units.hex (digit (c.toNat / 4096)) (digit (c.toNat / 256)) (digit (c.toNat / 16))
        (digit c.toNat) h
      rwa [value] at hex
    · rename_i hc
      exact .plain (Nat.le_of_not_lt hc) hq hb h

theorem units_escape (cs : List Char) : Units (cs.flatMap escapeChar) (cs.map Char.toNat) := by
  induction cs with
  | nil => exact .nil
  | cons c cs ih =>
      rw [List.flatMap_cons]
      exact units_escapeChar c ih

/-- **A literal is a lexeme of its string**, also of the one without a text. -/
theorem lexeme_literal (text : Option String) : Lexeme (literal text).toList (.string text) := by
  cases text with
  | none =>
      have lone : ∀ cs, ¬ Encodes [0xD800] cs := by
        intro cs h
        cases h with
        | char hh _ _ => exact absurd hh (by decide)
      have digit (n : Nat) (hn : n < 16) : HexDigit n.digitChar n := ⟨hn, .inl rfl⟩
      exact .string (.hex (digit 13 (by decide)) (digit 8 (by decide)) (digit 0 (by decide))
        (digit 0 (by decide)) .nil) (.lone lone)
  | some text =>
      have whole := Lexeme.string (units_escape text.toList) (.text (encodes_toNat text.toList))
      rw [String.ofList_toList] at whole
      simpa [literal] using whole

/-! ## The layout -/

theorem gap_lineStart (depth : Nat) : Gap (lineStart depth).toList := by
  intro c hc
  simp [lineStart] at hc
  rcases hc with rfl | ⟨_, rfl⟩ <;> simp

theorem lexemes_bracketed {opening closing : String} {left right : Token}
    (hl : Lexeme opening.toList left) (hr : Lexeme closing.toList right) (depth : Nat)
    {texts : List String} {tokens : List Token}
    (h : Lexemes (("," ++ lineStart (depth + 1)).intercalate texts).toList tokens) :
    Lexemes (bracketed opening closing depth texts).toList (left :: (tokens ++ [right])) := by
  cases texts with
  | nil =>
      have whole := hl.lexemes.append (h.append hr.lexemes)
      simpa [bracketed] using whole
  | cons text texts =>
      have whole := hl.lexemes.append
        ((h.append (hr.lexemes.gap (gap_lineStart depth))).gap (gap_lineStart (depth + 1)))
      simpa [bracketed] using whole

theorem lexemes_member (name : Option String) {cs : List Char} {tokens : List Token}
    (h : Lexemes cs tokens) :
    Lexemes ((literal name).toList ++ ':' :: ' ' :: cs) (.string name :: .colon :: tokens) := by
  have blank : Gap [' '] := by simp [Gap]
  exact (lexeme_literal name).lexemes.append (Lexeme.colon.lexemes.append (h.gap blank))

mutual

/-- The lexemes of a printed document. -/
theorem lexemes_pretty : ∀ (value : Json) (depth : Nat),
    Lexemes (value.pretty depth).toList value.tokens
  | .null, _ => by simpa [pretty, tokens] using Lexeme.null.lexemes
  | .bool true, _ => by simpa [pretty, tokens] using Lexeme.true.lexemes
  | .bool false, _ => by simpa [pretty, tokens] using Lexeme.false.lexemes
  | .integer n, _ => by simpa only [pretty, tokens] using (Lexeme.integer n).lexemes
  | .nonInteger, _ => by simpa [pretty, tokens] using Lexeme.minusZero.lexemes
  | .string text, _ => by simpa only [pretty, tokens] using (lexeme_literal text).lexemes
  | .array items, depth => by
      rw [pretty, tokens]
      exact lexemes_bracketed (by simpa using Lexeme.openArray) (by simpa using Lexeme.closeArray)
        depth (lexemes_prettyItems items (depth + 1))
  | .object members, depth => by
      rw [pretty, tokens]
      exact lexemes_bracketed (by simpa using Lexeme.openObject)
        (by simpa using Lexeme.closeObject) depth (lexemes_prettyMembers members (depth + 1))

theorem lexemes_prettyItems : ∀ (items : List Json) (depth : Nat),
    Lexemes (("," ++ lineStart depth).intercalate (prettyItems depth items)).toList
      (itemTokens items)
  | [], _ => .nil (by simp [Gap, prettyItems])
  | [item], depth => by
      rw [itemTokens]
      simpa [prettyItems] using lexemes_pretty item depth
  | item :: next :: items, depth => by
      have comma := Lexeme.comma.lexemes.append
        ((lexemes_prettyItems (next :: items) depth).gap (gap_lineStart depth))
      have whole := (lexemes_pretty item depth).append comma
      rw [itemTokens]
      simpa [prettyItems] using whole

theorem lexemes_prettyMembers : ∀ (members : List (Option String × Json)) (depth : Nat),
    Lexemes (("," ++ lineStart depth).intercalate (prettyMembers depth members)).toList
      (memberTokens members)
  | [], _ => .nil (by simp [Gap, prettyMembers])
  | [(name, value)], depth => by
      have whole := lexemes_member name (lexemes_pretty value depth)
      rw [memberTokens]
      simpa [prettyMembers] using whole
  | (name, value) :: next :: members, depth => by
      have comma := Lexeme.comma.lexemes.append
        ((lexemes_prettyMembers (next :: members) depth).gap (gap_lineStart depth))
      have whole := (lexemes_member name (lexemes_pretty value depth)).append comma
      rw [memberTokens]
      simpa [prettyMembers] using whole

end

/-- **What is printed for a document is one of its texts.** -/
theorem isTextOf_pretty (value : Json) (depth : Nat) : IsTextOf (value.pretty depth) value :=
  lexemes_pretty value depth

/-- **What is printed reads back.** -/
theorem read?_pretty (value : Json) (depth : Nat) : Json.read? (value.pretty depth) = some value :=
  read?_of_isTextOf (isTextOf_pretty value depth)

end AnswerSet.Json
