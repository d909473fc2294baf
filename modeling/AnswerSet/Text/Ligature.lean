import AnswerSet.Text.Emoji

/-!
# Ligatures

Characters that are drawn together take fewer columns than each on its own. A
text is measured from its end: what the rest of the text starts with says whether
the character before it joins, and how many columns it then adds. The rest
forgets all of the text but that.

Three kinds of things join: a carriage return with a line feed, the parts of an
emoji, and letters of some scripts. Selectors and joiners stand between the two
sides, and for letters also marks that are not drawn.
-/

namespace AnswerSet.Text

/-! ## Letters that join -/

/-- The letters alef of the Arabic script, which join a lam before them. -/
def isAlef (c : Char) : Bool :=
  inRanges [(0x622, 0x623), (0x625, 0x625), (0x627, 0x627), (0x671, 0x673), (0x675, 0x675),
    (0x773, 0x774), (0x870, 0x882)] c

/-- The letters lam of the Arabic script. -/
def isLam (c : Char) : Bool :=
  inRanges [(0x644, 0x644), (0x6B5, 0x6B8), (0x76A, 0x76A), (0x8A6, 0x8A6), (0x8C7, 0x8C7)] c

/-- Characters without columns that keep the letters around them from joining in Arabic. -/
def nonJoiningRanges : List (Nat × Nat) :=
  [(0x605, 0x605), (0x890, 0x891), (0x8E2, 0x8E2), (0x9BE, 0x9BE), (0x9D7, 0x9D7), (0xB3E, 0xB3E),
    (0xB57, 0xB57), (0xBBE, 0xBBE), (0xBD7, 0xBD7), (0xCC0, 0xCC0), (0xCC2, 0xCC2), (0xCC7, 0xCC8),
    (0xCCA, 0xCCB), (0xCD5, 0xCD6), (0xD3E, 0xD3E), (0xD4E, 0xD4E), (0xD57, 0xD57), (0xDCF, 0xDCF),
    (0xDDF, 0xDDF), (0x1160, 0x11FF), (0x1715, 0x1715), (0x1734, 0x1734), (0x180E, 0x180E),
    (0x1B35, 0x1B35), (0x1B3B, 0x1B3B), (0x1B3D, 0x1B3D), (0x1B43, 0x1B44), (0x1BAA, 0x1BAA),
    (0x1BF2, 0x1BF3), (0x200C, 0x200D), (0x2065, 0x2069), (0x302E, 0x302F), (0x3164, 0x3164),
    (0xA8FA, 0xA8FA), (0xA953, 0xA953), (0xA9C0, 0xA9C0), (0xD7B0, 0xD7C6), (0xD7CB, 0xD7FB),
    (0xFFA0, 0xFFA0), (0xFFF0, 0xFFF8), (0x111C0, 0x111C0), (0x111C2, 0x111C3), (0x11235, 0x11235),
    (0x1133E, 0x1133E), (0x1134D, 0x1134D), (0x11357, 0x11357), (0x113B8, 0x113B8),
    (0x113C2, 0x113C2), (0x113C5, 0x113C5), (0x113C7, 0x113C9), (0x113CF, 0x113CF),
    (0x113D1, 0x113D1), (0x114B0, 0x114B0), (0x114BD, 0x114BD), (0x115AF, 0x115AF),
    (0x116B6, 0x116B6), (0x11930, 0x11930), (0x1193D, 0x1193D), (0x1193F, 0x1193F),
    (0x11941, 0x11941), (0x11A84, 0x11A89), (0x11D46, 0x11D46), (0x11F02, 0x11F02),
    (0x11F41, 0x11F41), (0x16FF0, 0x16FF1), (0x1D165, 0x1D166), (0x1D16D, 0x1D172),
    (0x1D250, 0x1D252), (0x1D25F, 0x1D25F), (0x1D280, 0x1D281), (0xE0000, 0xE0000),
    (0xE0002, 0xE001F), (0xE0080, 0xE00FF), (0xE01F0, 0xE0FFF)]

/-- A mark of no columns that does not part a lam from an alef. -/
def isTransparent (c : Char) : Bool := charWidth c == 0 && !inRanges nonJoiningRanges c

/-- A combining mark that is not drawn. It parts no letters but those of Arabic. -/
def isIgnorableMark (c : Char) : Bool :=
  inRanges [(0x34F, 0x34F), (0x17B4, 0x17B5), (0x180B, 0x180D), (0x180F, 0x180F),
    (0xFE00, 0xFE0F), (0xE0100, 0xE01EF)] c

/-- Letters of the Khmer script that can stand below another one. -/
def isKhmerLetter (c : Char) : Bool :=
  inRanges [(0x1780, 0x1782), (0x1784, 0x1787), (0x1789, 0x178C), (0x178E, 0x1793),
    (0x1795, 0x1798), (0x179B, 0x179D), (0x17A0, 0x17A0), (0x17A2, 0x17A2), (0x17A7, 0x17A7),
    (0x17AB, 0x17AC), (0x17AF, 0x17AF)] c

/-- Consonants of the Tifinagh script, which can be drawn in pairs. -/
def isTifinaghConsonant (c : Char) : Bool := inRanges [(0x2D31, 0x2D65), (0x2D6F, 0x2D6F)] c

/-- A curly quotation mark. -/
def isCurlyQuote (c : Char) : Bool := inRanges [(0x2018, 0x2019), (0x201C, 0x201D)] c

/-! ## The rest of a text -/

/-- What the rest of a text starts with, as far as the character before it can join. -/
inductive Rest where
  /-- Nothing that joins. -/
  | plain
  | lineFeed
  | skinTone
  /-- One letter of a flag. -/
  | flagLetter
  /-- Two letters of flags or more. -/
  | flagLetters
  | emoji
  /-- A joiner that ties what comes before it to an emoji. -/
  | joined (joint : Joint)
  /-- The vowel sign E of Kirat Rai, which grows into other vowels. -/
  | kiratE
  /-- The vowel sign AI of Kirat Rai. -/
  | kiratAi
  | alef
  /-- The Hebrew letter lamed, maybe behind a joiner, as in the letters below. -/
  | lamed (joined : Bool)
  | bugineseYa (joined : Bool)
  /-- The Buginese vowel sign I joined to the letter ya. -/
  | bugineseIYa
  | tifinagh (joined : Bool)
  /-- The joiner of Tifinagh with a consonant. -/
  | tifinaghPair
  /-- The last two tone letters of Lisu. -/
  | lisuTone
  | orkhonI (joined : Bool)
  | khmerLetter
deriving DecidableEq, Repr

namespace Rest

/-- What a rest starts with whose first character is the given one. -/
def ofChar (c : Char) : Rest :=
  if c = '\u05DC' then lamed false
  else if c = '\u1A10' then bugineseYa false
  else if c = '\uA4FC' || c = '\uA4FD' then lisuTone
  else if c = Char.ofNat 0x10C03 then orkhonI false
  else if c = Char.ofNat 0x16D67 then kiratE
  else if c = Char.ofNat 0x16D68 then kiratAi
  else if isAlef c then alef
  else if isKhmerLetter c then khmerLetter
  else if isTifinaghConsonant c then tifinagh false
  else if isFlagLetter c then flagLetter
  else if isSkinTone c then skinTone
  else if isEmoji c then emoji
  else plain

/-- Is it a part of letters that join? Selectors before it do not count then. -/
def isLetter : Rest → Bool
  | alef | lamed _ | bugineseYa _ | bugineseIYa | tifinagh _ | tifinaghPair | lisuTone
  | orkhonI _ | khmerLetter => true
  | _ => false

/-- Can a selector of the emoji style stand right before it without parting an emoji? -/
def isJoinedEmoji : Rest → Bool
  | joined .bare | joined .keycap => true
  | _ => false

/-- Can marks that are not drawn stand before it without parting letters? -/
def isOpen (rest : Rest) : Bool := rest.isLetter && rest ≠ alef

/-- The letters with a joiner before them. -/
def join : Rest → Rest
  | lamed _ => lamed true
  | bugineseYa _ => bugineseYa true
  | tifinagh _ => tifinagh true
  | orkhonI _ => orkhonI true
  | rest => rest

/-- The columns that a part of an emoji sequence adds, and the sequence with it. -/
def joinEmoji (c : Char) : Rest → Option (Int × Rest)
  | skinTone =>
    if hasSkin c then some (0, emoji)
    else if c = '\u200D' then some (0, joined .bare)
    else none
  | flagLetter => if isFlagLetter c then some (1, flagLetters) else none
  | flagLetters =>
    if isFlagLetter c then some (1, flagLetters)
    else if c = '\u200D' then some (0, joined .bare)
    else none
  | emoji => if c = '\u200D' then some (0, joined .bare) else none
  | joined .bare =>
    if c = '\u20E3' then some (0, joined .keycap)
    else if isFlagLetter c then some (1, joined .flagLetter)
    else if isSkinTone c then some (0, skinTone)
    else if c = Char.ofNat 0xE007F then some (0, joined (.tagLetters 0))
    else if isEmoji c then some (0, emoji)
    else none
  | joined .flagLetter => if isFlagLetter c then some (-1, joined (.flagLetters false)) else none
  | joined (.flagLetters odd) =>
    if isFlagLetter c then some (if odd then -1 else 3, joined (.flagLetters !odd))
    else if c = '\u200D' then some (0, joined .bare)
    else none
  | joined joint =>
    if c = Char.ofNat 0x1F3F4 && joint.isRegion then some (0, emoji)
    else (joint.tagged c).map fun joint => (0, joined joint)
  | _ => none

/-- The columns that a letter before joining letters adds, and what it then starts. -/
def joinLetter (c : Char) : Rest → Option (Int × Rest)
  | alef =>
    if isLam c then some (0, plain) else if isTransparent c then some (0, alef) else none
  | lamed true => if c = '\u05D0' then some (0, plain) else none
  | khmerLetter => if c = '\u17D2' then some (-1, plain) else none
  | bugineseYa true => if c = '\u1A17' then some (0, bugineseIYa) else none
  | bugineseIYa => if c = '\u1A15' then some (0, plain) else none
  | tifinagh behindJoiner =>
    if c = '\u2D7F' then some (1, tifinaghPair)
    else if behindJoiner && isTifinaghConsonant c then some (0, plain)
    else none
  | tifinaghPair => if isTifinaghConsonant c then some (-1, plain) else none
  | lisuTone => if inRanges [(0xA4F8, 0xA4FB)] c then some (0, plain) else none
  | orkhonI true => if c = Char.ofNat 0x10C32 then some (0, plain) else none
  | kiratE =>
    if c = Char.ofNat 0x16D63 || c = Char.ofNat 0x16D69 then some (0, plain)
    else if c = Char.ofNat 0x16D67 then some (0, kiratAi)
    else if c = Char.ofNat 0x16D68 then some (1, kiratE)
    else none
  | kiratAi => if c = Char.ofNat 0x16D63 then some (0, plain) else none
  | _ => none

end Rest

end AnswerSet.Text
