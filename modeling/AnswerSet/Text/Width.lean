import AnswerSet.Text.Ligature

/-!
# Display width

How many columns of a terminal a text takes. That is the sum over its characters,
less what ligatures and emoji sequences save. The sum is taken from the end of
the text, so that each character knows what it can join.
-/

namespace AnswerSet.Text

/-- What the rest of a text starts with, behind selectors that wait for their character. -/
structure Context where
  rest : Rest
  /-- A selector of the emoji style stands first. -/
  asEmoji : Bool
  /-- A selector of the text style stands first. -/
  asText : Bool
  /-- A selector of wide quotation marks stands first. -/
  asWideQuote : Bool
deriving DecidableEq, Repr

namespace Context

/-- The context without selectors. -/
def ofRest (rest : Rest) : Context := ⟨rest, false, false, false⟩

/-- The context before the end of the text, and wherever nothing joins. -/
def empty : Context := ofRest .plain

/-- Letters wait behind the selectors for the other side, and nothing else does. -/
def letters (context : Context) : Context :=
  if context.rest.isLetter then context else empty

/-- A selector of the emoji style. An emoji behind a joiner waits behind it too. -/
def selectEmoji (context : Context) : Context :=
  { (if context.rest.isJoinedEmoji then context else context.letters) with asEmoji := true }

/-- A selector of the text style. -/
def selectText (context : Context) : Context := { context.letters with asText := true }

/-- A selector of wide quotation marks. -/
def selectWideQuote (context : Context) : Context := { context.letters with asWideQuote := true }

/-- The context when the selector of the emoji style has found no character to apply to. -/
def dropEmoji (context : Context) : Context :=
  if context.asEmoji then { context.letters with asEmoji := false } else context

/-- The columns of a character that joins nothing, and the context before it. -/
def start (c : Char) : Int × Context :=
  if c = '\uFE0F' then (0, empty.selectEmoji)
  else if c = '\uFE0E' then (0, empty.selectText)
  else if c = '\uFE01' then (0, empty.selectWideQuote)
  else (charWidth c, ofRest (.ofChar c))

/-- The columns that a character adds before what its selectors and ligatures leave. -/
def extend (context : Context) (c : Char) : Int × Context :=
  if context.asText && hasNarrowStyle c then (1, empty)
  else if context.asWideQuote && isCurlyQuote c then (2, empty)
  else if context.rest.isOpen && c = '\u200D' then (0, ofRest context.rest.join)
  else if context.rest.isOpen && isIgnorableMark c then (0, ofRest context.rest)
  else match context.rest.joinEmoji c <|> context.rest.joinLetter c with
    | some (columns, rest) => (columns, ofRest rest)
    | none => start c

/-- The columns that a character adds to a text before it, and the context before both. -/
def before (c : Char) (context : Context) : Int × Context :=
  if context.asEmoji && hasEmojiStyle c then
    (if context.rest.isJoinedEmoji then 0 else 2, ofRest .emoji)
  else if c = '\n' then (1, ofRest .lineFeed)
  else if c = '\r' && context = ofRest .lineFeed then (0, empty)
  else if c.toNat ≤ 0xA0 then (1, empty)
  else
    let context := context.dropEmoji
    if context = empty then start c
    else if c = '\uFE0F' then (0, context.selectEmoji)
    else if c = '\uFE0E' then (0, context.selectText)
    else if c = '\uFE01' then (0, context.selectWideQuote)
    else context.extend c

end Context

/-- The columns of a text before a context, and the context before the text. -/
def measure (cs : List Char) : Int × Context :=
  cs.foldr (fun c (columns, context) =>
    let (added, context) := context.before c
    (columns + added, context)) (0, .empty)

/-- The columns of a text. -/
def width (cs : List Char) : Nat := (measure cs).1.toNat

end AnswerSet.Text
