import AnswerSet.Text.Integer

/-!
# JSON tokens

The text of a JSON document is cut into tokens by a machine that takes one
character at a time. Words and numbers end where a character comes that cannot
belong to them; that character then starts what follows.

A string literal may name a surrogate that has no partner. Such a literal is
well formed, but it denotes no text, so its token has none. Numbers are integers,
or numbers of another form that nothing here reads as a value: those with a
fraction or an exponent, and the negative zero.
-/

namespace AnswerSet.Json

/-- A token of a JSON document. -/
inductive Token where
  | openArray
  | closeArray
  | openObject
  | closeObject
  | comma
  | colon
  | null
  | bool (b : Bool)
  | integer (n : Int)
  | nonInteger
  /-- The text of a string literal, unless it names a surrogate without a partner. -/
  | string (text : Option String)
deriving DecidableEq, Repr

/-! ## Strings -/

/-- Is the code unit the first half of a pair? -/
def isHighSurrogate (n : Nat) : Bool := 0xD800 ≤ n && n ≤ 0xDBFF

/-- Is the code unit the second half of a pair? -/
def isLowSurrogate (n : Nat) : Bool := 0xDC00 ≤ n && n ≤ 0xDFFF

/-- The characters of code points and code units, where units have to come in pairs. -/
def decodeUnits : List Nat → Option (List Char)
  | [] => some []
  | [n] => if isHighSurrogate n || isLowSurrogate n then none else some [Char.ofNat n]
  | n :: m :: rest =>
    if isHighSurrogate n then
      if isLowSurrogate m then
        (decodeUnits rest).map (Char.ofNat (0x10000 + (n - 0xD800) * 0x400 + (m - 0xDC00)) :: ·)
      else none
    else if isLowSurrogate n then none
    else (decodeUnits (m :: rest)).map (Char.ofNat n :: ·)

/-- The character that a backslash and the given character stand for. -/
def simpleEscape? : Char → Option Char
  | '"' => some '"'
  | '\\' => some '\\'
  | '/' => some '/'
  | 'b' => some '\x08'
  | 'f' => some '\x0c'
  | 'n' => some '\n'
  | 'r' => some '\r'
  | 't' => some '\t'
  | _ => none

/-- The value of a hexadecimal digit. -/
def hexDigit? (c : Char) : Option Nat :=
  if c.isDigit then some (c.toNat - 0x30)
  else if 'a' ≤ c && c ≤ 'f' then some (c.toNat - 0x61 + 10)
  else if 'A' ≤ c && c ≤ 'F' then some (c.toNat - 0x41 + 10)
  else none

/-! ## Words and numbers -/

/-- The token of a word. -/
def wordToken? (cs : List Char) : Option Token :=
  if cs = ['n', 'u', 'l', 'l'] then some .null
  else if cs = ['t', 'r', 'u', 'e'] then some (.bool true)
  else if cs = ['f', 'a', 'l', 's', 'e'] then some (.bool false)
  else none

/-- May the character stand in a number? -/
def isNumberChar (c : Char) : Bool :=
  c.isDigit || c = '-' || c = '+' || c = '.' || c = 'e' || c = 'E'

/-- Are these one digit or more, and nothing else? -/
def isDigits (cs : List Char) : Bool := !cs.isEmpty && cs.all Char.isDigit

/-- Is this the exponent of a number, or nothing? -/
def isExponent : List Char → Bool
  | [] => true
  | e :: '+' :: digits => (e = 'e' || e = 'E') && isDigits digits
  | e :: '-' :: digits => (e = 'e' || e = 'E') && isDigits digits
  | e :: digits => (e = 'e' || e = 'E') && isDigits digits

/-- Is this what may follow the whole part of a number? -/
def isNumberTail : List Char → Bool
  | '.' :: rest =>
    !(rest.takeWhile Char.isDigit).isEmpty && isExponent (rest.dropWhile Char.isDigit)
  | rest => isExponent rest

/-- The token of a number, given whether a minus sign stands before the rest. -/
def unsignedToken? (negative : Bool) (cs : List Char) : Option Token :=
  let whole := cs.takeWhile Char.isDigit
  let rest := cs.dropWhile Char.isDigit
  match whole with
  | [] => none
  | '0' :: _ :: _ => none
  | _ =>
    if !rest.isEmpty then (if isNumberTail rest then some .nonInteger else none)
    else match Text.readNat? whole, negative with
      | none, _ => none
      | some 0, true => some .nonInteger
      | some n, true => some (.integer (-(n : Int)))
      | some n, false => some (.integer n)

/-- The token of a number. A number has no plus sign and no leading zeros. -/
def numberToken? : List Char → Option Token
  | '-' :: cs => unsignedToken? true cs
  | cs => unsignedToken? false cs

/-! ## The machine -/

/-- Where the machine stands. What it has read of a token is kept in reverse. -/
inductive Lexer where
  | between
  | word (read : List Char)
  | number (read : List Char)
  | string (units : List Nat)
  | escape (units : List Nat)
  | hex (units : List Nat) (value left : Nat)
deriving DecidableEq, Repr

namespace Lexer

/-- Take a character with which no token is open. -/
def start (c : Char) : Option (List Token × Lexer) :=
  match c with
  | ' ' | '\t' | '\n' | '\r' => some ([], between)
  | '[' => some ([.openArray], between)
  | ']' => some ([.closeArray], between)
  | '\x7b' => some ([.openObject], between)
  | '\x7d' => some ([.closeObject], between)
  | ',' => some ([.comma], between)
  | ':' => some ([.colon], between)
  | '"' => some ([], string [])
  | c =>
    if c.isDigit || c = '-' then some ([], number [c])
    else if c.isLower then some ([], word [c])
    else none

/-- Take a character. -/
def step : Lexer → Char → Option (List Token × Lexer)
  | between, c => start c
  | word read, c =>
    if c.isLower then some ([], word (c :: read))
    else do
      let token ← wordToken? read.reverse
      let (tokens, lexer) ← start c
      return (token :: tokens, lexer)
  | number read, c =>
    if isNumberChar c then some ([], number (c :: read))
    else do
      let token ← numberToken? read.reverse
      let (tokens, lexer) ← start c
      return (token :: tokens, lexer)
  | string units, '"' =>
    some ([.string ((decodeUnits units.reverse).map String.ofList)], between)
  | string units, '\\' => some ([], escape units)
  | string units, c => if c.toNat < 0x20 then none else some ([], string (c.toNat :: units))
  | escape units, 'u' => some ([], hex units 0 4)
  | escape units, c => (simpleEscape? c).map fun d => ([], string (d.toNat :: units))
  | hex units value left, c => do
    let value := value * 16 + (← hexDigit? c)
    if left ≤ 1 then return ([], string (value :: units)) else return ([], hex units value (left - 1))

/-- The token that the end of the text closes, if it may stand there. -/
def finish : Lexer → Option (List Token)
  | between => some []
  | word read => (wordToken? read.reverse).map ([·])
  | number read => (numberToken? read.reverse).map ([·])
  | _ => none

/-- Take a character after the given tokens, the last of them first. -/
def advance (before : List Token × Lexer) (c : Char) : Option (List Token × Lexer) := do
  let (tokens, lexer) ← before.2.step c
  return (tokens.reverse ++ before.1, lexer)

end Lexer

/-- The tokens of a text. -/
def tokens? (cs : List Char) : Option (List Token) := do
  let (read, lexer) ← cs.foldlM Lexer.advance ([], .between)
  return read.reverse ++ (← lexer.finish)

end AnswerSet.Json
