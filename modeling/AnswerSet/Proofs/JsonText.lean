import AnswerSet.Json.Basic
import AnswerSet.Proofs.Trimming
import Mathlib.Tactic.IntervalCases

/-!
# The text of a JSON document

A text of a document is written down here as the standard does it, apart from the
machine that reads it: the tokens of the value one after the other, each as one of
its lexemes, with any blanks before, between and behind them (`Json.IsTextOf`). A
string may be spelled with escapes and without, and a character outside the basic
plane as a pair of surrogates.

What the lexemes of strings and numbers denote is settled here as well: the units
of a string are decoded to its text if it has one (`decodeUnits_of_hasText`), and a
decimal is the integer that it was written from (`numberToken?_integer`).
-/

namespace AnswerSet.Json

/-! ## Strings -/

/-- The characters behind a backslash, and what they stand for. -/
def escapes : List (Char × Char) :=
  [('"', '"'), ('\\', '\\'), ('/', '/'), ('b', '\x08'), ('f', '\x0c'), ('n', '\n'), ('r', '\r'),
    ('t', '\t')]

/-- A hexadecimal digit, in either case, and its value. -/
def HexDigit (c : Char) (n : Nat) : Prop :=
  n < 16 ∧ (c = n.digitChar ∨ c = n.digitChar.toUpper)

/-- The code points and code units of what stands between the quotes. -/
inductive Units : List Char → List Nat → Prop
  | nil : Units [] []
  | plain {c : Char} {cs : List Char} {ns : List Nat} (hc : 0x20 ≤ c.toNat) (hq : c ≠ '"')
      (hb : c ≠ '\\') (h : Units cs ns) : Units (c :: cs) (c.toNat :: ns)
  | escape {c d : Char} {cs : List Char} {ns : List Nat} (hc : (c, d) ∈ escapes)
      (h : Units cs ns) : Units ('\\' :: c :: cs) (d.toNat :: ns)
  | hex {a b c d : Char} {k l m n : Nat} {cs : List Char} {ns : List Nat} (ha : HexDigit a k)
      (hb : HexDigit b l) (hc : HexDigit c m) (hd : HexDigit d n) (h : Units cs ns) :
      Units ('\\' :: 'u' :: a :: b :: c :: d :: cs)
        ((k * 4096 + l * 256 + m * 16 + n) :: ns)

/-- The characters of units, where surrogates have to come in pairs. -/
inductive Encodes : List Nat → List Char → Prop
  | nil : Encodes [] []
  | char {n : Nat} {ns : List Nat} {cs : List Char} (hh : isHighSurrogate n = false)
      (hl : isLowSurrogate n = false) (h : Encodes ns cs) : Encodes (n :: ns) (Char.ofNat n :: cs)
  | pair {m n : Nat} {ns : List Nat} {cs : List Char} (hm : isHighSurrogate m = true)
      (hn : isLowSurrogate n = true) (h : Encodes ns cs) :
      Encodes (m :: n :: ns) (Char.ofNat (0x10000 + (m - 0xD800) * 0x400 + (n - 0xDC00)) :: cs)

/-- The text of units, if they have one. -/
inductive HasText : List Nat → Option String → Prop
  | text {ns : List Nat} {cs : List Char} (h : Encodes ns cs) : HasText ns (some (.ofList cs))
  | lone {ns : List Nat} (h : ∀ cs, ¬ Encodes ns cs) : HasText ns none

/-! ## Numbers -/

/-- The digits before the point, without leading zeros. -/
inductive IsWhole : List Char → Prop
  | zero : IsWhole ['0']
  | digits {c : Char} {cs : List Char} (hc : c.isDigit = true) (hz : c ≠ '0')
      (hcs : cs.all Char.isDigit = true) : IsWhole (c :: cs)

/-- The point and the digits behind it, or nothing. -/
inductive IsFraction : List Char → Prop
  | none : IsFraction []
  | digits {cs : List Char} (h : isDigits cs = true) : IsFraction ('.' :: cs)

/-- The exponent, with or without a sign, or nothing. -/
inductive IsPower : List Char → Prop
  | none : IsPower []
  | digits {e : Char} {sign cs : List Char} (he : e = 'e' ∨ e = 'E')
      (hs : sign = [] ∨ sign = ['+'] ∨ sign = ['-']) (h : isDigits cs = true) :
      IsPower (e :: (sign ++ cs))

/-! ## Tokens and their lexemes -/

/-- The token is a word or a number, which ends where something else begins. -/
def Token.isBare : Token → Bool
  | .null | .bool _ | .integer _ | .nonInteger => true
  | _ => false

/-- A spelling of one token. -/
inductive Lexeme : List Char → Token → Prop
  | openArray : Lexeme ['['] .openArray
  | closeArray : Lexeme [']'] .closeArray
  | openObject : Lexeme ['\x7b'] .openObject
  | closeObject : Lexeme ['\x7d'] .closeObject
  | comma : Lexeme [','] .comma
  | colon : Lexeme [':'] .colon
  | null : Lexeme ['n', 'u', 'l', 'l'] .null
  | true : Lexeme ['t', 'r', 'u', 'e'] (.bool true)
  | false : Lexeme ['f', 'a', 'l', 's', 'e'] (.bool false)
  | integer (n : Int) : Lexeme (toString n).toList (.integer n)
  | minusZero : Lexeme ['-', '0'] .nonInteger
  | nonInteger {sign whole fraction power : List Char} (hs : sign = [] ∨ sign = ['-'])
      (hw : IsWhole whole) (hf : IsFraction fraction) (hp : IsPower power)
      (hne : fraction ++ power ≠ []) :
      Lexeme (sign ++ (whole ++ (fraction ++ power))) .nonInteger
  | string {body : List Char} {ns : List Nat} {text : Option String} (hb : Units body ns)
      (ht : HasText ns text) : Lexeme ('"' :: (body ++ ['"'])) (.string text)

/-- Blanks between tokens. -/
def Gap (cs : List Char) : Prop := ∀ c ∈ cs, c ∈ [' ', '\t', '\n', '\r']

/-- The text is a lexeme for each of the tokens, with gaps. -/
inductive Lexemes : List Char → List Token → Prop
  | nil {gap : List Char} (hg : Gap gap) : Lexemes gap []
  | cons {gap cs rest : List Char} {t : Token} {ts : List Token} (hg : Gap gap)
      (ht : Lexeme cs t) (h : Lexemes rest ts) : Lexemes (gap ++ (cs ++ rest)) (t :: ts)

mutual

/-- The tokens of a document. -/
def tokens : Json → List Token
  | .null => [.null]
  | .bool b => [.bool b]
  | .integer n => [.integer n]
  | .nonInteger => [.nonInteger]
  | .string text => [.string text]
  | .array items => .openArray :: (itemTokens items ++ [.closeArray])
  | .object members => .openObject :: (memberTokens members ++ [.closeObject])

/-- The items of an array, with commas between them. -/
def itemTokens : List Json → List Token
  | [] => []
  | [item] => item.tokens
  | item :: next :: items => item.tokens ++ .comma :: itemTokens (next :: items)

/-- The members of an object, with commas between them. -/
def memberTokens : List (Option String × Json) → List Token
  | [] => []
  | [(name, value)] => .string name :: .colon :: value.tokens
  | (name, value) :: next :: members =>
    .string name :: .colon :: (value.tokens ++ .comma :: memberTokens (next :: members))

end

/-- The text is one of the document. -/
def IsTextOf (text : String) (value : Json) : Prop := Lexemes text.toList value.tokens

/-! ## Units and characters -/

theorem hexDigit?_of_hexDigit {c : Char} {n : Nat} (h : HexDigit c n) : hexDigit? c = some n := by
  obtain ⟨hn, hc⟩ := h
  interval_cases n <;> rcases hc with rfl | rfl <;> decide

theorem simpleEscape?_of_mem {c d : Char} (h : (c, d) ∈ escapes) : simpleEscape? c = some d := by
  simp only [escapes, List.mem_cons, Prod.mk.injEq, List.not_mem_nil, or_false] at h
  rcases h with ⟨rfl, rfl⟩ | ⟨rfl, rfl⟩ | ⟨rfl, rfl⟩ | ⟨rfl, rfl⟩ | ⟨rfl, rfl⟩ | ⟨rfl, rfl⟩
    | ⟨rfl, rfl⟩ | ⟨rfl, rfl⟩ <;> rfl

theorem decodeUnits_of_encodes {ns : List Nat} {cs : List Char} (h : Encodes ns cs) :
    decodeUnits ns = some cs := by
  induction h with
  | nil => rfl
  | @char n ns cs hh hl h ih =>
      cases ns with
      | nil =>
          cases h
          simp [decodeUnits, hh, hl]
      | cons m ns => simp [decodeUnits, hh, hl, ih]
  | pair hm hn _ ih => simp [decodeUnits, hm, hn, ih]

theorem encodes_of_decodeUnits {ns : List Nat} {cs : List Char} (h : decodeUnits ns = some cs) :
    Encodes ns cs := by
  fun_induction decodeUnits ns generalizing cs with
  | case1 =>
      injection h with h
      exact h ▸ .nil
  | case2 n hn => exact absurd h (by simp)
  | case3 n hn =>
      injection h with h
      rw [Bool.not_eq_true, Bool.or_eq_false_iff] at hn
      exact h ▸ .char hn.1 hn.2 .nil
  | case4 m n rest hm hn ih =>
      obtain ⟨ds, hd, rfl⟩ := Option.map_eq_some_iff.mp h
      exact .pair hm hn (ih hd)
  | case5 m n rest hm hn => exact absurd h (by simp)
  | case6 m n rest hm hm' => exact absurd h (by simp)
  | case7 m n rest hm hm' ih =>
      obtain ⟨ds, hd, rfl⟩ := Option.map_eq_some_iff.mp h
      exact .char (Bool.not_eq_true _ ▸ hm) (Bool.not_eq_true _ ▸ hm') (ih hd)

/-- **The text of units is what the machine makes of them.** -/
theorem decodeUnits_of_hasText {ns : List Nat} {text : Option String} (h : HasText ns text) :
    (decodeUnits ns).map String.ofList = text := by
  cases h with
  | text h => rw [decodeUnits_of_encodes h, Option.map_some]
  | lone h =>
      rw [Option.map_eq_none_iff, Option.eq_none_iff_forall_ne_some]
      exact fun cs hd => h cs (encodes_of_decodeUnits hd)

/-! ## Numbers, read -/

theorem IsWhole.digit {cs : List Char} (h : IsWhole cs) : ∀ c ∈ cs, c.isDigit = true := by
  cases h with
  | zero => simp
  | digits hc _ hcs => simpa [hc] using hcs

theorem toDigits_ne_zero {n : Nat} (hn : n ≠ 0) : Nat.toDigits 10 n ≠ ['0'] := by
  intro h
  have read := Text.readNat?_toDigits n
  rw [h, show Text.readNat? ['0'] = some 0 from rfl, Option.some.injEq] at read
  exact hn read.symm

/-- A natural number is written without leading zeros. -/
theorem isWhole_toDigits (n : Nat) : IsWhole (Nat.toDigits 10 n) := by
  induction n using Nat.strongRecOn with
  | ind n ih =>
      rw [Nat.toDigits_eq_if (by decide)]
      split
      · rename_i hn
        interval_cases n <;> first | exact .zero | exact .digits (by decide) (by decide) rfl
      · rename_i hn
        have last : ((n % 10).digitChar).isDigit = true := by
          have : n % 10 < 10 := Nat.mod_lt _ (by decide)
          interval_cases n % 10 <;> decide
        have higher := ih (n / 10) (by omega)
        have nonzero := toDigits_ne_zero (n := n / 10) (by omega)
        generalize Nat.toDigits 10 (n / 10) = front at higher nonzero
        cases higher with
        | zero => exact absurd rfl nonzero
        | digits hc hz hcs => exact .digits hc hz (by simp [hcs, last])

theorem isExponent_of_isPower {cs : List Char} (h : IsPower cs) : isExponent cs = true := by
  cases h with
  | none => rfl
  | @digits e sign ds he hs h =>
      have letter : (decide (e = 'e') || decide (e = 'E')) = true := by simpa using he
      rcases hs with rfl | rfl | rfl
      · have unsigned : ∀ c, c.isDigit = false → ∀ rest, ds ≠ c :: rest := by
          rintro c hc rest rfl
          simp [isDigits, hc] at h
        rw [List.nil_append, isExponent.eq_4 _ _ (unsigned '+' rfl) (unsigned '-' rfl), letter, h]
        rfl
      · simp [isExponent, letter, h]
      · simp [isExponent, letter, h]

theorem IsPower.head {cs : List Char} (h : IsPower cs) : ∀ c ∈ cs.head?, c.isDigit = false := by
  cases h with
  | none => simp
  | digits he _ _ => rcases he with rfl | rfl <;> simp

theorem IsFraction.head {fraction power : List Char} (hf : IsFraction fraction)
    (hp : IsPower power) : ∀ c ∈ (fraction ++ power).head?, c.isDigit = false := by
  cases hf with
  | none => exact hp.head
  | digits _ => simp

theorem isNumberTail_append {fraction power : List Char} (hf : IsFraction fraction)
    (hp : IsPower power) : isNumberTail (fraction ++ power) = true := by
  have exponent := isExponent_of_isPower hp
  cases hf with
  | none =>
      cases hp with
      | none => rfl
      | digits he hs h =>
        rw [List.nil_append]
        unfold isNumberTail
        split <;> simp_all
  | @digits cs h =>
      rw [isDigits, Bool.and_eq_true, List.all_eq_true] at h
      obtain ⟨hw, hd⟩ := Text.span_append h.2 hp.head
      simp [isNumberTail, hw, hd, exponent, h.1]

/-- A whole part that something else follows is no integer. -/
theorem unsignedToken?_append {whole rest : List Char} (hw : IsWhole whole)
    (hd : ∀ c ∈ rest.head?, c.isDigit = false) (hne : rest ≠ []) (ht : isNumberTail rest = true)
    (negative : Bool) : unsignedToken? negative (whole ++ rest) = some .nonInteger := by
  obtain ⟨take, drop⟩ := Text.span_append hw.digit hd
  simp only [unsignedToken?, take, drop]
  cases hw with
  | zero => simp [hne, ht]
  | digits hc hz hcs =>
      split
      · rename_i heq
        cases heq
      · rename_i heq
        exact absurd (List.cons.inj heq).1 hz
      · simp [hne, ht]

/-- A whole part alone is an integer. -/
theorem unsignedToken?_toDigits (n : Nat) (negative : Bool) :
    unsignedToken? negative (Nat.toDigits 10 n) =
      some (if negative then (if n = 0 then .nonInteger else .integer (-n)) else .integer n) := by
  have whole := isWhole_toDigits n
  have read := Text.readNat?_toDigits n
  have hend : ∀ c ∈ ([] : List Char).head?, c.isDigit = false := by simp
  obtain ⟨take, drop⟩ := Text.span_append whole.digit hend
  rw [List.append_nil] at take drop
  simp only [unsignedToken?, take, drop, read]
  generalize Nat.toDigits 10 n = ds at whole read
  cases whole with
  | zero =>
      have hn : 0 = n := Option.some.inj read
      subst hn
      cases negative <;> rfl
  | digits hc hz hcs =>
      split
      · rename_i heq
        cases heq
      · rename_i heq
        exact absurd (List.cons.inj heq).1 hz
      · cases n <;> cases negative <;> simp

theorem numberToken?_append {whole : List Char} (hw : IsWhole whole) (rest : List Char) :
    numberToken? (whole ++ rest) = unsignedToken? false (whole ++ rest) := by
  cases hw with
  | zero => rfl
  | @digits c cs hc _ _ =>
      have hminus : c ≠ '-' := by
        rintro rfl
        exact absurd hc (by decide)
      rw [List.cons_append, numberToken?.eq_2]
      exact fun _ heq => hminus (List.cons.inj heq).1

/-- **An integer reads back from its decimal text.** -/
theorem numberToken?_integer (n : Int) : numberToken? (toString n).toList = some (.integer n) := by
  rw [Int.toString_eq_repr, Int.repr_eq_if]
  split
  · rename_i hn
    have unsigned := numberToken?_append (isWhole_toDigits n.toNat) []
    rw [List.append_nil, unsignedToken?_toDigits] at unsigned
    rw [Nat.toList_repr, unsigned]
    simp [hn]
  · rename_i hn
    rw [String.toList_append, Nat.toList_repr]
    refine (unsignedToken?_toDigits (-n).toNat true).trans ?_
    rw [if_pos rfl, if_neg (by omega), Int.toNat_of_nonneg (by omega), Int.neg_neg]

theorem numberToken?_nonInteger {sign whole fraction power : List Char}
    (hs : sign = [] ∨ sign = ['-']) (hw : IsWhole whole) (hf : IsFraction fraction)
    (hp : IsPower power) (hne : fraction ++ power ≠ []) :
    numberToken? (sign ++ (whole ++ (fraction ++ power))) = some .nonInteger := by
  have unsigned := unsignedToken?_append hw (hf.head hp) hne (isNumberTail_append hf hp)
  rcases hs with rfl | rfl
  · exact (numberToken?_append hw _).trans (unsigned false)
  · exact unsigned true

/-! ## The characters of numbers -/

theorem isNumberChar_of_digit {c : Char} (h : c.isDigit = true) : isNumberChar c = true := by
  simp [isNumberChar, h]

theorem isNumberChar_of_isDigits {cs : List Char} (h : isDigits cs = true) :
    ∀ c ∈ cs, isNumberChar c = true := by
  rw [isDigits, Bool.and_eq_true, List.all_eq_true] at h
  exact fun c hc => isNumberChar_of_digit (h.2 c hc)

theorem isNumberChar_integer (n : Int) : ∀ c ∈ (toString n).toList, isNumberChar c = true := by
  have digits (m : Nat) : ∀ c ∈ Nat.toDigits 10 m, isNumberChar c = true := fun c hc =>
    isNumberChar_of_digit ((isWhole_toDigits m).digit c hc)
  rw [Int.toString_eq_repr, Int.repr_eq_if]
  split
  · rw [Nat.toList_repr]
    exact digits _
  · rw [String.toList_append, Nat.toList_repr]
    exact List.forall_mem_append.mpr ⟨by simp [isNumberChar], digits _⟩

theorem isNumberChar_nonInteger {sign whole fraction power : List Char}
    (hs : sign = [] ∨ sign = ['-']) (hw : IsWhole whole) (hf : IsFraction fraction)
    (hp : IsPower power) :
    ∀ c ∈ sign ++ (whole ++ (fraction ++ power)), isNumberChar c = true := by
  have hsign : ∀ c ∈ sign, isNumberChar c = true := by
    rcases hs with rfl | rfl <;> simp [isNumberChar]
  have hfraction : ∀ c ∈ fraction, isNumberChar c = true := by
    cases hf with
    | none => simp
    | digits h => simpa [isNumberChar] using isNumberChar_of_isDigits h
  have hpower : ∀ c ∈ power, isNumberChar c = true := by
    cases hp with
    | none => simp
    | @digits e mark ds he hm h =>
        refine List.forall_mem_cons.mpr ⟨by rcases he with rfl | rfl <;> rfl, ?_⟩
        refine List.forall_mem_append.mpr ⟨?_, isNumberChar_of_isDigits h⟩
        rcases hm with rfl | rfl | rfl <;> simp [isNumberChar]
  simp only [List.forall_mem_append]
  exact ⟨hsign, fun c hc => isNumberChar_of_digit (hw.digit c hc), hfraction, hpower⟩

end AnswerSet.Json
