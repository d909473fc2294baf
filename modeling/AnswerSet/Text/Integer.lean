/-!
# Decimal integers

An integer is read from an optional sign and at least one ASCII digit, and from
nothing else: no blanks, no digit separators. Leading zeros are allowed, so
several texts name one integer; each integer is written in one way, with a minus
sign if it is negative and without leading zeros. What is read has any size, and
each user bounds it: terms and costs are 64-bit words.
-/

namespace AnswerSet.Text

/-- Read a natural number from ASCII digits alone. -/
def readNat? (cs : List Char) : Option Nat :=
  if !cs.isEmpty && cs.all Char.isDigit then some (Nat.ofDigitChars 10 cs 0) else none

/-- Read an integer of any size. -/
def readInt? : List Char → Option Int
  | '-' :: digits => (readNat? digits).map fun n => -(n : Int)
  | '+' :: digits => (readNat? digits).map Int.ofNat
  | digits => (readNat? digits).map Int.ofNat

/-- The 64-bit word of an integer, if it fits. -/
def word? (n : Int) : Option Int64 :=
  if Int64.minValue.toInt ≤ n ∧ n ≤ Int64.maxValue.toInt then some (Int64.ofInt n) else none

/-- Read a 64-bit signed integer. -/
def readWord? (cs : List Char) : Option Int64 := (readInt? cs).bind word?

/-- The decimal text of a 64-bit signed integer. -/
def wordText (n : Int64) : String := toString n.toInt

theorem word?_toInt (n : Int64) : word? n.toInt = some n := by
  rw [word?, if_pos ⟨n.minValue_le_toInt, n.toInt_le⟩, Int64.ofInt_toInt]

theorem readNat?_toDigits (n : Nat) : readNat? (Nat.toDigits 10 n) = some n := by
  have digits : (Nat.toDigits 10 n).all Char.isDigit = true := by
    simpa using fun c hc => Nat.isDigit_of_mem_toDigits (by decide) (by decide) hc
  simp [readNat?, digits, Nat.ofDigitChars_toDigits]

end AnswerSet.Text
