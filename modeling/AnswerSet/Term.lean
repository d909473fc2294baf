import AnswerSet.Error
import AnswerSet.Text.Integer
import AnswerSet.Text.Quoted

/-!
# Terms

A term fills a field of an atom. It is bound when it stands for one value: an
integer, a string, a truth value or a symbol of the solver's language. It is
unbound when the solver still has to find its values. Arithmetic, intervals and
absolute values are unbound as well: nothing is computed here, the expression is
written down in full and the solver evaluates it.

Fresh variables are numbered by a counter that is threaded through every
computation that draws one, so the names within a run never repeat.
-/

namespace AnswerSet

/-- A variable or expression, as it stands in program text. -/
structure Variable where
  text : String
deriving DecidableEq, Repr, Hashable

/-- Computations that may draw fresh variables. The state is the next number. -/
abbrev Fresh := StateM Nat

/-- The fresh variable of a number. -/
def Variable.numbered (n : Nat) : Variable := ⟨s!"X_{n}"⟩

/-- Draw a variable that was not drawn before. -/
def Variable.fresh : Fresh Variable := modifyGet fun n => (.numbered n, n + 1)

/-- A variable with a name of the caller's, which no fresh variable has. -/
def Variable.named (name : String) : Except ConstructionError Variable :=
  if name.isEmpty then .error .emptyVariableName else .ok ⟨s!"VAR_{name}"⟩

/-- The value of a field: bound, or left to the solver. -/
inductive Term where
  | int (n : Int64)
  | str (s : String)
  | bool (b : Bool)
  /-- A symbol, written without quotes. -/
  | symbol (name : String)
  | unbound (v : Variable)
deriving DecidableEq, Repr, Hashable

namespace Term

/-- The term in program text. -/
def text : Term → String
  | .int n => Text.wordText n
  | .str s => Text.quote s
  | .bool true => "true"
  | .bool false => "false"
  | .symbol name => name
  | .unbound v => v.text

/-- A term that stands for any value. -/
def fresh : Fresh Term := return .unbound (← Variable.fresh)

/-- A named variable as a term. -/
def var (name : String) : Except ConstructionError Term :=
  (Variable.named name).map .unbound

/-- The anonymous variable. -/
def hidden : Term := .unbound ⟨"_"⟩

/-- The interval between two terms, both ends included. -/
def range (lo hi : Term) : Term := .unbound ⟨lo.text ++ ".." ++ hi.text⟩

/-- The absolute value of a term. -/
def abs (t : Term) : Term := .unbound ⟨"|" ++ t.text ++ "|"⟩

/-- An arithmetic expression, in parentheses. -/
def arithmetic (operator : ArithmeticOperator) (left right : Term) : Term :=
  .unbound ⟨"(" ++ left.text ++ " " ++ operator.symbol ++ " " ++ right.text ++ ")"⟩

/-- The integer term of a natural number, if it fits. -/
def ofNat? (n : Nat) : Except ConstructionError Term :=
  match Text.word? n with
  | some word => .ok (.int word)
  | none => .error (.integerTooLarge n)

/-- Does the term stand for a value? -/
def isBound : Term → Bool
  | .unbound _ => false
  | _ => true

/-- The value of an integer term. -/
def int? : Term → Option Int64
  | .int n => some n
  | _ => none

/-- The value of a string term. -/
def str? : Term → Option String
  | .str s => some s
  | _ => none

/-- The value of a boolean term. -/
def bool? : Term → Option Bool
  | .bool b => some b
  | _ => none

/-- The type of a term that is a plain value. -/
def scalarKind? : Term → Option ScalarKind
  | .int _ => some .integer
  | .str _ => some .string
  | .bool _ => some .boolean
  | _ => none

end Term

end AnswerSet
