/-!
# The fixed words of program text

Comparison operators, negation markers, aggregate names and the names of scalar
types come from small closed sets. Each has one spelling.
-/

namespace AnswerSet

/-- The comparison operators of the solver's language. -/
inductive ComparisonOperator where
  | equal
  | notEqual
  | lessThan
  | lessThanOrEqual
  | greaterThan
  | greaterThanOrEqual
deriving DecidableEq, Repr, Inhabited

/-- How the operator is written. -/
def ComparisonOperator.symbol : ComparisonOperator → String
  | .equal => "="
  | .notEqual => "!="
  | .lessThan => "<"
  | .lessThanOrEqual => "<="
  | .greaterThan => ">"
  | .greaterThanOrEqual => ">="

/--
How many markers of negation as failure stand before a literal.

Two markers do not cancel: under stable models, `not not a` only says that `a`
has a reason elsewhere, while `a` itself can be that reason.
-/
inductive Polarity where
  | affirmed
  | negated
  | doublyNegated
deriving DecidableEq, Repr, Inhabited

/-- The markers as they are written, with the space that follows each. -/
def Polarity.marker : Polarity → String
  | .affirmed => ""
  | .negated => "not "
  | .doublyNegated => "not not "

/-- What an aggregate computes from its set. -/
inductive AggregateKind where
  | count
  | sum
  | min
  | max
deriving DecidableEq, Repr, Inhabited

/-- The name of the aggregate, without its number sign. -/
def AggregateKind.name : AggregateKind → String
  | .count => "count"
  | .sum => "sum"
  | .min => "min"
  | .max => "max"

/-- The arithmetic operators on terms. -/
inductive ArithmeticOperator where
  | add
  | sub
  | mul
  | div
  | rem
  | pow
deriving DecidableEq, Repr, Inhabited

/-- How the operator is written. The remainder is a backslash in the solver's language. -/
def ArithmeticOperator.symbol : ArithmeticOperator → String
  | .add => "+"
  | .sub => "-"
  | .mul => "*"
  | .div => "/"
  | .rem => "\\"
  | .pow => "**"

/-- The types of plain values. -/
inductive ScalarKind where
  | integer
  | string
  | boolean
deriving DecidableEq, Repr, Inhabited

/-- The name of the type in messages. -/
def ScalarKind.name : ScalarKind → String
  | .integer => "integer"
  | .string => "string"
  | .boolean => "boolean"

end AnswerSet
