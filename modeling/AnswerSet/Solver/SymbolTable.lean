import AnswerSet.Text.Split

/-!
# The symbol table of a ground program

The solver writes a ground program as a list of rules, a line with a zero, the
table of its atoms and another line with a zero. Each line of the table is a
number, a blank and the text of an atom.
-/

namespace AnswerSet

/-- The line that ends a section. -/
def sectionEnd : List Char := ['0']

/-- The atoms of the symbol table, in order. Lines without a blank are passed over. -/
def symbolTable (output : String) : List String :=
  let table := ((Text.lines output.toList).dropWhile (· ≠ sectionEnd)).drop 1
  ((table.takeWhile (· ≠ sectionEnd)).filterMap (Text.afterFirst? ' ')).map String.ofList

end AnswerSet
