/-!
# Quoted strings

The solver's string literals stand between double quotes. Three characters are
written as a pair that starts with a backslash: the backslash itself, the quote
and the line feed. Reading is more generous than writing: a backslash before any
other character stands for that character, and one at the very end for itself.
-/

namespace AnswerSet.Text

/-- Write the contents of a literal. -/
def escape : List Char → List Char
  | [] => []
  | '\\' :: rest => '\\' :: '\\' :: escape rest
  | '"' :: rest => '\\' :: '"' :: escape rest
  | '\n' :: rest => '\\' :: 'n' :: escape rest
  | c :: rest => c :: escape rest

/-- Read the contents of a literal. -/
def unescape : List Char → List Char
  | [] => []
  | ['\\'] => ['\\']
  | '\\' :: 'n' :: rest => '\n' :: unescape rest
  | '\\' :: c :: rest => c :: unescape rest
  | c :: rest => c :: unescape rest

/-- The literal of a string, quotes included. -/
def quote (s : String) : String := "\"" ++ .ofList (escape s.toList) ++ "\""

/--
The contents between the quotes, still escaped, if the text starts and ends with
a quote that are not one and the same character.
-/
def unquote? : List Char → Option (List Char)
  | '"' :: rest => if rest.getLast? = some '"' then some rest.dropLast else none
  | _ => none

/-- Reading undoes writing. -/
theorem unescape_escape (s : List Char) : unescape (escape s) = s := by
  fun_induction escape s with
  | case1 => rfl
  | case2 rest ih => simp [unescape, ih]
  | case3 rest ih => simp [unescape, ih]
  | case4 rest ih => simp [unescape, ih]
  | case5 c rest backslash _ _ ih =>
    have : c ≠ '\\' := fun h => backslash h
    simp [unescape, ih, this]

end AnswerSet.Text
