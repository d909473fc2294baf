import AnswerSet.Literal.Render
import AnswerSet.Rule.Basic
import AnswerSet.Text.Blank

/-!
# Writing rules

A rule is its head, an arrow and its body, closed by a full stop. The arrow is
only written if the body comes out as text. A constraint starts with the arrow,
so its body must come out as text. A soft constraint has an arrow of its own and
its penalty in brackets behind the full stop.
-/

namespace AnswerSet

/-- Write a clause. -/
def Clause.render : Clause → Except RenderError String
  | .literal l => l.render
  | .conditional c => c.render

/-- Write clauses one after the other. -/
def renderClauses (separator : String) (clauses : List Clause) : Except RenderError String := do
  return separator.intercalate (← clauses.mapM Clause.render)

/-- A head, and a body behind the arrow unless it is empty. -/
def ruleText (head body : String) : String :=
  head ++ (if body.isEmpty then "" else " :- ") ++ body ++ "."

/-- Write a rule around the text of its head. -/
def renderRule (head : Except RenderError String) (body : List Clause) :
    Except RenderError String := do
  let head ← head
  return ruleText head (← renderClauses "; " body)

/-! ## Heads -/

/-- Write the set of a choice. -/
def ChoiceSet.render : ChoiceSet → Except RenderError String
  | .literal l => l.render
  | .literals ls => do return ";".intercalate (← ls.mapM Literal.render)
  | .conditional c => c.render

/-- The set within its bounds. -/
def ChoiceBounds.around (bounds : ChoiceBounds) (set : String) : String :=
  match bounds with
  | .exactly count => set ++ " = " ++ count.text
  | .within (some lo) (some hi) => lo.text ++ " <= " ++ set ++ " <= " ++ hi.text
  | .within (some lo) none => lo.text ++ " <= " ++ set
  | .within none (some hi) => set ++ " <= " ++ hi.text
  | .within none none => set

/-- Write a choice. -/
def Choice.render (choice : Choice) : Except RenderError String := do
  return choice.bounds.around ("\x7b" ++ (← choice.set.render) ++ "\x7d")

/-- Write alternatives. -/
def Disjunction.render (disjunction : Disjunction) : Except RenderError String :=
  renderClauses " | " disjunction.heads

/-- A distinguishing term of a penalty. Strings are written bare. -/
def Penalty.termText : Term → String
  | .str s => s
  | term => term.text

/-- A penalty in brackets. -/
def Penalty.text (penalty : Penalty) : String :=
  let cost := penalty.weight.text ++ "@" ++ penalty.level.text
  "[" ++ ",".intercalate (cost :: penalty.terms.map termText) ++ "]"

/-- A constraint around the text of its body. -/
def Constraint.around (constraint : Constraint) (body : String) : String :=
  match constraint with
  | .hard => ruleText "" body
  | .soft penalty => " :~ " ++ body ++ ". " ++ penalty.text

/-! ## Statements -/

/-- Write a choice rule. -/
def Rule.renderChoice (rule : Rule Choice) : Except RenderError String :=
  renderRule rule.head.render rule.body

/-- Write a normal or disjunctive rule. -/
def Rule.renderDisjunction (rule : Rule Disjunction) : Except RenderError String :=
  renderRule rule.head.render rule.body

/-- Write a constraint. -/
def Rule.renderConstraint (rule : Rule Constraint) : Except RenderError String := do
  let body ← renderClauses "; " rule.body
  if body.isEmpty then throw .emptyBody else return rule.head.around body

/-- Write a statement. -/
def Definition.render : Definition → Except RenderError String
  | .guess rule => rule.renderChoice
  | .define rule => rule.renderDisjunction
  | .assert rule => rule.renderConstraint
  | .raw text => .ok (Text.strip text)

end AnswerSet
