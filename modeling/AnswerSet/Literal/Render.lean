import AnswerSet.Literal.Basic

/-!
# Writing literals

An aggregate is written with its set in braces and its bound behind it. It has
to have a bound, and its set must not be empty; the bound is looked at first. A
conditional literal has to have an entry. Whatever is missing anywhere in a
literal keeps the whole of it from being written, and the error is the first one
from left to right.
-/

namespace AnswerSet

/-- A count, a sum, a least or a greatest value: its name, its set and its bound. -/
def aggregateText (kind : AggregateKind) (set : String) (operator : ComparisonOperator)
    (bound : Term) : String :=
  "#" ++ kind.name ++ "\x7b" ++ set ++ "\x7d " ++ operator.symbol ++ " " ++ bound.text

/-- A tuple and, unless it is empty, its condition. -/
def entryText (elements : List String) : (condition : List String) → String
  | [] => ",".intercalate elements
  | condition => ",".intercalate elements ++ " : " ++ ", ".intercalate condition

mutual

/-- Write a literal. -/
def Literal.render : Literal → Except RenderError String
  | ⟨polarity, target⟩ => do return polarity.marker ++ (← target.render)

/-- Write a target. -/
def Target.render : Target → Except RenderError String
  | .atom atom => .ok atom.text
  | .comparison left operator right =>
    .ok (left.text ++ " " ++ operator.symbol ++ " " ++ right.text)
  | .aggregate aggregate => aggregate.render

/-- Write an aggregate. -/
def Aggregate.render : Aggregate → Except RenderError String
  | ⟨kind, _, none⟩ => .error (.missingBound kind)
  | ⟨kind, source, some (operator, bound)⟩ => do
    return aggregateText kind (← source.render kind) operator bound

/-- Write the set of an aggregate. -/
def Source.render (kind : AggregateKind) : Source → Except RenderError String
  | .literals [] => .error (.emptyLiteralSet kind)
  | .literals (literal :: literals) => do
    let first ← literal.render
    return "; ".intercalate (first :: (← Literal.renderAll literals))
  | .conditional conditional => conditional.render

/-- Write a conditional literal. -/
def ConditionalLiteral.render : ConditionalLiteral → Except RenderError String
  | ⟨[]⟩ => .error .emptyConditional
  | ⟨entry :: entries⟩ => do
    let first ← entry.render
    return "; ".intercalate (first :: (← Entry.renderAll entries))

/-- Write an entry. -/
def Entry.render : Entry → Except RenderError String
  | ⟨elements, condition⟩ => do
    let tuple ← Element.renderAll elements
    return entryText tuple (← Literal.renderAll condition)

/-- Write one place of a tuple. -/
def Element.render : Element → Except RenderError String
  | .term term => .ok term.text
  | .literal literal => literal.render

/-- Write literals in order. -/
def Literal.renderAll : List Literal → Except RenderError (List String)
  | [] => .ok []
  | literal :: literals => do
    let first ← literal.render
    return first :: (← Literal.renderAll literals)

/-- Write entries in order. -/
def Entry.renderAll : List Entry → Except RenderError (List String)
  | [] => .ok []
  | entry :: entries => do
    let first ← entry.render
    return first :: (← Entry.renderAll entries)

/-- Write the places of a tuple in order. -/
def Element.renderAll : List Element → Except RenderError (List String)
  | [] => .ok []
  | element :: elements => do
    let first ← element.render
    return first :: (← Element.renderAll elements)

end

/-! ## Writing in order is writing each -/

theorem Literal.renderAll_eq_mapM : ∀ literals : List Literal,
    Literal.renderAll literals = literals.mapM Literal.render
  | [] => by simp [Literal.renderAll]; rfl
  | _ :: literals => by simp [Literal.renderAll, Literal.renderAll_eq_mapM literals]

theorem Entry.renderAll_eq_mapM : ∀ entries : List Entry,
    Entry.renderAll entries = entries.mapM Entry.render
  | [] => by simp [Entry.renderAll]; rfl
  | _ :: entries => by simp [Entry.renderAll, Entry.renderAll_eq_mapM entries]

theorem Element.renderAll_eq_mapM : ∀ elements : List Element,
    Element.renderAll elements = elements.mapM Element.render
  | [] => by simp [Element.renderAll]; rfl
  | _ :: elements => by simp [Element.renderAll, Element.renderAll_eq_mapM elements]

end AnswerSet
