import AnswerSet.Rule.Render

/-!
# What a statement is written from

The text of a statement consists of fixed symbols and of what its leaves are
written as, which are predicates of atoms and terms. They are listed here in the
order in which they are written. A choice writes its lower bound in front of its
set, for example, and an exact number behind it. Values of constant fields are
not written and are no leaves. The terms of a penalty are written as well, but
strings among them come without quotes, so they are listed apart.

Emptying a statement replaces the contents of every string in it by nothing,
except in the terms of a penalty, and leaves all else as it is. Two statements
that become the same by emptying differ in the contents of strings only.
-/

namespace AnswerSet

/-- A place of a statement where it depends on more than its shape. -/
inductive Leaf where
  /-- The predicate of an atom. -/
  | predicate (schema : Schema)
  /-- A term, which is written as a literal if it is a string. -/
  | term (term : Term)

/-- The string that is written as a literal. -/
def Leaf.str? : Leaf → Option String
  | .term t => t.str?
  | _ => none

/-- The strings that are written as literals, in order. -/
def strings (leaves : List Leaf) : List String := leaves.filterMap Leaf.str?

@[simp] theorem strings_nil : strings [] = [] := rfl

@[simp] theorem strings_append (leaves others : List Leaf) :
    strings (leaves ++ others) = strings leaves ++ strings others := List.filterMap_append

@[simp] theorem strings_predicate (schema : Schema) (leaves : List Leaf) :
    strings (.predicate schema :: leaves) = strings leaves := rfl

/-! ## Leaves in order -/

mutual

/-- The leaves of an atom: its predicate, then those of its written values. -/
def Atom.leaves : Atom → List Leaf
  | ⟨schema, values⟩ => .predicate schema :: writtenLeaves schema.fields values

def writtenLeaves : List Field → List FieldValue → List Leaf
  | field :: fields, value :: values =>
    -- constants are part of the schema and are not written
    if field.isConstant then writtenLeaves fields values
    else value.leaves ++ writtenLeaves fields values
  | _, _ => []

def FieldValue.leaves : FieldValue → List Leaf
  | .term term => [.term term]
  | .atom atom => atom.leaves

end

mutual

/-- The leaves of a literal, whatever it is built from. -/
def Literal.leaves : Literal → List Leaf
  | ⟨_, target⟩ => target.leaves

def Target.leaves : Target → List Leaf
  | .atom atom => atom.leaves
  | .comparison left _ right => [.term left, .term right]
  | .aggregate aggregate => aggregate.leaves

def Aggregate.leaves : Aggregate → List Leaf
  | ⟨_, source, none⟩ => source.leaves
  -- the bound is written behind the set
  | ⟨_, source, some (_, bound)⟩ => source.leaves ++ [.term bound]

def Source.leaves : Source → List Leaf
  | .literals literals => Literal.leavesAll literals
  | .conditional conditional => conditional.leaves

def ConditionalLiteral.leaves : ConditionalLiteral → List Leaf
  | ⟨entries⟩ => Entry.leavesAll entries

def Entry.leaves : Entry → List Leaf
  | ⟨elements, condition⟩ => Element.leavesAll elements ++ Literal.leavesAll condition

def Element.leaves : Element → List Leaf
  | .term term => [.term term]
  | .literal literal => literal.leaves

def Literal.leavesAll : List Literal → List Leaf
  | [] => []
  | literal :: literals => literal.leaves ++ Literal.leavesAll literals

def Entry.leavesAll : List Entry → List Leaf
  | [] => []
  | entry :: entries => entry.leaves ++ Entry.leavesAll entries

def Element.leavesAll : List Element → List Leaf
  | [] => []
  | element :: elements => element.leaves ++ Element.leavesAll elements

end

def Clause.leaves : Clause → List Leaf
  | .literal l => l.leaves
  | .conditional c => c.leaves

def ChoiceSet.leaves : ChoiceSet → List Leaf
  | .literal l => l.leaves
  | .literals ls => Literal.leavesAll ls
  | .conditional c => c.leaves

def boundLeaves (bound : Option Term) : List Leaf := (bound.map Leaf.term).toList

/-- The leaves of a choice, its bounds where they are written. -/
def Choice.leaves : Choice → List Leaf
  | ⟨set, .exactly count⟩ => set.leaves ++ [.term count]
  | ⟨set, .within atLeast atMost⟩ => boundLeaves atLeast ++ set.leaves ++ boundLeaves atMost

/-- The leaves of a penalty, up to the terms that are written bare. -/
def Penalty.leaves (penalty : Penalty) : List Leaf := [.term penalty.weight, .term penalty.level]

def Constraint.leaves : Constraint → List Leaf
  | .hard => []
  | .soft penalty => penalty.leaves

/-- The leaves of a statement. Program text has none. -/
def Definition.leaves : Definition → List Leaf
  | .guess ⟨choice, body⟩ => choice.leaves ++ body.flatMap Clause.leaves
  | .define ⟨disjunction, body⟩ =>
    disjunction.heads.flatMap Clause.leaves ++ body.flatMap Clause.leaves
  -- a constraint has its penalty behind the body
  | .assert ⟨constraint, body⟩ => body.flatMap Clause.leaves ++ constraint.leaves
  | .raw _ => []

/-- The terms of a statement's penalty. -/
def Definition.bareTerms : Definition → List Term
  | .assert ⟨.soft penalty, _⟩ => penalty.terms
  | _ => []

/-! ## Emptying all strings -/

/-- The term without the contents of a string. -/
def Term.emptied : Term → Term
  | .str _ => .str ""
  | term => term

mutual

/-- The schema without the contents of the strings in its constants. -/
def Schema.emptied : Schema → Schema
  | ⟨predicate, fields⟩ => ⟨predicate, emptiedFields fields⟩

def emptiedFields : List Field → List Field
  | [] => []
  | ⟨name, kind⟩ :: fields => ⟨name, kind.emptied⟩ :: emptiedFields fields

def FieldKind.emptied : FieldKind → FieldKind
  | .atom schema => .atom schema.emptied
  | .constant value => .constant value.emptied
  | .scalar kind => .scalar kind
  | .any => .any

end

mutual

/-- The atom without the contents of its strings, those in its schema included. -/
def Atom.emptied : Atom → Atom
  | ⟨schema, values⟩ => ⟨schema.emptied, emptiedValues values⟩

def emptiedValues : List FieldValue → List FieldValue
  | [] => []
  | value :: values => value.emptied :: emptiedValues values

def FieldValue.emptied : FieldValue → FieldValue
  | .term term => .term term.emptied
  | .atom atom => .atom atom.emptied

end

mutual

/-- The literal without the contents of its strings. -/
def Literal.emptied : Literal → Literal
  | ⟨polarity, target⟩ => ⟨polarity, target.emptied⟩

def Target.emptied : Target → Target
  | .atom atom => .atom atom.emptied
  | .comparison left operator right => .comparison left.emptied operator right.emptied
  | .aggregate aggregate => .aggregate aggregate.emptied

def Aggregate.emptied : Aggregate → Aggregate
  | ⟨kind, source, bound⟩ =>
    ⟨kind, source.emptied, bound.map fun (operator, term) => (operator, term.emptied)⟩

def Source.emptied : Source → Source
  | .literals literals => .literals (Literal.emptiedAll literals)
  | .conditional conditional => .conditional conditional.emptied

def ConditionalLiteral.emptied : ConditionalLiteral → ConditionalLiteral
  | ⟨entries⟩ => ⟨Entry.emptiedAll entries⟩

def Entry.emptied : Entry → Entry
  | ⟨elements, condition⟩ => ⟨Element.emptiedAll elements, Literal.emptiedAll condition⟩

def Element.emptied : Element → Element
  | .term term => .term term.emptied
  | .literal literal => .literal literal.emptied

def Literal.emptiedAll : List Literal → List Literal
  | [] => []
  | literal :: literals => literal.emptied :: Literal.emptiedAll literals

def Entry.emptiedAll : List Entry → List Entry
  | [] => []
  | entry :: entries => entry.emptied :: Entry.emptiedAll entries

def Element.emptiedAll : List Element → List Element
  | [] => []
  | element :: elements => element.emptied :: Element.emptiedAll elements

end

def Clause.emptied : Clause → Clause
  | .literal l => .literal l.emptied
  | .conditional c => .conditional c.emptied

def ChoiceSet.emptied : ChoiceSet → ChoiceSet
  | .literal l => .literal l.emptied
  | .literals ls => .literals (Literal.emptiedAll ls)
  | .conditional c => .conditional c.emptied

def ChoiceBounds.emptied : ChoiceBounds → ChoiceBounds
  | .exactly count => .exactly count.emptied
  | .within atLeast atMost => .within (atLeast.map Term.emptied) (atMost.map Term.emptied)

def Choice.emptied (choice : Choice) : Choice := ⟨choice.set.emptied, choice.bounds.emptied⟩

/-- The constraint without the contents of its strings, but with the terms of its penalty. -/
def Constraint.emptied : Constraint → Constraint
  | .hard => .hard
  -- the terms are written bare, so they stay
  | .soft penalty => .soft { penalty with
      weight := penalty.weight.emptied, level := penalty.level.emptied }

/-- The statement without the contents of its strings, but with the terms of its penalty. -/
def Definition.emptied : Definition → Definition
  | .guess ⟨choice, body⟩ => .guess ⟨choice.emptied, body.map Clause.emptied⟩
  | .define ⟨⟨heads⟩, body⟩ => .define ⟨⟨heads.map Clause.emptied⟩, body.map Clause.emptied⟩
  | .assert ⟨constraint, body⟩ => .assert ⟨constraint.emptied, body.map Clause.emptied⟩
  | .raw text => .raw text

/-- Is the statement program text as it is? -/
def Definition.isRaw : Definition → Bool
  | .raw _ => true
  | _ => false

end AnswerSet
