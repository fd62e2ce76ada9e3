import Lexeme.Category
import Lexeme.Sorting

/-! Rules for nested matches: a span of an inner category that lies inside a span of an outer
category is no token of its own. Rules are applied in the order of a table, since each one changes
what the next one sees. -/

namespace Lexeme

/-- Spans of the categories `inner` are absorbed by spans of the categories `outer`. An exhaustive
rule follows every inner span at once, any other rule only the one that began last. -/
structure Rule where
  outer : List Category
  inner : List Category
  exhaustive : Bool
  name : String
  outer_ne_nil : outer ≠ []
  inner_ne_nil : inner ≠ []
  disjoint : ∀ c ∈ outer, c ∉ inner
deriving DecidableEq, Repr

namespace Rule

/-- All categories of a rule, by marker index. -/
def categories (r : Rule) : List Category := Category.normalize (r.outer ++ r.inner)

/-- Names of categories in the order of their characters. -/
def sortedNames (cs : List Category) : List String :=
  Sorting.sort (fun a b => decide (a ≤ b)) (cs.map Category.name)

/-- One side of a rule name: a single category by its name, several in braces. -/
def sideName (cs : List Category) : String :=
  match sortedNames cs with
  | [n] => n
  | ns => "\x7b" ++ ",".intercalate ns ++ "\x7d"

/-- The name of a rule that was given none. -/
def defaultName (outer inner : List Category) : String :=
  sideName outer ++ ">" ++ sideName inner

/-- Why two sets of categories make no rule. -/
inductive Fault where
  | emptySide
  | shared (cs : List Category)
deriving DecidableEq, Repr

def Fault.message : Fault → String
  | .emptySide => "a rule needs outer and inner categories"
  | .shared cs => ", ".intercalate (sortedNames cs) ++ " cannot be both outer and inner"

/-- The categories on both sides. -/
def shared (outer inner : List Category) : List Category := outer.filter (inner.contains ·)

theorem disjoint_of_shared_eq_nil {outer inner : List Category} (h : shared outer inner = []) :
    ∀ c ∈ outer, c ∉ inner := by
  simpa [shared] using h

/-- The rule between two collections of categories; an empty name stands for the default one. -/
def make? (outer inner : List Category) (exhaustive : Bool) (name : String) :
    Except Fault Rule :=
  let out := Category.normalize outer
  let inn := Category.normalize inner
  if ho : out = [] then .error .emptySide
  else if hi : inn = [] then .error .emptySide
  else if hs : shared out inn = [] then
    .ok ⟨out, inn, exhaustive, if name.isEmpty then defaultName out inn else name, ho, hi,
      disjoint_of_shared_eq_nil hs⟩
  else .error (.shared (shared out inn))

/-- A rule under its default name. -/
def make (outer inner : List Category) (exhaustive : Bool) (ho : outer ≠ [] := by decide)
    (hi : inner ≠ [] := by decide) (hd : ∀ c ∈ outer, c ∉ inner := by decide) : Rule :=
  ⟨outer, inner, exhaustive, defaultName outer inner, ho, hi, hd⟩

/-! ### Tables -/

/-- The precedence table of the C11 categories. Enumeration specifiers absorb all they hold. -/
def c11 : List Rule :=
  [make [.keyword] [.identifier] false,
   make [.string] [.identifier] false,
   make [.identifier] [.integer] false,
   make [.floating] [.integer] false,
   make [.string] [.keyword] false,
   make [.string] [.punctuator] false,
   make [.floating, .character] [.punctuator] false,
   make [.character, .string] [.integer] false,
   make [.string] [.floating] false,
   make [.character] [.identifier] false,
   make [.enumeration] [.keyword, .identifier, .integer, .punctuator] true]

/-- Nested matches that the first table leaves, such as the suffix of a floating constant, which is
an identifier as well. -/
def supplementary : List Rule :=
  [make [.identifier] [.floating] false,
   make [.floating] [.identifier] false,
   make [.integer] [.identifier] false,
   make [.string] [.enumeration, .character] true,
   make [.character] [.keyword, .floating, .enumeration] true,
   make [.enumeration] [.floating] false]

/-- The table that is used if no other is given. -/
def standard : List Rule := c11 ++ supplementary

end Rule

end Lexeme
