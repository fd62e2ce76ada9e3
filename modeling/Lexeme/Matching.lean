import Lexeme.Grammar.Basic
import Lexeme.Span
import Lexeme.Tally

/-! Matching: every category is matched by itself against the whole text, so that matches of
different categories may overlap. -/

namespace Lexeme.Matching

/-- The matches of one category from left to right; an empty match is none. -/
def spansOf (t : Array Char) (c : Category) : List Span :=
  (((Grammar.regex c).allMatches t).filter fun p => p.1 < p.2).map fun p => ⟨c, p.1, p.2⟩

/-- The matches of the given categories in document order. -/
def spansOfAll (t : Array Char) (cs : List Category) : List Span :=
  Span.sort ((Category.normalize cs).flatMap (spansOf t))

def matchCategory (source : String) (c : Category) : List Span := spansOf source.toList.toArray c

def matchAll (source : String) (cs : List Category) : List Span :=
  spansOfAll source.toList.toArray cs

/-- The number of spans of each category, in the order in which the categories are first seen. -/
def countByCategory (spans : List Span) : List (Category × Nat) :=
  Tally.addAll [] (spans.map fun s => (s.category, 1))

end Lexeme.Matching
