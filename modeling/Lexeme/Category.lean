/-! The eight token categories. Three attributes are fixed here: the position in the marker
alphabet, the rank that decides conflicts, and the class name used for styling. -/

namespace Lexeme

/-- Categories of lexemes, in the order of their marker index. -/
inductive Category where
  | keyword
  | identifier
  | integer
  | floating
  | enumeration
  | character
  | string
  | punctuator
deriving DecidableEq, Repr, Inhabited

namespace Category

/-- Every category once, by marker index. -/
def all : List Category :=
  [.keyword, .identifier, .integer, .floating, .enumeration, .character, .string, .punctuator]

/-- Position in the marker alphabet, from zero. -/
def index : Category → Nat
  | .keyword => 0
  | .identifier => 1
  | .integer => 2
  | .floating => 3
  | .enumeration => 4
  | .character => 5
  | .string => 6
  | .punctuator => 7

/-- Rank in conflicts; the lower one wins. -/
def precedence : Category → Nat
  | .enumeration => 0
  | .string => 1
  | .character => 2
  | .floating => 3
  | .keyword => 4
  | .identifier => 5
  | .integer => 6
  | .punctuator => 7

/-- The name under which a category is written in settings and stored tokens. -/
def name : Category → String
  | .keyword => "KEYWORD"
  | .identifier => "IDENTIFIER"
  | .integer => "INTEGER_CONSTANT"
  | .floating => "FLOAT_CONSTANT"
  | .enumeration => "ENUM_CONSTANT"
  | .character => "CHARACTER_CONSTANT"
  | .string => "STRING_LITERAL"
  | .punctuator => "PUNCTUATOR"

/-- The class name known to the style sheet. -/
def styleClass : Category → String
  | .keyword => "KEYWORDS"
  | .identifier => "IDENTIFIERS"
  | .integer => "CONSTANTS_INTEGER"
  | .floating => "CONSTANTS_FLOAT"
  | .enumeration => "CONSTANTS_ENUM"
  | .character => "CONSTANTS_CHARACTER"
  | .string => "STRING_LITERALS"
  | .punctuator => "PUNCTUATORS"

def ofName? (s : String) : Option Category := all.find? (·.name == s)

/-- The categories of a list, each once and by marker index. -/
def normalize (cs : List Category) : List Category := all.filter (cs.contains ·)

@[simp] theorem mem_all (c : Category) : c ∈ all := by cases c <;> decide

@[simp] theorem mem_normalize {c : Category} {cs : List Category} :
    c ∈ normalize cs ↔ c ∈ cs := by
  simp [normalize]

theorem precedence_inj {a b : Category} (h : a.precedence = b.precedence) : a = b := by
  revert h; cases a <;> cases b <;> decide

@[simp] theorem ofName?_name (c : Category) : ofName? c.name = some c := by
  cases c <;> decide

end Category

end Lexeme
