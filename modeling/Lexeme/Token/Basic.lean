import Lexeme.Location
import Lexeme.Span

/-! Tokens: the lexemes of a source with their coordinates. -/

namespace Lexeme

/-- A classified lexeme. Lines and columns count from one, offsets from zero. -/
structure Token where
  category : Category
  value : String
  start : Int
  stop : Int
  line : Int
  column : Int
  endLine : Option Int
  endColumn : Option Int
  sourceFile : Option String
deriving DecidableEq, Repr

namespace Token

def span (t : Token) : Span := ⟨t.category, t.start, t.stop⟩

def location (t : Token) : Location :=
  ⟨t.line, t.column, t.start, t.stop, t.endLine, t.endColumn, t.sourceFile⟩

/-- The token of a span of a source. -/
def ofSpan (source : Array Char) (index : LineIndex) (sourceFile : Option String) (s : Span) :
    Token :=
  let (line, column) := index.position s.start
  let (endLine, endColumn) := index.position s.stop
  ⟨s.category, s.text source, s.start, s.stop, line, column, some endLine, some endColumn,
    sourceFile⟩

end Token

end Lexeme
