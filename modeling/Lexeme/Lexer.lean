import Lexeme.Markup.Basic
import Lexeme.Config
import Lexeme.Html
import Lexeme.Matching
import Lexeme.Resolution
import Lexeme.Token.Basic

/-! The lexer: all categories are matched, the rules are applied, and the surviving spans become
tokens, an annotated text or HTML. No text is refused. -/

namespace Lexeme

/-- One run over a source: its length, the matches and how they were resolved. -/
structure Run where
  length : Nat
  matched : List Span
  resolution : Resolution
deriving DecidableEq, Repr

/-- The surviving spans in document order. -/
def Run.spans (r : Run) : List Span := Span.sort r.resolution.spans

namespace Lexer

/-- Matches and resolves a source. -/
def run (config : Config) (source : String) : Run :=
  let t := source.toList.toArray
  let matched := Matching.spansOfAll t config.categories
  ⟨t.size, matched, Resolution.resolve config.rules config.repairs matched⟩

/-- The surviving spans of a source in document order. -/
def spans (config : Config) (source : String) : List Span := (run config source).spans

/-- The tokens of the given spans of a source. -/
def tokensOf (source : String) (sourceFile : Option String) (spans : List Span) : List Token :=
  let t := source.toList.toArray
  let index := LineIndex.ofText source.toList
  spans.map (Token.ofSpan t index sourceFile)

/-- The tokens of a source in document order, outer ones before those inside them. -/
def tokenize (config : Config) (source : String) (sourceFile : Option String) : List Token :=
  tokensOf source sourceFile (spans config source)

/-- The source with a pair of markers around every token. -/
def lex (config : Config) (source : String) : String :=
  Markup.annotate source (spans config source)

/-- The source as HTML with one element for every token. -/
def render (config : Config) (classes : List (Category × String)) (source : String) : String :=
  Html.Style.render { Html.Style.standard with classes } (lex config source)

end Lexer

end Lexeme
