import Lexeme.Markup.Basic

/-! Reports on markers that do not pair up. -/

namespace Lexeme.Markup

/-- A message about a place in a text; what is not known of the place is left out. -/
structure Report where
  message : String
  offset : Option Int
  line : Option Int
  column : Option Int
deriving DecidableEq, Repr

/-- The message after line and column. A column without a line is not shown. -/
def Report.text (r : Report) : String :=
  match r.line, r.column with
  | none, _ => r.message
  | some l, none => toString l ++ " " ++ r.message
  | some l, some c => toString l ++ ":" ++ toString c ++ " " ++ r.message

def Cause.text : Cause → String
  | .openedTwice => "opened twice"
  | .closedUnopened => "closed without being opened"
  | .neverClosed => "never closed"

/-- The report of a fault in an annotated text. -/
def Fault.report (text : String) (f : Fault) : Report :=
  let (line, column) := (LineIndex.ofText (strip text).toList).position f.offset
  ⟨f.category.name ++ " " ++ f.cause.text, some f.offset, some line, some column⟩

end Lexeme.Markup
