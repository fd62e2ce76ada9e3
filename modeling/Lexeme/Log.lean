import Lexeme.Lexer

/-! What a run reports to the log. -/

namespace Lexeme.Log

/-- A line of the log and the logger that wrote it. -/
structure Entry where
  logger : String
  message : String
deriving DecidableEq, Repr

/-- The level of every line. -/
def level : String := "DEBUG"

/-- The name under which all loggers stand. -/
def rootName : String := "clex"

/-- A logger name below the root name. -/
def loggerName (name : String) : String :=
  if name == rootName || (rootName ++ ".").toList.isPrefixOf name.toList then name
  else rootName ++ "." ++ name

def lexerLogger : String := loggerName "lexer.core"

def resolutionLogger : String := loggerName "lexer.disambiguator"

/-- The matches of each category, by marker index. -/
def countText (spans : List Span) : String :=
  let counts := Matching.countByCategory spans
  let shown := Category.all.filterMap fun c =>
    (counts.lookup c).map fun n => c.name ++ "=" ++ toString n
  ", ".intercalate shown

def spanText (s : Span) : String :=
  s.category.name ++ " " ++ toString s.start ++ ":" ++ toString s.stop

/-- The line on the matches in a source of the given length. -/
def matchedEntry (length : Nat) (matched : List Span) : Entry :=
  ⟨lexerLogger, "matched " ++ toString matched.length ++ " spans in " ++ toString length ++
    " chars: " ++ countText matched⟩

/-- The lines of a run: the matches, each rule that removed spans, each span dropped by the repair,
and the number of these. -/
def entries (r : Run) : List Entry :=
  let removals := (r.resolution.removals.filter (·.2 ≠ 0)).map fun (name, n) =>
    (⟨resolutionLogger, "rule " ++ name ++ " removed " ++ toString n ++ " spans"⟩ : Entry)
  let drops := r.resolution.dropped.map fun (s, top) =>
    (⟨resolutionLogger, "dropping " ++ spanText s ++ " crossing " ++ spanText top⟩ : Entry)
  let total : List Entry :=
    if r.resolution.repaired = 0 then []
    else [⟨lexerLogger, "repair pass dropped " ++ toString r.resolution.repaired ++
      " crossing spans"⟩]
  matchedEntry r.length r.matched :: removals ++ drops ++ total

end Lexeme.Log
