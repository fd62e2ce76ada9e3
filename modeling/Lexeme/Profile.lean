import Lexeme.Lexer

/-! Totals over runs of the lexer. -/

namespace Lexeme

/-- Totals over the runs recorded so far, with the removals of each rule by its name. -/
structure Profile where
  calls : Int
  sourceLength : Int
  matched : Int
  suppressed : Int
  emitted : Int
  ruleHits : List (String × Int)
deriving DecidableEq, Repr

namespace Profile

def empty : Profile := ⟨0, 0, 0, 0, 0, []⟩

/-- Adds one run; what was matched and not emitted was suppressed. -/
def record (p : Profile) (sourceLength matched emitted : Int) (hits : List (String × Int)) :
    Profile :=
  { calls := p.calls + 1
    sourceLength := p.sourceLength + sourceLength
    matched := p.matched + matched
    suppressed := p.suppressed + (matched - emitted)
    emitted := p.emitted + emitted
    ruleHits := Tally.addAll p.ruleHits hits }

/-- Adds a run of the lexer. -/
def recordRun (p : Profile) (r : Run) : Profile :=
  p.record r.length r.matched.length r.resolution.spans.length
    (r.resolution.removedByRule.map fun (name, n) => (name, (n : Int)))

/-- The rules that removed something. -/
def effectiveHits (p : Profile) : List (String × Int) := p.ruleHits.filter (·.2 ≠ 0)

/-- Counts by name from pairs; of two counts under one name the later one holds. -/
def hitsOfPairs (pairs : List (String × Int)) : List (String × Int) :=
  pairs.foldl (fun hits p => Tally.set p.1 p.2 hits) []

end Profile

end Lexeme
