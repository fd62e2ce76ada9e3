import Lexeme.Repair
import Lexeme.Suppression
import Lexeme.Tally

/-! A table of rules applied in order, followed by the repair of what still overlaps. The outcome
also says how many spans each rule took and which spans the repair dropped. -/

namespace Lexeme

/-- The surviving spans, the number of spans that each application of a rule removed, and the spans
that the repair dropped, each with the span in its way. -/
structure Resolution where
  spans : List Span
  removals : List (String × Nat)
  dropped : List (Span × Span)
deriving DecidableEq, Repr

namespace Resolution

/-- The rules one after another: what is left, and what each of them removed. -/
def applyRules : List Rule → List Span → List Span × List (String × Nat)
  | [], spans => (spans, [])
  | r :: rules, spans =>
    let left := Suppression.suppress r spans
    let (final, removals) := applyRules rules left
    (final, (r.name, spans.length - left.length) :: removals)

/-- The resolution of a list of spans by a table of rules, with or without repair. -/
def resolve (rules : List Rule) (repair : Bool) (spans : List Span) : Resolution :=
  let (left, removals) := applyRules rules spans
  if repair then
    let r := Repair.run left
    ⟨r.kept, removals, r.dropped⟩
  else ⟨left, removals, []⟩

/-- Removals by rule name, in the order in which the names are first seen. -/
def removedByRule (r : Resolution) : List (String × Nat) := Tally.addAll [] r.removals

/-- The number of spans that the repair dropped. -/
def repaired (r : Resolution) : Nat := r.dropped.length

/-- The number of spans that rules and repair took together. -/
def suppressed (r : Resolution) : Nat := r.removedByRule.foldr (fun p n => p.2 + n) r.repaired

end Resolution

end Lexeme
