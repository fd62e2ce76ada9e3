import Lexeme.Span

/-! Repair of overlaps: spans are visited in document order, and one that crosses a kept span or
has its extent is dropped. A stack of the kept spans that are still open is all that has to be
seen. -/

namespace Lexeme

/-- The outcome of a repair: the kept spans in document order, and each dropped span with the kept
one that it conflicts with. -/
structure Repair where
  kept : List Span
  dropped : List (Span × Span)
deriving DecidableEq, Repr

namespace Repair

/-- The span cannot be nested in `top`. -/
def Conflicts (top s : Span) : Prop := top.stop < s.stop ∨ s.SameExtent top

instance (top s : Span) : Decidable (Conflicts top s) := inferInstanceAs (Decidable (_ ∨ _))

/-- The kept spans that are still open where `s` starts, innermost first. -/
def openAt (stack : List Span) (s : Span) : List Span := stack.dropWhile (·.stop ≤ s.start)

/-- Visits spans in document order over a stack of kept spans. -/
def visit : List Span → List Span → Repair
  | _, [] => ⟨[], []⟩
  | stack, s :: rest =>
    match openAt stack s with
    | [] =>
      let r := visit [s] rest
      { r with kept := s :: r.kept }
    | top :: below =>
      if Conflicts top s then
        let r := visit (top :: below) rest
        { r with dropped := (s, top) :: r.dropped }
      else
        let r := visit (s :: top :: below) rest
        { r with kept := s :: r.kept }

/-- The repair of a list of spans in any order. -/
def run (spans : List Span) : Repair := visit [] (Span.sort spans)

theorem visit_kept_sublist (stack spans : List Span) :
    (visit stack spans).kept.Sublist spans := by
  induction spans generalizing stack with
  | nil => simp [visit]
  | cons s rest ih =>
    rw [visit]
    split
    · exact (ih _).cons_cons s
    · split
      · exact (ih _).cons s
      · exact (ih _).cons_cons s

/-- Every visited span is kept or dropped. -/
theorem visit_length (stack spans : List Span) :
    (visit stack spans).kept.length + (visit stack spans).dropped.length = spans.length := by
  induction spans generalizing stack with
  | nil => rfl
  | cons s rest ih =>
    rw [visit]
    split
    · have := ih [s]
      simp only [List.length_cons]
      omega
    · split
      · rename_i top below _ _
        have := ih (top :: below)
        simp only [List.length_cons]
        omega
      · rename_i top below _ _
        have := ih (s :: top :: below)
        simp only [List.length_cons]
        omega

end Repair

end Lexeme
