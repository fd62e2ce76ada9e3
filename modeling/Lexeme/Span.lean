import Lexeme.Category
import Lexeme.Sorting
import Lexeme.Text.Slice

/-! Spans: regions of a text with a category. Nothing is assumed of the two ends; an empty,
inverted or negative span is a value like any other. Main statement: document order is linear. -/

namespace Lexeme

/-- The region from `start` up to and without `stop`. -/
structure Span where
  category : Category
  start : Int
  stop : Int
deriving DecidableEq, Repr

namespace Span

/-- Why a span has no length. -/
inductive LengthFault where
  | inverted
  | tooLong
deriving DecidableEq, Repr

def LengthFault.message : LengthFault → String
  | .inverted => "__len__() should return >= 0"
  | .tooLong => "cannot fit 'int' into an index-sized integer"

/-- The number of characters from start to stop, which has to fit a signed word of 64 bits. -/
def length? (s : Span) : Except LengthFault Nat :=
  if s.stop < s.start then .error .inverted
  else if s.stop - s.start < Int.pow 2 63 then .ok (s.stop - s.start).toNat
  else .error .tooLong

/-- The text that a span covers. -/
def text (s : Span) (t : Array Char) : String := Slice.slice t s.start s.stop

/-- `b` lies within `a`; equal extents count. -/
def Contains (a b : Span) : Prop := a.start ≤ b.start ∧ b.stop ≤ a.stop

/-- The spans share a character. -/
def Overlaps (a b : Span) : Prop := a.start < b.stop ∧ b.start < a.stop

/-- The spans overlap and neither lies within the other. -/
def Crosses (a b : Span) : Prop := a.Overlaps b ∧ ¬ a.Contains b ∧ ¬ b.Contains a

/-- The spans begin and end at the same positions. -/
def SameExtent (a b : Span) : Prop := a.start = b.start ∧ a.stop = b.stop

instance (a b : Span) : Decidable (a.Contains b) := inferInstanceAs (Decidable (_ ∧ _))
instance (a b : Span) : Decidable (a.Overlaps b) := inferInstanceAs (Decidable (_ ∧ _))
instance (a b : Span) : Decidable (a.Crosses b) := inferInstanceAs (Decidable (_ ∧ _))
instance (a b : Span) : Decidable (a.SameExtent b) := inferInstanceAs (Decidable (_ ∧ _))

/-! ### Document order -/

/-- By start, the longer first, then by the rank of the category. -/
def sortKey (s : Span) : List Int := [s.start, -s.stop, s.category.precedence]

/-- Spans in document order. -/
def sort (spans : List Span) : List Span := Sorting.sortBy sortKey spans

theorem sortKey_inj {a b : Span} (h : a.sortKey = b.sortKey) : a = b := by
  obtain ⟨c, s, e⟩ := a
  obtain ⟨c', s', e'⟩ := b
  simp only [sortKey, List.cons.injEq, and_true] at h
  obtain ⟨h1, h2, h3⟩ := h
  have hc : c = c' := Category.precedence_inj (by omega)
  have he : e = e' := by omega
  subst h1 hc he
  rfl

@[simp] theorem mem_sort {s : Span} {spans : List Span} : s ∈ sort spans ↔ s ∈ spans :=
  Sorting.mem_sortBy

theorem sort_perm (spans : List Span) : (sort spans).Perm spans := Sorting.sortBy_perm _ _

end Span

end Lexeme
