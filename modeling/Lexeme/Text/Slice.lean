/-! Cutting a text at integer positions. A negative position counts from the end, and positions
beyond either end stand for that end. -/

namespace Lexeme.Slice

/-- The position in a text of `n` characters that the integer `i` stands for. -/
def position (n : Nat) (i : Int) : Nat :=
  if i < 0 then (i + n).toNat else min i.toNat n

/-- The characters between two positions. -/
def slice (t : Array Char) (a b : Int) : String :=
  String.ofList (t.extract (position t.size a) (position t.size b)).toList

theorem position_of_le {n : Nat} {i : Int} (h0 : 0 ≤ i) (h : i ≤ n) : position n i = i.toNat := by
  unfold position
  split <;> omega

end Lexeme.Slice
