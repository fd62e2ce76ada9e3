import Lexeme.Regex.Basic

/-! Matching a whole text: at one position, to the end, leftmost, and all matches from left to
right. A scan resumes where the last match ended; after an empty match a longer one may begin at
the same place. -/

namespace Lexeme.Regex

/-- The end that backtracking finds first from position `i`. -/
def matchAt (r : Regex) (t : Array Char) (i : Nat) : Option Nat := r.find t i some

/-- The expression matches the whole text, with backtracking until it does. -/
def fullMatch (r : Regex) (t : Array Char) : Bool :=
  (r.find t 0 fun j => if j = t.size then some j else none).isSome

/-- The leftmost match at one of `n` positions from `i` on. -/
def searchFrom (r : Regex) (t : Array Char) : Nat → Nat → Option (Nat × Nat)
  | 0, _ => none
  | n + 1, i =>
    match r.matchAt t i with
    | some j => some (i, j)
    | none => searchFrom r t n (i + 1)

def search (r : Regex) (t : Array Char) : Option (Nat × Nat) := searchFrom r t (t.size + 1) 0

/-- The first end from position `i` that is not `i` itself. -/
def advanceAt (r : Regex) (t : Array Char) (i : Nat) : Option Nat :=
  r.find t i fun j => if j = i then none else some j

/-- The matches at `n` positions from `i` on, none of them before `resume`. -/
def matchesFrom (r : Regex) (t : Array Char) : Nat → Nat → Nat → List (Nat × Nat)
  | 0, _, _ => []
  | n + 1, i, resume =>
    if i < resume then matchesFrom r t n (i + 1) resume
    else
      match r.matchAt t i with
      | none => matchesFrom r t n (i + 1) resume
      | some j =>
        if i < j then (i, j) :: matchesFrom r t n (i + 1) j
        else
          match r.advanceAt t i with
          | none => (i, i) :: matchesFrom r t n (i + 1) resume
          | some j => (i, i) :: (i, j) :: matchesFrom r t n (i + 1) j

/-- All matches of a text from left to right, empty ones included. -/
def allMatches (r : Regex) (t : Array Char) : List (Nat × Nat) := matchesFrom r t (t.size + 1) 0 0

theorem matchAt_eq_head? (r : Regex) (t : Array Char) (i : Nat) :
    r.matchAt t i = (r.ends t i).head? := by
  rw [matchAt, find_eq]
  cases r.ends t i <;> rfl

theorem fullMatch_iff (r : Regex) (t : Array Char) :
    r.fullMatch t = true ↔ t.size ∈ r.ends t 0 := by
  simp [fullMatch, find_eq, List.findSome?_isSome_iff]

end Lexeme.Regex
