import Lexeme.Text.WordChar
import Lexeme.Regex.CharClass

/-! Regular expressions matched by backtracking. The meaning of an expression at a position is the
list of ends it can reach, in the order in which backtracking tries them. Main statement: searching
with a continuation visits exactly these ends in this order. -/

namespace Lexeme

/-- Regular expressions with ordered choice, greedy repetition and two zero-width tests. -/
inductive Regex where
  | empty
  | never
  | one (k : CharClass)
  | boundary
  | seq (a b : Regex)
  | alt (a b : Regex)
  | notAhead (r : Regex)
  | rep (r : Regex) (low : Nat) (high : Option Nat)
deriving Repr

namespace Regex

/-- The expression that matches the given characters one after another. -/
def chars : List Char → Regex
  | [] => .empty
  | c :: cs => .seq (.one (.single c)) (chars cs)

/-! ### Ends in the order of backtracking -/

/-- A word character stands at position `i`. -/
def wordAt (t : Array Char) (i : Nat) : Bool := t[i]?.any WordChar.isWord

/-- Exactly one side of position `i` is a word character. -/
def atBoundary (t : Array Char) (i : Nat) : Bool :=
  (i != 0 && wordAt t (i - 1)) != wordAt t i

/-- Exactly `n` rounds of `body`. -/
def times (body : Nat → List Nat) : Nat → Nat → List Nat
  | 0, i => [i]
  | n + 1, i => (body i).flatMap (times body n)

/-- At most `n` rounds of `body`, more rounds first. A round that consumes nothing is the last. -/
def greedy (body : Nat → List Nat) : Nat → Nat → List Nat
  | 0, i => [i]
  | n + 1, i => ((body i).flatMap fun j => if j = i then [i] else greedy body n j) ++ [i]

/-- Rounds that may follow the first `low` ones at position `i`; without an upper bound, as many
as there are characters left. -/
def spareRounds (t : Array Char) (low : Nat) (high : Option Nat) (i : Nat) : Nat :=
  match high with
  | some h => h - low
  | none => t.size - i

/-- Every end that the expression reaches from position `i`, in the order of backtracking. -/
def ends (t : Array Char) : Regex → Nat → List Nat
  | .empty, i => [i]
  | .never, _ => []
  | .one k, i => if t[i]?.any k.test then [i + 1] else []
  | .boundary, i => if atBoundary t i then [i] else []
  | .seq a b, i => (ends t a i).flatMap (ends t b)
  | .alt a b, i => ends t a i ++ ends t b i
  | .notAhead r, i => if (ends t r i).isEmpty then [i] else []
  | .rep r low high, i =>
    (times (ends t r) low i).flatMap fun j => greedy (ends t r) (spareRounds t low high j) j

/-! ### Searching with a continuation -/

/-- Searches through exactly `n` rounds of `body`. -/
def timesFind {α : Type} (body : Nat → (Nat → Option α) → Option α) :
    Nat → Nat → (Nat → Option α) → Option α
  | 0, i, k => k i
  | n + 1, i, k => body i fun j => timesFind body n j k

/-- Searches through at most `n` rounds of `body`, more rounds first. -/
def greedyFind {α : Type} (body : Nat → (Nat → Option α) → Option α) :
    Nat → Nat → (Nat → Option α) → Option α
  | 0, i, k => k i
  | n + 1, i, k =>
    match body i fun j => if j = i then k i else greedyFind body n j k with
    | some a => some a
    | none => k i

/-- The first answer of `k` on the ends of the expression; later ends are not computed. -/
def find {α : Type} (t : Array Char) : Regex → Nat → (Nat → Option α) → Option α
  | .empty, i, k => k i
  | .never, _, _ => none
  | .one c, i, k => if t[i]?.any c.test then k (i + 1) else none
  | .boundary, i, k => if atBoundary t i then k i else none
  | .seq a b, i, k => find t a i fun j => find t b j k
  | .alt a b, i, k =>
    match find t a i k with
    | some x => some x
    | none => find t b i k
  | .notAhead r, i, k =>
    match find t r i fun _ => some PUnit.unit with
    | some _ => none
    | none => k i
  | .rep r low high, i, k =>
    timesFind (fun p c => find t r p c) low i fun j =>
      greedyFind (fun p c => find t r p c) (spareRounds t low high j) j k

private theorem findSome?_flatMap {α β γ : Type} (f : α → List β) (k : β → Option γ)
    (l : List α) : (l.flatMap f).findSome? k = l.findSome? fun a => (f a).findSome? k := by
  induction l with
  | nil => rfl
  | cons a l ih =>
    rw [List.flatMap_cons, List.findSome?_append, List.findSome?_cons, ih]
    cases (f a).findSome? k <;> simp

theorem timesFind_eq {α : Type} {body : Nat → List Nat}
    {search : Nat → (Nat → Option α) → Option α}
    (h : ∀ i k, search i k = (body i).findSome? k) (n i : Nat) (k : Nat → Option α) :
    timesFind search n i k = (times body n i).findSome? k := by
  induction n generalizing i with
  | zero => simp [timesFind, times]
  | succ n ih => simp only [timesFind, times, h, ih, findSome?_flatMap]

theorem greedyFind_eq {α : Type} {body : Nat → List Nat}
    {search : Nat → (Nat → Option α) → Option α}
    (h : ∀ i k, search i k = (body i).findSome? k) (n i : Nat) (k : Nat → Option α) :
    greedyFind search n i k = (greedy body n i).findSome? k := by
  induction n generalizing i with
  | zero => simp [greedyFind, greedy]
  | succ n ih =>
    have hround : (fun j => if j = i then k i else greedyFind search n j k) =
        fun j => (if j = i then [i] else greedy body n j).findSome? k := by
      funext j
      by_cases hj : j = i
      · simp [hj]
      · simp [hj, ih]
    rw [greedyFind, h, hround, greedy, List.findSome?_append, findSome?_flatMap]
    cases (body i).findSome? fun j => (if j = i then [i] else greedy body n j).findSome? k <;>
      simp

/-- The search sees the ends of the expression in their order. -/
theorem find_eq {α : Type} (t : Array Char) (r : Regex) (i : Nat) (k : Nat → Option α) :
    r.find t i k = (r.ends t i).findSome? k := by
  induction r generalizing i α with
  | empty => simp [find, ends]
  | never => simp [find, ends]
  | one c => by_cases h : t[i]?.any c.test <;> simp [find, ends, h]
  | boundary => by_cases h : atBoundary t i <;> simp [find, ends, h]
  | seq a b iha ihb => simp only [find, ends, iha, ihb, findSome?_flatMap]
  | alt a b iha ihb =>
    simp only [find, ends, iha, ihb, List.findSome?_append]
    cases (a.ends t i).findSome? k <;> simp
  | notAhead r ih =>
    simp only [find, ends, ih]
    cases h : r.ends t i <;> simp
  | rep r low high ih =>
    have hr : ∀ i k, (fun p (c : Nat → Option α) => r.find t p c) i k = (r.ends t i).findSome? k :=
      fun i k => ih i k
    simp only [find, ends]
    rw [timesFind_eq hr, findSome?_flatMap]
    simp only [greedyFind_eq hr]

end Regex

end Lexeme
