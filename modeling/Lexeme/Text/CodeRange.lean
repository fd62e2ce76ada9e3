/-! Closed ranges of code points and lists of them. Every character class of the library is such a
list, possibly negated: regular expressions, word characters, white space, unprintable characters.
Main statement: the gaps of ascending ranges are their complement. -/

namespace Lexeme

/-- The code points from `first` to `last`, both included. -/
structure CodeRange where
  first : Nat
  last : Nat
deriving DecidableEq, Repr

namespace CodeRange

/-- The range of one character. -/
def single (c : Char) : CodeRange := ⟨c.toNat, c.toNat⟩

def contains (r : CodeRange) (c : Char) : Bool :=
  r.first ≤ c.toNat && c.toNat ≤ r.last

/-- Some range of the list holds the character. -/
def anyContains (ranges : List CodeRange) (c : Char) : Bool :=
  ranges.any (·.contains c)

theorem contains_iff {r : CodeRange} {c : Char} :
    r.contains c = true ↔ r.first ≤ c.toNat ∧ c.toNat ≤ r.last := by
  simp [contains]

theorem anyContains_iff {ranges : List CodeRange} {c : Char} :
    anyContains ranges c = true ↔ ∃ r ∈ ranges, r.first ≤ c.toNat ∧ c.toNat ≤ r.last := by
  simp [anyContains, contains_iff]

@[simp] theorem anyContains_nil (c : Char) : anyContains [] c = false := rfl

@[simp] theorem anyContains_append (a b : List CodeRange) (c : Char) :
    anyContains (a ++ b) c = (anyContains a c || anyContains b c) := by
  simp [anyContains]

/-! ### Complements -/

/-- The ranges stand in ascending order, apart from each other and none before `next`. -/
def ascending : Nat → List CodeRange → Bool
  | _, [] => true
  | next, r :: rs => next ≤ r.first && r.first ≤ r.last && ascending (r.last + 1) rs

/-- The code points from `next` on that ascending ranges leave out. -/
def gaps : Nat → List CodeRange → List CodeRange
  | next, [] => [⟨next, 0x10FFFF⟩]
  | next, r :: rs =>
    if next < r.first then ⟨next, r.first - 1⟩ :: gaps (r.last + 1) rs else gaps (r.last + 1) rs

/-- All code points outside of ascending ranges. -/
def complement (ranges : List CodeRange) : List CodeRange := gaps 0 ranges

@[simp] theorem anyContains_cons (r : CodeRange) (ranges : List CodeRange) (c : Char) :
    anyContains (r :: ranges) c = (r.contains c || anyContains ranges c) := rfl

theorem le_of_ascending {ranges : List CodeRange} {next : Nat} {c : Char}
    (h : ascending next ranges = true) (hc : anyContains ranges c = true) : next ≤ c.toNat := by
  induction ranges generalizing next with
  | nil => cases hc
  | cons r rs ih =>
    simp only [ascending, Bool.and_eq_true, decide_eq_true_eq] at h
    rw [anyContains_cons, Bool.or_eq_true, contains_iff] at hc
    rcases hc with hc | hc
    · omega
    · have := ih h.2 hc
      omega

theorem anyContains_gaps {ranges : List CodeRange} {next : Nat} {c : Char}
    (h : ascending next ranges = true) :
    anyContains (gaps next ranges) c = true ↔ next ≤ c.toNat ∧ anyContains ranges c = false := by
  induction ranges generalizing next with
  | nil =>
    have hlast : c.toNat ≤ 0x10FFFF := by
      have hvalid : c.toNat < 0xD800 ∨ 0xDFFF < c.toNat ∧ c.toNat < 0x110000 := c.valid
      omega
    simp [gaps, contains_iff, hlast]
  | cons r rs ih =>
    simp only [ascending, Bool.and_eq_true, decide_eq_true_eq] at h
    -- The ranges after `r` hold nothing up to its end.
    have hrest : c.toNat ≤ r.last → anyContains rs c = false := by
      intro hc
      rw [← Bool.not_eq_true]
      intro hrs
      have := le_of_ascending h.2 hrs
      omega
    have hgap : anyContains (gaps next (r :: rs)) c = true ↔
        (next ≤ c.toNat ∧ c.toNat < r.first) ∨ anyContains (gaps (r.last + 1) rs) c = true := by
      rw [gaps]
      split
      · rw [anyContains_cons, Bool.or_eq_true, contains_iff]
        refine or_congr_left ?_
        dsimp only
        omega
      · next hnext => exact (or_iff_right (by omega)).symm
    rw [hgap, ih h.2, anyContains_cons, Bool.or_eq_false_iff, ← Bool.not_eq_true (r.contains c),
      contains_iff]
    constructor
    · rintro (⟨hnext, hfirst⟩ | ⟨hlast, hrs⟩)
      · exact ⟨hnext, by omega, hrest (by omega)⟩
      · exact ⟨by omega, by omega, hrs⟩
    · rintro ⟨hnext, hout, hrs⟩
      by_cases hfirst : c.toNat < r.first
      · exact .inl ⟨hnext, hfirst⟩
      · exact .inr ⟨by omega, hrs⟩

/-- The complement of ascending ranges holds the characters that they do not hold. -/
theorem anyContains_complement {ranges : List CodeRange} (h : ascending 0 ranges = true)
    (c : Char) : anyContains (complement ranges) c = !anyContains ranges c := by
  rw [Bool.eq_iff_iff, complement, anyContains_gaps h]
  simp

end CodeRange

end Lexeme
