/-! Runs of digits in a text: cutting them off, reading their value and writing hexadecimal ones.
Main statements: decimal numbers are read as they are written, and a run that something follows is
cut off alike when the text goes on. -/

namespace Lexeme.Digits

/-- The decimal digits at the head of a text and what follows them. -/
def split (cs : List Char) : List Char × List Char :=
  (cs.takeWhile Char.isDigit, cs.dropWhile Char.isDigit)

/-- The value of a run of decimal digits. -/
def value (ds : List Char) : Nat := ds.foldl (fun n d => 10 * n + (d.toNat - '0'.toNat)) 0

/-- At least `width` hexadecimal digits. -/
def hex (width n : Nat) : List Char :=
  let digits := Nat.toDigits 16 n
  List.replicate (width - digits.length) '0' ++ digits

def hexValue? (c : Char) : Option Nat :=
  if '0' ≤ c ∧ c ≤ '9' then some (c.toNat - '0'.toNat)
  else if 'a' ≤ c ∧ c ≤ 'f' then some (c.toNat - 'a'.toNat + 10)
  else if 'A' ≤ c ∧ c ≤ 'F' then some (c.toNat - 'A'.toNat + 10)
  else none

/-- The digits of a base at the head of a text, at most `n` of them, and what follows them. -/
def splitUpTo (base : Nat) : Nat → List Char → List Nat × List Char
  | n + 1, c :: cs =>
    match (hexValue? c).filter (· < base) with
    | some d => ((splitUpTo base n cs).1.cons d, (splitUpTo base n cs).2)
    | none => ([], c :: cs)
  | _, cs => ([], cs)

/-- The value of digits of a base. -/
def valueOf (base : Nat) (ds : List Nat) : Nat := ds.foldl (fun n d => base * n + d) 0

theorem split_append (cs : List Char) : (split cs).1 ++ (split cs).2 = cs :=
  List.takeWhile_append_dropWhile

/-- A run of digits is cut off up to what follows it. -/
theorem split_of_digits {ds rest : List Char} (hds : ∀ d ∈ ds, d.isDigit = true)
    (hrest : ∀ c ∈ rest.head?, c.isDigit = false) : split (ds ++ rest) = (ds, rest) := by
  rw [split, List.takeWhile_append_of_pos hds, List.dropWhile_append_of_pos hds]
  cases rest with
  | nil => simp
  | cons c rest => simp [hrest c rfl]

/-- Digits that something follows are the same digits in a text that goes on. -/
theorem splitUpTo_append {base n : Nat} {cs : List Char} (h : (splitUpTo base n cs).2 ≠ [])
    (more : List Char) : splitUpTo base n (cs ++ more) =
      ((splitUpTo base n cs).1, (splitUpTo base n cs).2 ++ more) := by
  induction n generalizing cs with
  | zero => rfl
  | succ n ih =>
    cases cs with
    | nil => exact absurd rfl h
    | cons c cs =>
      rw [List.cons_append, splitUpTo, splitUpTo]
      rw [splitUpTo] at h
      cases hd : (hexValue? c).filter (· < base) with
      | none => rfl
      | some d =>
        rw [hd] at h
        simp only [ih h]

/-! ### Written numbers -/

theorem value_toDigits (n : Nat) : value (Nat.toDigits 10 n) = n :=
  Nat.ofDigitChars_toDigits (by decide) (by decide)

theorem split_toDigits (n : Nat) (rest : List Char) (hrest : ∀ c ∈ rest.head?, c.isDigit = false) :
    split (Nat.toDigits 10 n ++ rest) = (Nat.toDigits 10 n, rest) :=
  split_of_digits (fun _ hd => Nat.isDigit_of_mem_toDigits (by decide) (by decide) hd) hrest

/-- A number is written without zeros before it. -/
theorem exists_toDigits_cons (n : Nat) :
    ∃ d ds, Nat.toDigits 10 n = d :: ds ∧ d.isDigit = true ∧ (0 < n → d ≠ '0') := by
  induction n using Nat.strongRecOn with
  | ind n ih =>
    rcases Nat.lt_or_ge n 10 with hsmall | hbig
    · have hall : ∀ k < 10, (Nat.digitChar k).isDigit = true ∧ (0 < k → Nat.digitChar k ≠ '0') := by
        decide
      exact ⟨_, [], Nat.toDigits_of_lt_base hsmall, hall n hsmall⟩
    · obtain ⟨d, ds, hdigits, hd, hzero⟩ := ih (n / 10) (by omega)
      refine ⟨d, ds ++ [Nat.digitChar (n % 10)], ?_, hd, fun _ => hzero (by omega)⟩
      rw [Nat.toDigits_of_base_le (by decide) hbig, hdigits, List.cons_append]

end Lexeme.Digits
