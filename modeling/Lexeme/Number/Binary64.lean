/-! Floating-point numbers of 64 bits as exact integers, read from decimals and written with the
fewest digits that read back. All arithmetic is exact; nothing rests on machine floats. -/

namespace Lexeme

/-- A number `mantissa * 2 ^ exponent` with a sign, or one of the values beyond the numbers. -/
inductive Binary64 where
  | nan
  | infinite (negative : Bool)
  | finite (negative : Bool) (mantissa : Nat) (exponent : Int)
deriving DecidableEq, Repr

namespace Binary64

def zero (negative : Bool) : Binary64 := .finite negative 0 (-1074)

/-- The integer nearest to a quotient; a half goes to the even neighbour. -/
def roundQuotient (num den : Nat) : Nat :=
  let q := num / den
  let r := num % den
  if 2 * r < den then q
  else if den < 2 * r then q + 1
  else q + q % 2

/-- Numerator and denominator of `num / den * base ^ e`. -/
def scale (num den base : Nat) (e : Int) : Nat × Nat :=
  if 0 ≤ e then (num * Nat.pow base e.toNat, den)
  else (num, den * Nat.pow base (-e).toNat)

/-- The largest `e` with `2 ^ e ≤ num / den`, for a positive quotient. -/
def binaryExponent (num den : Nat) : Int :=
  let e : Int := (num.log2 : Int) - den.log2
  let (n, d) := scale num den 2 (-e)
  if d ≤ n then e else e - 1

/-- The number nearest to a quotient; beyond the largest one it is infinite. -/
def ofQuotient (negative : Bool) (num den : Nat) : Binary64 :=
  if num = 0 then zero negative
  else
    let e := max (-1074) (binaryExponent num den - 52)
    let (n, d) := scale num den 2 (-e)
    let m := roundQuotient n d
    let (m, e) := if m = Nat.pow 2 53 then (Nat.pow 2 52, e + 1) else (m, e)
    if 971 < e then .infinite negative else .finite negative m e

/-- The number nearest to `digits * 10 ^ e`. -/
def ofDecimal (negative : Bool) (digits : Nat) (e : Int) : Binary64 :=
  let size := (Nat.toDigits 10 digits).length + e
  if digits = 0 ∨ size < -330 then zero negative
  else if 310 < size then .infinite negative
  else
    let (n, d) := scale digits 1 10 e
    ofQuotient negative n d

/-! ### Shortest digits -/

/-- The number of digits before the decimal point of a quotient; zero or less below one tenth. -/
def pointPosition (num den : Nat) : Int :=
  if den ≤ num then (Nat.toDigits 10 (num / den)).length
  else
    match (List.range 340).find? fun j => den ≤ num * Nat.pow 10 (j + 1) with
    | some j => -(j : Int)
    | none => 0

/-- A decimal with `n` digits that reads back as `x`: the nearer of the two neighbours of
`num / den`, if one of them does. The result is the digits and the exponent of the last one. -/
def neighbour? (x : Binary64) (negative : Bool) (num den : Nat) (point : Int) (n : Nat) :
    Option (Nat × Int) :=
  let e := point - n
  let (a, b) := scale num den 10 (-e)
  let low := a / b
  let reads (d : Nat) : Bool := ofDecimal negative d e = x
  if reads low && reads (low + 1) then some (roundQuotient a b, e)
  else if reads low then some (low, e)
  else if reads (low + 1) then some (low + 1, e)
  else none

/-- The fewest digits that read back, and the position of the decimal point among them. -/
def shortest (negative : Bool) (m : Nat) (e : Int) : List Char × Int :=
  let (num, den) := scale m 1 2 e
  let point := pointPosition num den
  let found := (List.range 17).findSome? fun n =>
    neighbour? (.finite negative m e) negative num den point (n + 1)
  let (digits, last) := found.getD (0, 0)
  let text := Nat.toDigits 10 digits
  ((text.reverse.dropWhile (· == '0')).reverse, text.length + last)

/-! ### Text -/

/-- Digits with a point: positional up to sixteen places before the point and three zeros behind
it, and otherwise with an exponent of at least two digits. -/
def layout (digits : List Char) (point : Int) : List Char :=
  if -4 < point ∧ point ≤ 16 then
    if point ≤ 0 then ['0', '.'] ++ List.replicate (-point).toNat '0' ++ digits
    else if digits.length ≤ point.toNat then
      digits ++ List.replicate (point.toNat - digits.length) '0' ++ ['.', '0']
    else digits.take point.toNat ++ '.' :: digits.drop point.toNat
  else
    let e := point - 1
    let exponent := Nat.toDigits 10 e.natAbs
    let fraction := if digits.length ≤ 1 then [] else '.' :: digits.drop 1
    digits.take 1 ++ fraction ++ ['e', if e < 0 then '-' else '+'] ++
      List.replicate (2 - exponent.length) '0' ++ exponent

/-- The text of a number; `nan` and `inf` name the values beyond the numbers. -/
def text : Binary64 → String
  | .nan => "nan"
  | .infinite negative => if negative then "-inf" else "inf"
  | .finite negative m e =>
    let body :=
      if m = 0 then ['0', '.', '0']
      else
        let (digits, point) := shortest negative m e
        layout digits point
    String.ofList (if negative then '-' :: body else body)

end Binary64

end Lexeme
