/-! Texts as sequences of code points. A string holds characters only, while escapes can write a
surrogate that is not part of a pair; a text holds both. Main statement: strings are exactly the
texts without surrogates. -/

namespace Lexeme

/-- A character, or a surrogate given by its distance from the first one. -/
inductive CodePoint where
  | char (c : Char)
  | surrogate (i : Fin 0x800)
deriving DecidableEq, Repr

namespace CodePoint

/-- The first surrogate. -/
def surrogateBase : Nat := 0xD800

def value : CodePoint → Nat
  | .char c => c.toNat
  | .surrogate i => surrogateBase + i

/-- The code point of a number; a number beyond the last code point gives the null character. -/
def ofNat (n : Nat) : CodePoint :=
  if h : surrogateBase ≤ n ∧ n < surrogateBase + 0x800 then
    .surrogate ⟨n - surrogateBase, by omega⟩
  else .char (Char.ofNat n)

/-- The character that is shown; a surrogate has none and is replaced. -/
def shown : CodePoint → Char
  | .char c => c
  | .surrogate _ => '\ufffd'

end CodePoint

/-- A sequence of code points. -/
structure Text where
  points : List CodePoint
deriving DecidableEq, Repr

namespace Text

def ofString (s : String) : Text := ⟨s.toList.map .char⟩

instance : Coe String Text := ⟨ofString⟩

instance : Append Text := ⟨fun a b => ⟨a.points ++ b.points⟩⟩

/-- The number of code points. -/
def length (t : Text) : Nat := t.points.length

def isEmpty (t : Text) : Bool := t.points.isEmpty

/-- The first `n` code points. -/
def take (n : Nat) (t : Text) : Text := ⟨t.points.take n⟩

/-- The characters of code points among which there is no surrogate. -/
def chars? : List CodePoint → Option (List Char)
  | [] => some []
  | .char c :: rest => (chars? rest).map (c :: ·)
  | .surrogate _ :: _ => none

/-- The string of a text without surrogates. -/
def string? (t : Text) : Option String := (chars? t.points).map String.ofList

/-- The string of a text, with surrogates replaced. -/
def shown (t : Text) : String := String.ofList (t.points.map CodePoint.shown)

/-- Texts are ordered by their code points. -/
def le (a b : Text) : Bool :=
  !(b.points.map CodePoint.value).lex (a.points.map CodePoint.value) fun m n => m < n

theorem chars?_map_char (cs : List Char) : chars? (cs.map .char) = some cs := by
  induction cs with
  | nil => rfl
  | cons c cs ih => simp [chars?, ih]

theorem map_char_of_chars? {ps : List CodePoint} {cs : List Char} (h : chars? ps = some cs) :
    cs.map .char = ps := by
  induction ps generalizing cs with
  | nil =>
    cases h
    rfl
  | cons p ps ih =>
    cases p with
    | char c =>
      obtain ⟨ds, hd, rfl⟩ := Option.map_eq_some_iff.mp h
      simp [ih hd]
    | surrogate i => cases h

@[simp] theorem string?_ofString (s : String) : (ofString s).string? = some s := by
  simp [string?, ofString, chars?_map_char]

theorem string?_eq_some_iff {t : Text} {s : String} : t.string? = some s ↔ t = ofString s := by
  constructor
  · intro h
    obtain ⟨cs, hc, rfl⟩ := Option.map_eq_some_iff.mp h
    simp [ofString, map_char_of_chars? hc]
  · rintro rfl
    simp

theorem ofString_inj {a b : String} : ofString a = ofString b ↔ a = b := by
  constructor
  · intro h
    have hs := congrArg string? h
    simpa using hs
  · rintro rfl
    rfl

theorem ofString_beq (a b : String) : (ofString a == ofString b) = (a == b) := by
  rw [Bool.eq_iff_iff, beq_iff_eq, beq_iff_eq, ofString_inj]

end Text

end Lexeme
