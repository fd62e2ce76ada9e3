import Lexeme.Text.Blank
import Lexeme.Text.DecimalDigit
import Lexeme.Text.Digits
import Lexeme.Text.WordChar

/-! Character classes of regular expressions, and the reader of their bracket bodies. A body is a
sequence of characters, escapes and ranges, all negated by a leading circumflex. Characters are
written by their numbers, by their names or as they are, and three sets and their complements by a
letter. -/

namespace Lexeme

/-- A set of characters given by ranges, or the complement of one. -/
structure CharClass where
  negated : Bool
  ranges : List CodeRange
deriving DecidableEq, Repr

namespace CharClass

def test (k : CharClass) (c : Char) : Bool :=
  CodeRange.anyContains k.ranges c != k.negated

/-- The class of exactly one character. -/
def single (c : Char) : CharClass := ⟨false, [CodeRange.single c]⟩

/-- White space, written `\s`. -/
def blank : CharClass := ⟨false, Blank.ranges⟩

@[simp] theorem test_single (c d : Char) : (single c).test d = decide (d = c) := by
  have h : d.toNat = c.toNat ↔ d = c := Char.toNat_inj
  have h' : (c.toNat ≤ d.toNat ∧ d.toNat ≤ c.toNat) ↔ d = c := by rw [← h]; omega
  simp [test, single, CodeRange.anyContains, CodeRange.contains, CodeRange.single,
    ← Bool.decide_and, h']

@[simp] theorem test_blank (c : Char) : blank.test c = Blank.isBlank c := by
  simp [test, blank, Blank.isBlank]

/-! ### Sets with a letter of their own -/

/-- The set that a small letter names: decimal digits, white space or word characters. -/
def namedSet? : Char → Option (List CodeRange)
  | 'd' => some DecimalDigit.ranges
  | 's' => some Blank.ranges
  | 'w' => some WordChar.allRanges
  | _ => none

/-- The set that a letter stands for after a backslash; a capital letter stands for the complement
of what the small one names. -/
def setEscape? (c : Char) : Option (List CodeRange) :=
  match namedSet? c with
  | some named => some named
  | none => (namedSet? c.toLower).map CodeRange.complement

theorem ascending_of_namedSet? {c : Char} {ranges : List CodeRange}
    (h : namedSet? c = some ranges) : CodeRange.ascending 0 ranges = true := by
  unfold namedSet? at h
  split at h <;> cases h <;> decide +kernel

/-- The sets of a small letter and of its capital letter are complements. -/
theorem setEscape?_capital {c : Char} {ranges : List CodeRange} (hc : namedSet? c = none)
    (h : setEscape? c = some ranges) : ∃ named, namedSet? c.toLower = some named ∧
      ∀ d, CodeRange.anyContains ranges d = !CodeRange.anyContains named d := by
  rw [setEscape?, hc] at h
  obtain ⟨named, hnamed, rfl⟩ := Option.map_eq_some_iff.mp h
  exact ⟨named, hnamed, CodeRange.anyContains_complement (ascending_of_namedSet? hnamed)⟩

/-- The letters of the word characters divide the characters as a word boundary does. -/
theorem word_escapes : ∃ word other, setEscape? 'w' = some word ∧ setEscape? 'W' = some other ∧
    ∀ c, CodeRange.anyContains word c = WordChar.isWord c ∧
      CodeRange.anyContains other c = !WordChar.isWord c := by
  obtain ⟨named, hnamed, hother⟩ := setEscape?_capital (c := 'W') rfl rfl
  obtain rfl : WordChar.allRanges = named := Option.some.inj hnamed
  refine ⟨_, _, rfl, rfl, fun c => ⟨WordChar.anyContains_allRanges c, ?_⟩⟩
  rw [hother, WordChar.anyContains_allRanges]

end CharClass

/-! ### Reading a bracket body -/

/-- The characters that have a name, each with its code point. The table is data of a Unicode
version and stays open here. -/
class CharNames where
  codePoint : List Char → Option Nat

/-- The empty table, for texts that name no character. -/
instance (priority := low) CharNames.empty : CharNames := ⟨fun _ => none⟩

namespace CharClass

/-- One element of a class body: a code point, which may open a range, or a set of them. -/
inductive Item where
  | point (n : Nat)
  | set (ranges : List CodeRange)
deriving DecidableEq, Repr

def Item.ranges : Item → List CodeRange
  | .point n => [⟨n, n⟩]
  | .set rs => rs

/-- The range between two elements, if both are code points and the first one is not greater. -/
def Item.rangeTo? : Item → Item → Option CodeRange
  | .point a, .point b => if a ≤ b then some ⟨a, b⟩ else none
  | _, _ => none

/-- A code point written with digits of a base, between `least` and `most` of them and as many as
there are. -/
def readPoint (base least most bound : Nat) (cs : List Char) : Option (Item × List Char) :=
  let ds := (Digits.splitUpTo base most cs).1
  if least ≤ ds.length ∧ Digits.valueOf base ds ≤ bound then
    some (.point (Digits.valueOf base ds), (Digits.splitUpTo base most cs).2)
  else none

/-- A code point written by its name between braces. -/
def readNamed [CharNames] : List Char → Option (Item × List Char)
  | '\x7b' :: cs =>
    match cs.dropWhile (· != '\x7d') with
    | [] => none
    | _ :: rest =>
      (CharNames.codePoint (cs.takeWhile (· != '\x7d'))).map fun n => (.point n, rest)
  | _ => none

/-- The character that a backslash before `c` stands for, outside the escapes with a meaning of
their own. Letters and digits have no such plain escape. -/
def plainEscape (c : Char) : Option Char :=
  match c with
  | 'n' => some '\n'
  | 't' => some '\t'
  | 'r' => some '\r'
  | 'f' => some '\x0c'
  | 'v' => some '\x0b'
  | 'a' => some '\x07'
  | _ => if c.isAlphanum then none else some c

/-- What stands after a backslash, as far as it means the same inside and outside of a class: two,
four or eight hexadecimal digits, a name, a set or a single character. -/
def readEscape [CharNames] : List Char → Option (Item × List Char)
  | [] => none
  | 'x' :: rest => readPoint 16 2 2 0x10FFFF rest
  | 'u' :: rest => readPoint 16 4 4 0x10FFFF rest
  | 'U' :: rest => readPoint 16 8 8 0x10FFFF rest
  | 'N' :: rest => readNamed rest
  | c :: rest =>
    match setEscape? c with
    | some rs => some (.set rs, rest)
    | none => (plainEscape c).map fun d => (.point d.toNat, rest)

/-- What stands after a backslash inside a class, where `b` is the backspace character and up to
three octal digits are a code point. -/
def readClassEscape [CharNames] : List Char → Option (Item × List Char)
  | 'b' :: rest => some (.point 0x08, rest)
  | cs => if cs.head?.any Char.isDigit then readPoint 8 1 3 0xFF cs else readEscape cs

/-- Reads one element. -/
def readItem [CharNames] : List Char → Option (Item × List Char)
  | [] => none
  | '\\' :: rest => readClassEscape rest
  | c :: rest => some (.point c.toNat, rest)

/-- Ranges of the elements up to the closing bracket, and the text after it. A bracket that comes
first is an element, and so is a hyphen at either edge. -/
def readItems [CharNames] : Nat → Bool → List Char → Option (List CodeRange × List Char)
  | 0, _, _ => none
  | fuel + 1, first, cs =>
    match cs, first with
    | ']' :: rest, false => some ([], rest)
    | _, _ => do
      let (item, rest) ← readItem cs
      match rest with
      | '-' :: ']' :: rest => some (item.ranges ++ [.single '-'], rest)
      | '-' :: rest =>
        let (last, rest) ← readItem rest
        let range ← item.rangeTo? last
        let (more, rest) ← readItems fuel false rest
        some (range :: more, rest)
      | _ =>
        let (more, rest) ← readItems fuel false rest
        some (item.ranges ++ more, rest)

/-- Reads a class after its opening bracket, up to and with the closing one. -/
def read [CharNames] (cs : List Char) : Option (CharClass × List Char) :=
  match cs with
  | '^' :: rest => (readItems (rest.length + 1) true rest).map fun (rs, r) => (⟨true, rs⟩, r)
  | _ => (readItems (cs.length + 1) true cs).map fun (rs, r) => (⟨false, rs⟩, r)

/-- The class whose bracket body is the given text, if the text is one class body. -/
def ofBody? [CharNames] (body : String) : Option CharClass :=
  match read (body.toList ++ [']']) with
  | some (k, []) => some k
  | _ => none

end CharClass

end Lexeme
