import Lexeme.Regex.Basic
import Lexeme.Text.Digits

/-! The reader of regular expressions. It accepts literal characters, escapes, bracket classes,
groups, negative look-ahead, alternation and greedy quantifiers; everything else is refused. -/

namespace Lexeme.Regex

/-- Bounds in braces, after the opening brace. A missing lower bound is zero. -/
def readBounds (cs : List Char) : Option ((Nat × Option Nat) × List Char) :=
  let (low, rest) := Digits.split cs
  match rest with
  | '\x7d' :: rest =>
    if low.isEmpty then none
    else some ((Digits.value low, some (Digits.value low)), rest)
  | ',' :: rest =>
    let (high, rest) := Digits.split rest
    match rest with
    | '\x7d' :: rest =>
      if high.isEmpty then some ((Digits.value low, none), rest)
      else some ((Digits.value low, some (Digits.value high)), rest)
    | _ => none
  | _ => none

/-- A quantifier at the head of a text. -/
def readQuantifier : List Char → Option ((Nat × Option Nat) × List Char)
  | '?' :: rest => some ((0, some 1), rest)
  | '*' :: rest => some ((0, none), rest)
  | '+' :: rest => some ((1, none), rest)
  | '\x7b' :: rest => readBounds rest
  | _ => none

/-- The escape after a backslash. Three octal digits are a character, and so is a zero with those
after it; no other number is read, as no group has one. -/
def readEscape [CharNames] : List Char → Option (Regex × List Char)
  | 'b' :: rest => some (.boundary, rest)
  | cs =>
    let item :=
      if cs.head?.any Char.isDigit then
        CharClass.readPoint 8 (if cs.head? = some '0' then 1 else 3) 3 0xFF cs
      else CharClass.readEscape cs
    item.map fun (item, rest) => (.one ⟨false, item.ranges⟩, rest)

/-- What stands at the head of a text cannot be repeated, as it only names a place. -/
def atAnchor : List Char → Bool
  | '\\' :: 'b' :: _ => true
  | _ => false

mutual

/-- Alternatives divided by bars. -/
def readAlternatives [CharNames] : Nat → List Char → Option (Regex × List Char)
  | 0, _ => none
  | fuel + 1, cs => do
    let (a, rest) ← readSequence fuel cs
    match rest with
    | '|' :: rest =>
      let (b, rest) ← readAlternatives fuel rest
      some (.alt a b, rest)
    | _ => some (a, rest)

/-- Quantified atoms one after another, up to a bar, a closing parenthesis or the end. An anchor has
no quantifier, and an upper bound is not less than the lower one. -/
def readSequence [CharNames] : Nat → List Char → Option (Regex × List Char)
  | 0, _ => none
  | fuel + 1, cs =>
    match cs with
    | [] => some (.empty, [])
    | '|' :: _ => some (.empty, cs)
    | ')' :: _ => some (.empty, cs)
    | _ => do
      let (a, rest) ← readAtom fuel cs
      match readQuantifier rest with
      | some ((low, high), rest) =>
        if atAnchor cs || high.any (· < low) then none
        else
          let (b, rest) ← readSequence fuel rest
          some (.seq (.rep a low high) b, rest)
      | none =>
        let (b, rest) ← readSequence fuel rest
        some (.seq a b, rest)

/-- A group, a class, an escape or a literal character. -/
def readAtom [CharNames] : Nat → List Char → Option (Regex × List Char)
  | 0, _ => none
  | fuel + 1, cs =>
    match cs with
    | '(' :: '?' :: ':' :: rest => do
      match ← readAlternatives fuel rest with
      | (r, ')' :: rest) => some (r, rest)
      | _ => none
    | '(' :: '?' :: '!' :: rest => do
      match ← readAlternatives fuel rest with
      | (r, ')' :: rest) => some (.notAhead r, rest)
      | _ => none
    | '[' :: rest => do
      let (k, rest) ← CharClass.read rest
      some (.one k, rest)
    | '\\' :: rest => readEscape rest
    | '\x7b' :: rest =>
      if (readBounds rest).isSome then none else some (.one (.single '\x7b'), rest)
    | c :: rest =>
      if c ∈ ['(', ')', '|', '*', '+', '?', '.', '^', '$'] then none
      else some (.one (.single c), rest)
    | [] => none

end

/-- The expression that a text denotes, if the whole text is one. -/
def ofText? [CharNames] (source : String) : Option Regex :=
  let cs := source.toList
  match readAlternatives (3 * cs.length + 3) cs with
  | some (r, []) => some r
  | _ => none

/-! ### Reading with a limit -/

/-- The bounds of a repetition have to be less. -/
def boundLimit : Nat := 0xFFFFFFFF

/-- Whether all bounds are below the limit. -/
def isBounded : Regex → Bool
  | .empty => true
  | .never => true
  | .one _ => true
  | .boundary => true
  | .seq a b => a.isBounded && b.isBounded
  | .alt a b => a.isBounded && b.isBounded
  | .notAhead r => r.isBounded
  | .rep r low high => r.isBounded && low < boundLimit && high.all (· < boundLimit)

/-- Why a text cannot be matched with. -/
inductive Fault where
  | malformed
  | tooManyRounds
deriving DecidableEq, Repr

/-- The expression that a text denotes, if all its bounds are below the limit. -/
def read [CharNames] (source : String) : Except Fault Regex :=
  match ofText? source with
  | none => .error .malformed
  | some r => if r.isBounded then .ok r else .error .tooManyRounds

end Lexeme.Regex
