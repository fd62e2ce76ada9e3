import Lexeme.Json.Basic
import Lexeme.Sorting

/-! Writing JSON values. The output is ASCII and the fields of an object are sorted by key, so that
equal values have equal texts. A value with a very long integer is not written, nor is any value
under an indentation that is no word of 64 bits. -/

namespace Lexeme.Json

/-- An escape of four hexadecimal digits. -/
def unitEscape (n : Nat) : List Char := ['\\', 'u'] ++ Digits.hex 4 n

/-- The written form of one character; beyond the basic plane it takes two units. -/
def escapeChar (c : Char) : List Char :=
  match c with
  | '"' => ['\\', '"']
  | '\\' => ['\\', '\\']
  | '\n' => ['\\', 'n']
  | '\r' => ['\\', 'r']
  | '\t' => ['\\', 't']
  | '\x0c' => ['\\', 'f']
  | '\x08' => ['\\', 'b']
  | _ =>
    if 0x20 ≤ c.toNat ∧ c.toNat < 0x7F then [c]
    else if c.toNat < 0x10000 then unitEscape c.toNat
    else
      let n := c.toNat - 0x10000
      unitEscape (0xD800 + n / 0x400) ++ unitEscape (0xDC00 + n % 0x400)

/-- The written form of one code point of a text. -/
def escapePoint : CodePoint → List Char
  | .char c => escapeChar c
  | .surrogate i => unitEscape (CodePoint.surrogate i).value

def writeText (s : Text) : List Char := '"' :: s.points.flatMap escapePoint ++ ['"']

def writeReal : Binary64 → List Char
  | .nan => "NaN".toList
  | .infinite negative => (if negative then "-Infinity" else "Infinity").toList
  | x => x.text.toList

/-- The indentation of a layout on several lines; without one all stands on one line. -/
abbrev Indent := Option Int

/-- What stands between a bracket and its contents at a depth. -/
def lineBreak (indent : Indent) (depth : Nat) : List Char :=
  match indent with
  | none => []
  | some n => '\n' :: List.replicate (n.toNat * depth) ' '

/-- What stands between two items at a depth. -/
def separator (indent : Indent) (depth : Nat) : List Char :=
  match indent with
  | none => [',', ' ']
  | some _ => ',' :: lineBreak indent depth

def sortFields (fields : List (Text × List Char)) : List (Text × List Char) :=
  Sorting.sort (fun a b => a.1.le b.1) fields

/-- Written items between brackets at a depth. -/
def enclose (indent : Indent) (depth : Nat) (opening closing : Char) (parts : List (List Char)) :
    List Char :=
  if parts.isEmpty then [opening, closing]
  else
    opening :: lineBreak indent (depth + 1) ++ (separator indent (depth + 1)).intercalate parts ++
      lineBreak indent depth ++ [closing]

mutual

/-- The written form of a value at a depth. -/
def write (indent : Indent) (depth : Nat) : Json → List Char
  | .null => "null".toList
  | .bool b => (if b then "true" else "false").toList
  | .int n => (toString n).toList
  | .real x => writeReal x
  | .text s => writeText s
  | .array items => enclose indent depth '[' ']' (writeItems indent (depth + 1) items)
  | .object fields =>
    let parts := sortFields (writeFields indent (depth + 1) fields)
    enclose indent depth '\x7b' '\x7d' (parts.map fun (k, v) => writeText k ++ [':', ' '] ++ v)

def writeItems (indent : Indent) (depth : Nat) : List Json → List (List Char)
  | [] => []
  | v :: rest => write indent depth v :: writeItems indent depth rest

def writeFields (indent : Indent) (depth : Nat) :
    List (Text × Json) → List (Text × List Char)
  | [] => []
  | (k, v) :: rest => (k, write indent depth v) :: writeFields indent depth rest

end

/-- The text of a value. -/
def render (indent : Indent) (v : Json) : String := String.ofList (write indent 0 v)

/-! ### What is not written -/

/-- Why a value is not written. -/
inductive WriteFault where
  | wideIndent
  | longInteger
deriving DecidableEq, Repr

def WriteFault.message : WriteFault → String
  | .wideIndent => "cannot fit 'int' into an index-sized integer"
  | .longInteger =>
    "Exceeds the limit (4300 digits) for integer string conversion; " ++
      "use sys.set_int_max_str_digits() to increase the limit"

/-- The indentation is a signed word of 64 bits, if there is one. -/
def Indent.fits (indent : Indent) : Bool :=
  indent.all fun n => decide (-0x8000000000000000 ≤ n ∧ n < 0x8000000000000000)

mutual

/-- Some integer of the value is too long. -/
def hasLongInteger : Json → Bool
  | .int n => maxIntegerDigits < digitCount n
  | .array items => hasLongItem items
  | .object fields => hasLongField fields
  | _ => false

def hasLongItem : List Json → Bool
  | [] => false
  | v :: rest => hasLongInteger v || hasLongItem rest

def hasLongField : List (Text × Json) → Bool
  | [] => false
  | (_, v) :: rest => hasLongInteger v || hasLongField rest

end

/-- The text of a value that can be written. -/
def render? (indent : Indent) (v : Json) : Except WriteFault String :=
  if !indent.fits then .error .wideIndent
  else if v.hasLongInteger then .error .longInteger
  else .ok (render indent v)

end Lexeme.Json
