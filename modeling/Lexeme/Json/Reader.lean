import Lexeme.Json.Basic
import Lexeme.Location
import Lexeme.Tally

/-! Reading JSON values. Besides the standard, the words `NaN`, `Infinity` and `-Infinity` are read
as numbers. A fault says what was expected and at which character; of two fields with one key the
later value counts. An escape may write a surrogate that is not part of a pair. -/

namespace Lexeme.Json

/-- What is wrong with a text that is no JSON value. -/
inductive Cause where
  | value
  | key
  | colon
  | comma
  | extraData
  | unterminated
  | controlChar
  | badEscape
  | badUnit
  | byteOrderMark
deriving DecidableEq, Repr

def Cause.message : Cause → String
  | .value => "Expecting value"
  | .key => "Expecting property name enclosed in double quotes"
  | .colon => "Expecting ':' delimiter"
  | .comma => "Expecting ',' delimiter"
  | .extraData => "Extra data"
  | .unterminated => "Unterminated string starting at"
  | .controlChar => "Invalid control character at"
  | .badEscape => "Invalid \\escape"
  | .badUnit => "Invalid \\uXXXX escape"
  | .byteOrderMark => "Unexpected UTF-8 BOM (decode using utf-8-sig)"

/-- A fault at a character, an integer with more digits than are read, or arrays and objects inside
each other to a greater depth than is read. -/
inductive Fault where
  | malformed (cause : Cause) (offset : Nat)
  | longInteger (digits : Nat)
  | tooDeep
deriving DecidableEq, Repr

/-- The message of a fault, with line and column of its place in the text. -/
def Fault.message (text : String) : Fault → String
  | .malformed cause offset =>
    let (line, column) := (LineIndex.ofText text.toList).position offset
    cause.message ++ ": line " ++ toString line ++ " column " ++ toString column ++ " (char " ++
      toString offset ++ ")"
  | .longInteger digits =>
    "Exceeds the limit (4300 digits) for integer string conversion: value has " ++
      toString digits ++
      " digits; use sys.set_int_max_str_digits() to increase the limit"
  | .tooDeep => "nested too deeply"

/-- The rest of a text and the offset of its first character. -/
structure Cursor where
  offset : Nat
  rest : List Char
deriving Repr

/-- The outcome of reading: a value and what follows it. -/
abbrev Read (α : Type) := Except Fault (α × Cursor)

def isBlank (c : Char) : Bool := c == ' ' || c == '\t' || c == '\n' || c == '\r'

/-- Skips white space. -/
def skipBlank : Nat → List Char → Cursor
  | i, [] => ⟨i, []⟩
  | i, c :: cs => if isBlank c then skipBlank (i + 1) cs else ⟨i, c :: cs⟩

def Cursor.skip (c : Cursor) : Cursor := skipBlank c.offset c.rest

/-! ### Texts -/

/-- The value of four hexadecimal digits. -/
def unitValue? (a b c d : Char) : Option Nat := do
  let a ← Digits.hexValue? a
  let b ← Digits.hexValue? b
  let c ← Digits.hexValue? c
  let d ← Digits.hexValue? d
  return ((a * 16 + b) * 16 + c) * 16 + d

def simpleEscape? : Char → Option Char
  | '"' => some '"'
  | '\\' => some '\\'
  | '/' => some '/'
  | 'b' => some '\x08'
  | 'f' => some '\x0c'
  | 'n' => some '\n'
  | 'r' => some '\r'
  | 't' => some '\t'
  | _ => none

def isHighUnit (n : Nat) : Bool := 0xD800 ≤ n && n < 0xDC00

def isLowUnit (n : Nat) : Bool := 0xDC00 ≤ n && n < 0xE000

/-- The character of two units. -/
def joinUnits (high low : Nat) : Char :=
  Char.ofNat (0x10000 + (high - 0xD800) * 0x400 + (low - 0xDC00))

/-- Puts a code point before the text that was read. -/
def consPoint (p : CodePoint) (r : Read (List CodePoint)) : Read (List CodePoint) :=
  r.map fun (ps, rest) => (p :: ps, rest)

/-- Reads a text after its opening quote, which stands at `start`. An escape with four digits is
refused if nothing follows them. -/
def readPoints (start : Nat) : Nat → List Char → Read (List CodePoint)
  | _, [] => .error (.malformed .unterminated start)
  | i, '"' :: rest => .ok ([], ⟨i + 1, rest⟩)
  | _, ['\\'] => .error (.malformed .unterminated start)
  | i, '\\' :: 'u' :: a :: b :: c :: d :: '\\' :: 'u' :: e :: f :: g :: h :: x :: rest =>
    match unitValue? a b c d with
    | none => .error (.malformed .badUnit (i + 1))
    | some n =>
      if isHighUnit n then
        match unitValue? e f g h with
        | none => .error (.malformed .badUnit (i + 7))
        | some m =>
          if isLowUnit m then
            consPoint (.char (joinUnits n m)) (readPoints start (i + 12) (x :: rest))
          else
            consPoint (.ofNat n)
              (readPoints start (i + 6) ('\\' :: 'u' :: e :: f :: g :: h :: x :: rest))
      else
        consPoint (.ofNat n)
          (readPoints start (i + 6) ('\\' :: 'u' :: e :: f :: g :: h :: x :: rest))
  | i, '\\' :: 'u' :: a :: b :: c :: d :: x :: rest =>
    match unitValue? a b c d with
    | none => .error (.malformed .badUnit (i + 1))
    | some n => consPoint (.ofNat n) (readPoints start (i + 6) (x :: rest))
  | i, '\\' :: 'u' :: _ => .error (.malformed .badUnit (i + 1))
  | i, '\\' :: e :: rest =>
    match simpleEscape? e with
    | none => .error (.malformed .badEscape i)
    | some c => consPoint (.char c) (readPoints start (i + 2) rest)
  | i, c :: rest =>
    if c.toNat < 0x20 then .error (.malformed .controlChar i)
    else consPoint (.char c) (readPoints start (i + 1) rest)

/-- Reads a text whose opening quote stands at `i`. -/
def readText (i : Nat) (afterQuote : List Char) : Read Text :=
  (readPoints i (i + 1) afterQuote).map fun (ps, rest) => (⟨ps⟩, rest)

/-! ### Numbers -/

/-- The digits of an integer without superfluous zeros. -/
def readInteger? (cs : List Char) : Option (List Char × List Char) :=
  match cs with
  | '0' :: rest => some (['0'], rest)
  | c :: _ => if c.isDigit then some (Digits.split cs) else none
  | [] => none

/-- A point and the digits behind it, if there are any. -/
def readFraction (cs : List Char) : List Char × List Char :=
  match cs with
  | '.' :: rest =>
    let (ds, after) := Digits.split rest
    if ds.isEmpty then ([], cs) else (ds, after)
  | _ => ([], cs)

/-- The sign of an exponent: whether it is negative, and what follows. -/
def readSign : List Char → Bool × List Char
  | '-' :: rest => (true, rest)
  | '+' :: rest => (false, rest)
  | cs => (false, cs)

/-- An exponent, if one stands at the head of a text and has digits. -/
def readExponent? (cs : List Char) : Option (Int × List Char) :=
  match cs with
  | c :: rest =>
    if c = 'e' ∨ c = 'E' then
      let (negative, rest) := readSign rest
      let (ds, after) := Digits.split rest
      if ds.isEmpty then none
      else
        let n : Int := Digits.value ds
        some (if negative then -n else n, after)
    else none
  | [] => none

/-- Reads a number without its sign, which stands before `cs`. -/
def readMagnitude (start : Nat) (negative : Bool) (cs : List Char) :
    Except Fault (Json × List Char) :=
  match readInteger? cs with
  | none => .error (.malformed .value start)
  | some (whole, rest) =>
    let (fraction, rest) := readFraction rest
    match fraction.isEmpty, readExponent? rest with
    | true, none =>
      if maxIntegerDigits < whole.length then .error (.longInteger whole.length)
      else
        let n : Int := Digits.value whole
        .ok (.int (if negative then -n else n), rest)
    | _, some (e, after) =>
      .ok (.real (.ofDecimal negative (Digits.value (whole ++ fraction))
        (e - fraction.length)), after)
    | false, none =>
      .ok (.real (.ofDecimal negative (Digits.value (whole ++ fraction))
        (-(fraction.length : Int))), rest)

/-- The words that are values. -/
def words : List (List Char × Json) :=
  [("null".toList, .null), ("true".toList, .bool true), ("false".toList, .bool false),
   ("NaN".toList, .real .nan), ("Infinity".toList, .real (.infinite false)),
   ("-Infinity".toList, .real (.infinite true))]

/-- Reads a word or a number. -/
def readScalar (c : Cursor) : Read Json :=
  match words.find? fun w => w.1.isPrefixOf c.rest with
  | some (w, v) => .ok (v, ⟨c.offset + w.length, c.rest.drop w.length⟩)
  | none =>
    let (negative, digits) :=
      match c.rest with
      | '-' :: rest => (true, rest)
      | cs => (false, cs)
    match readMagnitude c.offset negative digits with
    | .error e => .error e
    | .ok (v, rest) => .ok (v, ⟨c.offset + (c.rest.length - rest.length), rest⟩)

/-! ### Values -/

mutual

/-- Reads a value, with at most `room` arrays and objects inside each other. The first argument
bounds the depth of the recursion. -/
def readValue : Nat → Nat → Cursor → Read Json
  | 0, _, c => .error (.malformed .value c.offset)
  | fuel + 1, room, c =>
    match c.rest, room with
    | '"' :: rest, _ => (readText c.offset rest).map fun (s, c) => (.text s, c)
    | '[' :: _, 0 => .error .tooDeep
    | '[' :: rest, room + 1 =>
      let c := skipBlank (c.offset + 1) rest
      match c.rest with
      | ']' :: rest => .ok (.array [], ⟨c.offset + 1, rest⟩)
      | _ => (readItems fuel room c).map fun (vs, c) => (.array vs, c)
    | '\x7b' :: _, 0 => .error .tooDeep
    | '\x7b' :: rest, room + 1 =>
      let c := skipBlank (c.offset + 1) rest
      match c.rest with
      | '\x7d' :: rest => .ok (.object [], ⟨c.offset + 1, rest⟩)
      | _ => (readFields fuel room [] c).map fun (fs, c) => (.object fs, c)
    | _, _ => readScalar c

/-- Reads the items of an array up to its closing bracket. -/
def readItems : Nat → Nat → Cursor → Read (List Json)
  | 0, _, c => .error (.malformed .value c.offset)
  | fuel + 1, room, c =>
    match readValue fuel room c with
    | .error e => .error e
    | .ok (v, c) =>
      let c := c.skip
      match c.rest with
      | ']' :: rest => .ok ([v], ⟨c.offset + 1, rest⟩)
      | ',' :: rest =>
        (readItems fuel room (skipBlank (c.offset + 1) rest)).map fun (vs, c) => (v :: vs, c)
      | _ => .error (.malformed .comma c.offset)

/-- Reads the fields of an object up to its closing brace, after the given ones. -/
def readFields : Nat → Nat → List (Text × Json) → Cursor → Read (List (Text × Json))
  | 0, _, _, c => .error (.malformed .value c.offset)
  | fuel + 1, room, fields, c =>
    match c.rest with
    | '"' :: rest =>
      match readText c.offset rest with
      | .error e => .error e
      | .ok (key, c) =>
        let c := c.skip
        match c.rest with
        | ':' :: rest =>
          match readValue fuel room (skipBlank (c.offset + 1) rest) with
          | .error e => .error e
          | .ok (v, c) =>
            let fields := Tally.set key v fields
            let c := c.skip
            match c.rest with
            | '\x7d' :: rest => .ok (fields, ⟨c.offset + 1, rest⟩)
            | ',' :: rest => readFields fuel room fields (skipBlank (c.offset + 1) rest)
            | _ => .error (.malformed .comma c.offset)
        | _ => .error (.malformed .colon c.offset)
    | _ => .error (.malformed .key c.offset)

end

/-- The value of a text that holds one value and white space around it, with at most `depth` arrays
and objects inside each other. How deep they may be depends on the stack that the caller leaves. -/
def parse (depth : Nat) (text : String) : Except Fault Json :=
  match text.toList with
  | '\ufeff' :: _ => .error (.malformed .byteOrderMark 0)
  | cs =>
    match readValue (2 * cs.length + 2) depth (skipBlank 0 cs) with
    | .error e => .error e
    | .ok (v, c) =>
      let c := c.skip
      if c.rest.isEmpty then .ok v else .error (.malformed .extraData c.offset)

end Lexeme.Json
