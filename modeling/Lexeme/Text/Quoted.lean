import Lexeme.Text.Basic
import Lexeme.Text.Digits
import Lexeme.Text.Printable

/-! Quoted texts for messages. The quote is an apostrophe unless the text holds one and no double
quote; the quote used, the backslash and every unprintable code point are escaped. -/

namespace Lexeme.Quoted

/-- An escape by the number of a code point, with the fewest digits that its kind allows. -/
def escapeNumber (n : Nat) : List Char :=
  if n < 0x100 then ['\\', 'x'] ++ Digits.hex 2 n
  else if n < 0x10000 then ['\\', 'u'] ++ Digits.hex 4 n
  else ['\\', 'U'] ++ Digits.hex 8 n

/-- The written form of one character between the given quotes. -/
def escapeChar (quote c : Char) : List Char :=
  if c = quote ∨ c = '\\' then ['\\', c]
  else if c = '\n' then ['\\', 'n']
  else if c = '\r' then ['\\', 'r']
  else if c = '\t' then ['\\', 't']
  else if Printable.isPrintable c then [c]
  else escapeNumber c.toNat

/-- The written form of one code point; a surrogate is never printable. -/
def escape (quote : Char) : CodePoint → List Char
  | .char c => escapeChar quote c
  | .surrogate i => escapeNumber (CodePoint.surrogate i).value

/-- The quote for a text. -/
def quoteFor (ps : List CodePoint) : Char :=
  if ps.contains (.char '\'') && !ps.contains (.char '"') then '"' else '\''

/-- A text in quotes. -/
def quoted (text : Text) : String :=
  let q := quoteFor text.points
  String.ofList (q :: text.points.flatMap (escape q) ++ [q])

end Lexeme.Quoted
