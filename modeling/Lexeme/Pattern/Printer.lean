import Lexeme.Pattern.Basic

/-! The source text of a pattern. Groups are written only where the kind of a part asks for one. -/

namespace Lexeme

/-- Source text together with how tightly it binds. -/
structure Fragment where
  source : String
  kind : Kind
deriving DecidableEq, Repr

namespace Fragment

def group (source : String) : String := "(?:" ++ source ++ ")"

/-- The source in a form that a quantifier applies to as a whole. -/
def atom (f : Fragment) : String :=
  match f.kind with
  | .atom => f.source
  | _ => group f.source

/-- The source in a form that can stand in a sequence. -/
def operand (f : Fragment) : String :=
  match f.kind with
  | .alternation => group f.source
  | _ => f.source

end Fragment

namespace Pattern

/-- Characters with a meaning in regular expressions, and white space. -/
def isSpecial (c : Char) : Bool :=
  "()[]\x7b\x7d?*+-|^$\\.&~# \t\n\r\x0b\x0c".toList.contains c

/-- A text with a backslash before every special character. -/
def escape (text : String) : String :=
  String.ofList (text.toList.flatMap fun c => if isSpecial c then ['\\', c] else [c])

/-- The bounds of a repetition in braces. -/
def bounds (low : Nat) (high : Option Nat) : String :=
  match high with
  | none => "\x7b" ++ toString low ++ "\x7d"
  | some h => "\x7b" ++ toString low ++ "," ++ toString h ++ "\x7d"

/-- The printed form of a pattern. -/
def print : Pattern → Fragment
  | .literal text => ⟨escape text, if text.length = 1 then .atom else .sequence⟩
  | .set body => ⟨"[" ++ body ++ "]", .atom⟩
  | .raw source kind => ⟨source, kind⟩
  | .blank => ⟨"\\s", .atom⟩
  | .seq a b => ⟨a.print.operand ++ b.print.operand, .sequence⟩
  | .alt a b => ⟨a.print.source ++ "|" ++ b.print.source, .alternation⟩
  | .optional p => ⟨p.print.atom ++ "?", .sequence⟩
  | .star p => ⟨p.print.atom ++ "*", .sequence⟩
  | .plus p => ⟨p.print.atom ++ "+", .sequence⟩
  | .rep p low high => ⟨p.print.atom ++ bounds low high, .sequence⟩
  | .word p => ⟨"\\b" ++ p.print.atom ++ "\\b", .sequence⟩
  | .wordUnless p c => ⟨"\\b" ++ p.print.atom ++ "\\b(?!" ++ c.print.source ++ ")", .sequence⟩

/-- The source text that a pattern prints to. -/
def source (p : Pattern) : String := p.print.source

/-- The regular expression read back from the printed source. -/
def compile [CharNames] (p : Pattern) : Except Regex.Fault Regex := Regex.read p.source

end Pattern

end Lexeme
