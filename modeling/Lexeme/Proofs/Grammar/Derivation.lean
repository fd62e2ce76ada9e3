import Lexeme.Category
import Lexeme.Text.Blank

/-! The lexical grammar of C11 as rules of derivation, in the words of the language standard and
without regard to how a text is matched: no order among alternatives, no tests of what stands beside
a lexeme. -/

namespace Lexeme.Lexical

/-! ### Characters -/

def IsDigit (c : Char) : Prop := '0' ≤ c ∧ c ≤ '9'

def IsNonzeroDigit (c : Char) : Prop := '1' ≤ c ∧ c ≤ '9'

def IsOctalDigit (c : Char) : Prop := '0' ≤ c ∧ c ≤ '7'

def IsHexDigit (c : Char) : Prop :=
  '0' ≤ c ∧ c ≤ '9' ∨ 'a' ≤ c ∧ c ≤ 'f' ∨ 'A' ≤ c ∧ c ≤ 'F'

def IsNondigit (c : Char) : Prop := c = '_' ∨ 'a' ≤ c ∧ c ≤ 'z' ∨ 'A' ≤ c ∧ c ≤ 'Z'

/-- Any number of characters of one kind. -/
def Many (P : Char → Prop) (w : List Char) : Prop := ∀ c ∈ w, P c

/-- One or more characters of one kind. -/
def OneOrMore (P : Char → Prop) (w : List Char) : Prop := w ≠ [] ∧ Many P w

/-- White space of any script. -/
def Blanks (w : List Char) : Prop := Many (Blank.isBlank · = true) w

/-! ### Identifiers -/

inductive UniversalName : List Char → Prop
  | short {ds : List Char} (hds : Many IsHexDigit ds) (hlen : ds.length = 4) :
      UniversalName ('\\' :: 'u' :: ds)
  | long {ds : List Char} (hds : Many IsHexDigit ds) (hlen : ds.length = 8) :
      UniversalName ('\\' :: 'U' :: ds)

inductive IdentifierNondigit : List Char → Prop
  | nondigit {c : Char} (hc : IsNondigit c) : IdentifierNondigit [c]
  | universal {w : List Char} (hw : UniversalName w) : IdentifierNondigit w

inductive Identifier : List Char → Prop
  | first {w : List Char} (hw : IdentifierNondigit w) : Identifier w
  | nondigit {w u : List Char} (hw : Identifier w) (hu : IdentifierNondigit u) :
      Identifier (w ++ u)
  | digit {w : List Char} {c : Char} (hw : Identifier w) (hc : IsDigit c) : Identifier (w ++ [c])

/-! ### Integer constants -/

/-- The letters of a long or very long integer. -/
def longMarks : List (List Char) := [['l'], ['L'], ['l', 'l'], ['L', 'L']]

inductive IntegerSuffix : List Char → Prop
  | none : IntegerSuffix []
  | unsigned {c : Char} (hc : c ∈ ['u', 'U']) : IntegerSuffix [c]
  | long {l : List Char} (hl : l ∈ longMarks) : IntegerSuffix l
  | unsignedLong {c : Char} {l : List Char} (hc : c ∈ ['u', 'U']) (hl : l ∈ longMarks) :
      IntegerSuffix (c :: l)
  | longUnsigned {c : Char} {l : List Char} (hl : l ∈ longMarks) (hc : c ∈ ['u', 'U']) :
      IntegerSuffix (l ++ [c])

inductive IntegerDigits : List Char → Prop
  | hexadecimal {x : Char} {ds : List Char} (hx : x ∈ ['x', 'X'])
      (hds : OneOrMore IsHexDigit ds) : IntegerDigits ('0' :: x :: ds)
  | decimal {d : Char} {ds : List Char} (hd : IsNonzeroDigit d) (hds : Many IsDigit ds) :
      IntegerDigits (d :: ds)
  | octal {ds : List Char} (hds : Many IsOctalDigit ds) : IntegerDigits ('0' :: ds)

inductive IntegerConstant : List Char → Prop
  | mk {ds s : List Char} (hds : IntegerDigits ds) (hs : IntegerSuffix s) :
      IntegerConstant (ds ++ s)

/-! ### Floating constants -/

inductive Exponent (letters : List Char) : List Char → Prop
  | unsigned {e : Char} {ds : List Char} (he : e ∈ letters) (hds : OneOrMore IsDigit ds) :
      Exponent letters (e :: ds)
  | signed {e s : Char} {ds : List Char} (he : e ∈ letters) (hs : s ∈ ['+', '-'])
      (hds : OneOrMore IsDigit ds) : Exponent letters (e :: s :: ds)

/-- Digits around a point, at least on one side. -/
inductive Fraction (P : Char → Prop) : List Char → Prop
  | both {w f : List Char} (hw : OneOrMore P w) (hf : OneOrMore P f) : Fraction P (w ++ '.' :: f)
  | behind {f : List Char} (hf : OneOrMore P f) : Fraction P ('.' :: f)
  | before {w : List Char} (hw : OneOrMore P w) : Fraction P (w ++ ['.'])

inductive FloatingSuffix : List Char → Prop
  | none : FloatingSuffix []
  | letter {c : Char} (hc : c ∈ ['f', 'l', 'F', 'L']) : FloatingSuffix [c]

inductive FloatingConstant : List Char → Prop
  | hexadecimal {x : Char} {m e s : List Char} (hx : x ∈ ['x', 'X'])
      (hm : Fraction IsHexDigit m ∨ OneOrMore IsHexDigit m) (he : Exponent ['p', 'P'] e)
      (hs : FloatingSuffix s) : FloatingConstant ('0' :: x :: (m ++ e ++ s))
  | fraction {m e s : List Char} (hm : Fraction IsDigit m) (he : e = [] ∨ Exponent ['e', 'E'] e)
      (hs : FloatingSuffix s) : FloatingConstant (m ++ e ++ s)
  | whole {m e s : List Char} (hm : OneOrMore IsDigit m) (he : Exponent ['e', 'E'] e)
      (hs : FloatingSuffix s) : FloatingConstant (m ++ e ++ s)

/-! ### Character constants and string literals -/

inductive Escape : List Char → Prop
  | simple {c : Char}
      (hc : c ∈ ['\'', '"', '?', '\\', 'a', 'b', 'f', 'n', 'r', 't', 'v']) : Escape ['\\', c]
  | octal {ds : List Char} (hds : OneOrMore IsOctalDigit ds) (hlen : ds.length ≤ 3) :
      Escape ('\\' :: ds)
  | hexadecimal {ds : List Char} (hds : OneOrMore IsHexDigit ds) : Escape ('\\' :: 'x' :: ds)
  | universal {w : List Char} (hw : UniversalName w) : Escape w

/-- One character between quotes. -/
inductive QuotedChar (quote : Char) : List Char → Prop
  | plain {c : Char} (hc : c ∉ [quote, '\\', '\n']) : QuotedChar quote [c]
  | escape {w : List Char} (hw : Escape w) : QuotedChar quote w

theorem QuotedChar.ne_nil {quote : Char} {w : List Char} (h : QuotedChar quote w) : w ≠ [] := by
  rintro rfl
  cases h with
  | escape hw =>
    cases hw with
    | universal hw => cases hw

inductive Quoted (quote : Char) : List Char → Prop
  | nil : Quoted quote []
  | cons {u w : List Char} (hu : QuotedChar quote u) (hw : Quoted quote w) : Quoted quote (u ++ w)

inductive CharacterConstant : List Char → Prop
  | mk {mark w : List Char} (hmark : mark ∈ [[], ['L'], ['u'], ['U']]) (hw : Quoted '\'' w)
      (hne : w ≠ []) : CharacterConstant (mark ++ '\'' :: (w ++ ['\'']))

inductive StringLiteral : List Char → Prop
  | mk {mark w : List Char} (hmark : mark ∈ [[], ['u', '8'], ['u'], ['U'], ['L']])
      (hw : Quoted '"' w) : StringLiteral (mark ++ '"' :: (w ++ ['"']))

/-! ### Enumeration specifiers -/

inductive Enumerator : List Char → Prop
  | name {w : List Char} (hw : Identifier w) : Enumerator w
  | value {w b b' n : List Char} (hw : Identifier w) (hb : Blanks b) (hb' : Blanks b')
      (hn : IntegerConstant n) : Enumerator (w ++ b ++ '=' :: (b' ++ n))

inductive EnumeratorList : List Char → Prop
  | single {w : List Char} (hw : Enumerator w) : EnumeratorList w
  | more {l b b' w : List Char} (hl : EnumeratorList l) (hb : Blanks b) (hb' : Blanks b')
      (hw : Enumerator w) : EnumeratorList (l ++ b ++ ',' :: (b' ++ w))

/-- What stands between the last enumerator and the closing brace. -/
inductive EnumTail : List Char → Prop
  | plain {b : List Char} (hb : Blanks b) : EnumTail b
  | comma {b b' : List Char} (hb : Blanks b) (hb' : Blanks b') : EnumTail (b ++ ',' :: b')

inductive EnumBody : List Char → Prop
  | mk {b l e : List Char} (hb : Blanks b) (hl : EnumeratorList l) (he : EnumTail e) :
      EnumBody ('\x7b' :: (b ++ l ++ e ++ ['\x7d']))

/-- A name does not follow the word directly, or the two were one identifier. -/
inductive Enumeration : List Char → Prop
  | anonymous {b body : List Char} (hb : Blanks b) (hbody : EnumBody body) :
      Enumeration ("enum".toList ++ b ++ body)
  | tagged {b tag b' body : List Char} (hne : b ≠ []) (hb : Blanks b) (htag : Identifier tag)
      (hb' : Blanks b') (hbody : EnumBody body) :
      Enumeration ("enum".toList ++ b ++ tag ++ b' ++ body)
  | bare {b tag : List Char} (hne : b ≠ []) (hb : Blanks b) (htag : Identifier tag) :
      Enumeration ("enum".toList ++ b ++ tag)

/-! ### Keywords and punctuators -/

/-- The reserved words. -/
def keywords : List String :=
  ["auto", "break", "case", "char", "const", "continue", "default", "do", "double", "else", "enum",
   "extern", "float", "for", "goto", "if", "inline", "int", "long", "register", "restrict",
   "return", "short", "signed", "sizeof", "static", "struct", "switch", "typedef", "union",
   "unsigned", "void", "volatile", "while", "_Alignas", "_Alignof", "_Atomic", "_Bool", "_Complex",
   "_Generic", "_Imaginary", "_Noreturn", "_Static_assert", "_Thread_local"]

/-- The punctuators: the marks behind an operand, operators before one, operators between two, the
conditional and the ellipsis, assignments, the comma and the marks of directives, digraphs. -/
def punctuators : List String :=
  ["[", "]", "(", ")", "\x7b", "\x7d", ".", "->"] ++
  ["++", "--", "&", "*", "+", "-", "~", "!"] ++
  ["/", "%", "<<", ">>", "<", ">", "<=", ">=", "==", "!=", "^", "|", "&&", "||"] ++
  ["?", ":", ";", "..."] ++
  ["=", "*=", "/=", "%=", "+=", "-=", "<<=", ">>=", "&=", "^=", "|="] ++
  [",", "#", "##"] ++
  ["<:", ":>", "<%", "%>", "%:", "%:%:"]

/-! ### Categories -/

/-- The text is a lexeme of the category. -/
inductive Derives : Category → List Char → Prop
  | keyword {k : String} (hk : k ∈ keywords) : Derives .keyword k.toList
  | identifier {w : List Char} (hw : Identifier w) : Derives .identifier w
  | integer {w : List Char} (hw : IntegerConstant w) : Derives .integer w
  | floating {w : List Char} (hw : FloatingConstant w) : Derives .floating w
  | enumeration {w : List Char} (hw : Enumeration w) : Derives .enumeration w
  | character {w : List Char} (hw : CharacterConstant w) : Derives .character w
  | string {w : List Char} (hw : StringLiteral w) : Derives .string w
  | punctuator {p : String} (hp : p ∈ punctuators) : Derives .punctuator p.toList

end Lexeme.Lexical
