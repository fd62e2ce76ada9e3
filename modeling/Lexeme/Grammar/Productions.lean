import Lexeme.Pattern.Basic
import Lexeme.Grammar.Words

/-! The lexical grammar of C11 as patterns, production by production. Alternatives are ordered so
that the first one that matches is also the longest: hexadecimal before octal, `ll` before `l`. -/

namespace Lexeme.Grammar

open Pattern

/-! ### Digits and letters -/

def digit : Pattern := .set "0-9"
def nonzeroDigit : Pattern := .set "1-9"
def octalDigit : Pattern := .set "0-7"
def hexadecimalDigit : Pattern := .set "0-9a-fA-F"
def nondigit : Pattern := .set "_a-zA-Z"
def digitSequence : Pattern := .plus digit
def hexadecimalDigitSequence : Pattern := .plus hexadecimalDigit
def sign : Pattern := .set "+-"
def whitespace : Pattern := .star .blank

/-! ### Identifiers -/

def hexQuad : Pattern := .rep hexadecimalDigit 4 none

def universalCharacterName : Pattern :=
  .literal "\\u" ++ hexQuad <|> .literal "\\U" ++ hexQuad ++ hexQuad

def identifierNondigit : Pattern := nondigit <|> universalCharacterName

def identifier : Pattern := identifierNondigit ++ .star (identifierNondigit <|> digit)

/-! ### Integer constants -/

def unsignedSuffix : Pattern := .set "uU"
def longSuffix : Pattern := .set "lL"
def longLongSuffix : Pattern := .literal "ll" <|> .literal "LL"

def integerSuffix : Pattern :=
  unsignedSuffix ++ .optional (longLongSuffix <|> longSuffix) <|>
    longLongSuffix ++ .optional unsignedSuffix <|>
    longSuffix ++ .optional unsignedSuffix

/-- The mark `0x` that opens a hexadecimal number. -/
def hexadecimalMark : Pattern := .literal "0" ++ .set "xX"

def hexadecimalConstant : Pattern := hexadecimalMark ++ hexadecimalDigitSequence
def decimalConstant : Pattern := nonzeroDigit ++ .star digit
def octalConstant : Pattern := .literal "0" ++ .star octalDigit

def integerConstant : Pattern :=
  (hexadecimalConstant <|> decimalConstant <|> octalConstant) ++ .optional integerSuffix

/-! ### Floating constants -/

def floatingSuffix : Pattern := .set "flFL"
def exponentPart : Pattern := .set "eE" ++ .optional sign ++ digitSequence
def binaryExponentPart : Pattern := .set "pP" ++ .optional sign ++ digitSequence

def fractionalConstant : Pattern :=
  .optional digitSequence ++ .literal "." ++ digitSequence <|> digitSequence ++ .literal "."

def decimalFloatingConstant : Pattern :=
  (fractionalConstant ++ .optional exponentPart <|> digitSequence ++ exponentPart) ++
    .optional floatingSuffix

def hexadecimalFractionalConstant : Pattern :=
  .optional hexadecimalDigitSequence ++ .literal "." ++ hexadecimalDigitSequence <|>
    hexadecimalDigitSequence ++ .literal "."

def hexadecimalFloatingConstant : Pattern :=
  hexadecimalMark ++ (hexadecimalFractionalConstant <|> hexadecimalDigitSequence) ++
    binaryExponentPart ++ .optional floatingSuffix

def floatingConstant : Pattern := hexadecimalFloatingConstant <|> decimalFloatingConstant

/-! ### Enumeration specifiers, highlighted as one constant -/

def enumerator : Pattern :=
  identifier ++ .optional (whitespace ++ .literal "=" ++ whitespace ++ integerConstant)

def enumeratorList : Pattern :=
  enumerator ++ .star (whitespace ++ .literal "," ++ whitespace ++ enumerator)

def enumBody : Pattern :=
  .literal "\x7b" ++ whitespace ++ enumeratorList ++ .optional (whitespace ++ .literal ",") ++
    whitespace ++ .literal "\x7d"

def enumKeyword : Pattern := .wordUnless (.literal "enum") universalCharacterName

def enumerationConstant : Pattern :=
  enumKeyword ++ whitespace ++ .optional (identifier ++ whitespace) ++ enumBody <|>
    enumKeyword ++ .plus .blank ++ identifier

/-! ### Character constants and string literals -/

def simpleEscapeSequence : Pattern := .literal "\\" ++ .set "'\"?\\\\abfnrtv"
def octalEscapeSequence : Pattern := .literal "\\" ++ .rep octalDigit 1 (some 3)
def hexadecimalEscapeSequence : Pattern := .literal "\\x" ++ hexadecimalDigitSequence

def escapeSequence : Pattern :=
  simpleEscapeSequence <|> octalEscapeSequence <|> hexadecimalEscapeSequence <|>
    universalCharacterName

def cChar : Pattern := .set "^'\\\\\\n" <|> escapeSequence

def characterConstant : Pattern :=
  .optional (.set "LuU") ++ .literal "'" ++ .plus cChar ++ .literal "'"

def sChar : Pattern := .set "^\"\\\\\\n" <|> escapeSequence

/-- The letters that select the encoding of a string literal. -/
def encodingMark : Pattern := .literal "u8" <|> .set "uUL"

def stringLiteral : Pattern :=
  .optional encodingMark ++ .literal "\"" ++ .star sChar ++ .literal "\""

/-! ### Word lists -/

def keyword : Pattern := .wordUnless (oneOf keywords) universalCharacterName

def punctuator : Pattern := oneOf punctuators

end Lexeme.Grammar
