import Lexeme.Category
import Lexeme.Grammar.Productions
import Lexeme.Regex.Scan

/-! The grammar of each category, and the productions by name. -/

namespace Lexeme.Grammar

/-- The pattern of a category. -/
def pattern : Category → Pattern
  | .keyword => keyword
  | .identifier => identifier
  | .integer => integerConstant
  | .floating => floatingConstant
  | .enumeration => enumerationConstant
  | .character => characterConstant
  | .string => stringLiteral
  | .punctuator => punctuator

/-- The regular expressions of all categories, by marker index. -/
def compiled : Array Regex := (Category.all.map fun c => (pattern c).toRegex).toArray

/-- The regular expression of a category. -/
def regex (c : Category) : Regex := compiled[c.index]?.getD .never

theorem regex_eq (c : Category) : regex c = (pattern c).toRegex := by cases c <;> rfl

/-- The productions under their names in the language standard, words divided by underscores. -/
def productions : List (String × Pattern) :=
  [("digit", digit), ("nonzero_digit", nonzeroDigit), ("octal_digit", octalDigit),
   ("hexadecimal_digit", hexadecimalDigit), ("nondigit", nondigit),
   ("digit_sequence", digitSequence),
   ("hexadecimal_digit_sequence", hexadecimalDigitSequence), ("sign", sign),
   ("whitespace", whitespace), ("hex_quad", hexQuad),
   ("universal_character_name", universalCharacterName),
   ("identifier_nondigit", identifierNondigit), ("identifier", identifier),
   ("unsigned_suffix", unsignedSuffix), ("long_suffix", longSuffix),
   ("long_long_suffix", longLongSuffix), ("integer_suffix", integerSuffix),
   ("hexadecimal_prefix", hexadecimalMark), ("hexadecimal_constant", hexadecimalConstant),
   ("decimal_constant", decimalConstant), ("octal_constant", octalConstant),
   ("integer_constant", integerConstant), ("floating_suffix", floatingSuffix),
   ("exponent_part", exponentPart), ("binary_exponent_part", binaryExponentPart),
   ("fractional_constant", fractionalConstant),
   ("decimal_floating_constant", decimalFloatingConstant),
   ("hexadecimal_fractional_constant", hexadecimalFractionalConstant),
   ("hexadecimal_floating_constant", hexadecimalFloatingConstant),
   ("floating_constant", floatingConstant), ("enumerator", enumerator),
   ("enumerator_list", enumeratorList), ("enum_body", enumBody), ("enum_keyword", enumKeyword),
   ("enumeration_constant", enumerationConstant),
   ("simple_escape_sequence", simpleEscapeSequence),
   ("octal_escape_sequence", octalEscapeSequence),
   ("hexadecimal_escape_sequence", hexadecimalEscapeSequence),
   ("escape_sequence", escapeSequence), ("c_char", cChar),
   ("character_constant", characterConstant), ("s_char", sChar),
   ("encoding_prefix", encodingMark), ("string_literal", stringLiteral), ("keyword", keyword),
   ("punctuator", punctuator)]

def production? (name : String) : Option Pattern := productions.lookup name

end Lexeme.Grammar
