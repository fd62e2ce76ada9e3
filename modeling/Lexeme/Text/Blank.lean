import Lexeme.Text.CodeRange

/-! White space: the control characters that separate text, and the separators and spaces of every
script. A newline is one of them. -/

namespace Lexeme.Blank

/-- The code points of white space, in increasing order. -/
def ranges : List CodeRange :=
  [⟨0x09, 0x0D⟩, ⟨0x1C, 0x20⟩, ⟨0x85, 0x85⟩, ⟨0xA0, 0xA0⟩, ⟨0x1680, 0x1680⟩, ⟨0x2000, 0x200A⟩,
   ⟨0x2028, 0x2029⟩, ⟨0x202F, 0x202F⟩, ⟨0x205F, 0x205F⟩, ⟨0x3000, 0x3000⟩]

def isBlank (c : Char) : Bool := CodeRange.anyContains ranges c

end Lexeme.Blank
