import Lexeme.Marker

/-! Annotated texts built part by part. -/

namespace Lexeme.Markup

/-- The parts of an annotated text so far, and how many of them are markers. -/
structure Builder where
  parts : Array String
  markerCount : Nat
deriving Repr

namespace Builder

def empty : Builder := ⟨#[], 0⟩

/-- Appends plain text; an empty text adds no part. -/
def append (b : Builder) (text : String) : Builder :=
  if text.isEmpty then b else { b with parts := b.parts.push text }

def mark (b : Builder) (m : Marker) : Builder :=
  ⟨b.parts.push (String.ofList [m.sign]), b.markerCount + 1⟩

/-- The number of parts. -/
def size (b : Builder) : Nat := b.parts.size

/-- The parts joined. -/
def build (b : Builder) : String := String.join b.parts.toList

end Builder

end Lexeme.Markup
