/-! Upper-casing as far as its result is ASCII. Besides the letters of ASCII these are the sharp s,
the dotless i, the long s and the Latin ligatures; one of them may become several letters. -/

namespace Lexeme.UpperCase

/-- The upper-case form of a character; a character with no ASCII form stays. -/
def upperChar (c : Char) : List Char :=
  if 'a' ≤ c ∧ c ≤ 'z' then [Char.ofNat (c.toNat - 0x20)]
  else
    match c with
    | 'ß' => ['S', 'S']
    | 'ı' => ['I']
    | 'ſ' => ['S']
    | 'ﬀ' => ['F', 'F']
    | 'ﬁ' => ['F', 'I']
    | 'ﬂ' => ['F', 'L']
    | 'ﬃ' => ['F', 'F', 'I']
    | 'ﬄ' => ['F', 'F', 'L']
    | 'ﬅ' => ['S', 'T']
    | 'ﬆ' => ['S', 'T']
    | _ => [c]

def upper (text : String) : String := String.ofList (text.toList.flatMap upperChar)

end Lexeme.UpperCase
