import Lexeme.Sorting

/-! The two closed word lists of C11: keywords and punctuators, digraphs included. -/

namespace Lexeme.Grammar

/-- The reserved words of the language. -/
def keywords : List String :=
  ["auto", "break", "case", "char", "const", "continue", "default", "do", "double", "else", "enum",
   "extern", "float", "for", "goto", "if", "inline", "int", "long", "register", "restrict",
   "return", "short", "signed", "sizeof", "static", "struct", "switch", "typedef", "union",
   "unsigned", "void", "volatile", "while", "_Alignas", "_Alignof", "_Atomic", "_Bool", "_Complex",
   "_Generic", "_Imaginary", "_Noreturn", "_Static_assert", "_Thread_local"]

def punctuators : List String :=
  ["[", "]", "(", ")", "\x7b", "\x7d", ".", "->", "++", "--", "&", "*", "+", "-", "~", "!", "/",
   "%", "<<", ">>", "<", ">", "<=", ">=", "==", "!=", "^", "|", "&&", "||", "?", ":", ";", "...",
   "=", "*=", "/=", "%=", "+=", "-=", "<<=", ">>=", "&=", "^=", "|=", ",", "#", "##", "<:", ":>",
   "<%", "%>", "%:", "%:%:"]

/-- Words in the order of their characters. -/
def sorted (words : List String) : List String :=
  Sorting.sort (fun a b => decide (a ≤ b)) words

end Lexeme.Grammar
