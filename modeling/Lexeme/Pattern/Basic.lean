import Lexeme.Regex.Reader
import Lexeme.Sorting

/-! Patterns: expression trees from which token grammars are composed. A pattern has two readings,
a regular expression that it denotes directly and a source text that it prints to. -/

namespace Lexeme

/-- How tightly the source of a pattern binds: an atom can be quantified as it stands, a sequence
needs a group for that, and an alternation also needs one inside a sequence. -/
inductive Kind where
  | atom
  | sequence
  | alternation
deriving DecidableEq, Repr

/-- Expressions over literal texts, bracket classes and hand-written source. -/
inductive Pattern where
  | literal (text : String)
  | set (body : String)
  | raw (source : String) (kind : Kind)
  | blank
  | seq (a b : Pattern)
  | alt (a b : Pattern)
  | optional (p : Pattern)
  | star (p : Pattern)
  | plus (p : Pattern)
  | rep (p : Pattern) (low : Nat) (high : Option Nat)
  | word (p : Pattern)
  | wordUnless (p continuation : Pattern)
deriving Repr

namespace Pattern

instance : Append Pattern := ⟨.seq⟩

instance : OrElse Pattern := ⟨fun a b => .alt a (b ())⟩

/-- The regular expression that a pattern denotes. A malformed class body or a source text outside
the readable subset matches nothing. -/
def toRegex [CharNames] : Pattern → Regex
  | .literal text => .chars text.toList
  | .set body =>
    match CharClass.ofBody? body with
    | some k => .one k
    | none => .never
  | .raw source _ => (Regex.ofText? source).getD .never
  | .blank => .one .blank
  | .seq a b => .seq a.toRegex b.toRegex
  | .alt a b => .alt a.toRegex b.toRegex
  | .optional p => .rep p.toRegex 0 (some 1)
  | .star p => .rep p.toRegex 0 none
  | .plus p => .rep p.toRegex 1 none
  | .rep p low high => .rep p.toRegex low (some (high.getD low))
  | .word p => .seq .boundary (.seq p.toRegex .boundary)
  | .wordUnless p c =>
    .seq .boundary (.seq p.toRegex (.seq .boundary (.notAhead c.toRegex)))

/-! ### Choice among words -/

/-- Longer words come first, words of one length in the order of their characters. -/
def wordLe (a b : String) : Bool :=
  b.length < a.length || (a.length == b.length && a ≤ b)

/-- The distinct words, longest first, so that ordered choice takes the longest that fits. -/
def longestFirst (words : List String) : List String :=
  Sorting.sort wordLe words.eraseDups

/-- Ordered choice of the given words, longest first; of no words, the empty literal. -/
def oneOf (words : List String) : Pattern :=
  match longestFirst words with
  | [] => .literal ""
  | w :: ws => ws.foldl (fun p v => .alt p (.literal v)) (.literal w)

/-! ### Checked construction -/

/-- Why a pattern cannot be built. -/
inductive Fault where
  | emptyLiteral
  | emptySequence
  | emptyAlternation
  | noWords
  | badBounds (low : Int) (high : Option Int)
deriving DecidableEq, Repr

def Fault.message : Fault → String
  | .emptyLiteral => "literal() needs a non-empty string"
  | .emptySequence => "seq() needs at least one part"
  | .emptyAlternation => "alt() needs at least one part"
  | .noWords => "choice_of() needs at least one word"
  | .badBounds low high =>
    "invalid repetition bounds " ++ toString low ++ ".." ++
      match high with
      | some h => toString h
      | none => "None"

def literal? (text : String) : Except Fault Pattern :=
  if text.isEmpty then .error .emptyLiteral else .ok (.literal text)

/-- The parts one after another; a single part stands for itself. -/
def sequence? : List Pattern → Except Fault Pattern
  | [] => .error .emptySequence
  | p :: ps => .ok (ps.foldl .seq p)

/-- The parts as ordered alternatives; a single part stands for itself. -/
def alternation? : List Pattern → Except Fault Pattern
  | [] => .error .emptyAlternation
  | p :: ps => .ok (ps.foldl .alt p)

/-- Repetition between two bounds, or exactly `low` times without an upper one. -/
def repeat? (p : Pattern) (low : Int) (high : Option Int) : Except Fault Pattern :=
  if low < 0 ∨ high.any (· < low) then .error (.badBounds low high)
  else .ok (.rep p low.toNat (high.map Int.toNat))

def oneOf? (words : List String) : Except Fault Pattern :=
  if words.isEmpty then .error .noWords
  else if words.any String.isEmpty then .error .emptyLiteral
  else .ok (oneOf words)

end Pattern

end Lexeme
