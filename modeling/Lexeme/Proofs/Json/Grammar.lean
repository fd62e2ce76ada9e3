import Lexeme.Json.Reader

/-! The grammar of JSON texts, apart from how they are read: which text spells which value. Nesting
and the length of integers are measured and not bounded here; a text is JSON if it spells a value
within some bounds, and it is the reader that sets them. -/

namespace Lexeme.Json

/-- Nothing but white space. -/
def Blank (cs : List Char) : Prop := ∀ c ∈ cs, isBlank c = true

theorem blank_nil : Blank [] := List.forall_mem_nil _

/-- Nothing but decimal digits, and at least one. -/
def Numeral (ds : List Char) : Prop := ds ≠ [] ∧ ∀ d ∈ ds, d.isDigit = true

/-! ### Texts -/

/-- A text that starts with the escape of a low unit, which would complete a pair. -/
def StartsLow (cs : List Char) : Prop :=
  ∃ a b c d n rest, cs = '\\' :: 'u' :: a :: b :: c :: d :: rest ∧
    unitValue? a b c d = some n ∧ isLowUnit n = true

/-- What stands between quotes, and the code points that it stands for. Two units that make up a
pair are one character; a unit alone is its own code point, a surrogate included. -/
inductive Body : List Char → List CodePoint → Prop
  | nil : Body [] []
  | plain {c : Char} {cs : List Char} {ps : List CodePoint} (hquote : c ≠ '"') (hslash : c ≠ '\\')
      (hprint : 0x20 ≤ c.toNat) (h : Body cs ps) : Body (c :: cs) (.char c :: ps)
  | simple {e c : Char} {cs : List Char} {ps : List CodePoint} (he : simpleEscape? e = some c)
      (h : Body cs ps) : Body ('\\' :: e :: cs) (.char c :: ps)
  | unit {a b c d : Char} {n : Nat} {cs : List Char} {ps : List CodePoint}
      (hn : unitValue? a b c d = some n) (hpair : isHighUnit n = true → ¬ StartsLow cs)
      (h : Body cs ps) : Body ('\\' :: 'u' :: a :: b :: c :: d :: cs) (.ofNat n :: ps)
  | pair {a b c d e f g h : Char} {n m : Nat} {cs : List Char} {ps : List CodePoint}
      (hn : unitValue? a b c d = some n) (hhigh : isHighUnit n = true)
      (hm : unitValue? e f g h = some m) (hlow : isLowUnit m = true) (hcs : Body cs ps) :
      Body ('\\' :: 'u' :: a :: b :: c :: d :: '\\' :: 'u' :: e :: f :: g :: h :: cs)
        (.char (joinUnits n m) :: ps)

/-! ### Numbers and words -/

/-- The digits of an integer, without superfluous zeros before them. -/
def Whole (ds : List Char) : Prop := Numeral ds ∧ (ds.head? = some '0' → ds = ['0'])

/-- A point with digits behind it, or nothing. -/
inductive Fraction : List Char → List Char → Prop
  | absent : Fraction [] []
  | point {ds : List Char} (h : Numeral ds) : Fraction ('.' :: ds) ds

/-- An exponent with its value, or nothing. -/
inductive Exponent : List Char → Int → Prop
  | absent : Exponent [] 0
  | power {mark : Char} {sign ds : List Char} (hmark : mark = 'e' ∨ mark = 'E')
      (hsign : sign ∈ [[], ['+'], ['-']]) (h : Numeral ds) :
      Exponent (mark :: (sign ++ ds))
        (if sign = ['-'] then -(Digits.value ds : Int) else Digits.value ds)

/-- A number without its sign: an integer of at most so many digits, or a decimal with a fraction or
an exponent. -/
inductive Magnitude (limit : Nat) (negative : Bool) : List Char → Json → Prop
  | int {ds : List Char} (hds : Whole ds) (hlimit : ds.length ≤ limit) :
      Magnitude limit negative ds
        (.int (if negative then -(Digits.value ds : Int) else Digits.value ds))
  | real {ds fraction exponent fs : List Char} {e : Int} (hds : Whole ds)
      (hfraction : Fraction fraction fs) (hexponent : Exponent exponent e)
      (hreal : fraction ≠ [] ∨ exponent ≠ []) :
      Magnitude limit negative (ds ++ (fraction ++ exponent))
        (.real (.ofDecimal negative (Digits.value (ds ++ fs)) (e - fs.length)))

/-- The sign before a number. -/
def minus (negative : Bool) : List Char := if negative then ['-'] else []

/-! ### Values -/

/-- A value between brackets or commas, or the whole of a document: the text that spells it, and the
white space around it. -/
structure Element where
  before : List Char
  text : List Char
  after : List Char
  value : Json
  blank : Blank (before ++ after)

/-- A field between braces or commas: a key in quotes, a colon and a value. -/
structure Member extends Element where
  leading : List Char
  body : List Char
  key : Text
  gap : List Char
  keyBlank : Blank (leading ++ gap)
  keyBody : Body body key.points

def Element.written (e : Element) : List Char := e.before ++ (e.text ++ e.after)

/-- A text in quotes. -/
def quote (body : List Char) : List Char := '"' :: (body ++ ['"'])

def Member.written (m : Member) : List Char :=
  m.leading ++ (quote m.body ++ (m.gap ++ ':' :: m.toElement.written))

/-- Parts with a comma before each. -/
def listed (parts : List (List Char)) : List Char := parts.flatMap (',' :: ·)

@[simp] theorem listed_nil : listed [] = [] := rfl

@[simp] theorem listed_cons (part : List Char) (parts : List (List Char)) :
    listed (part :: parts) = ',' :: (part ++ listed parts) := rfl

/-- The fields after the given ones; of two with one key the later value counts. -/
def Member.collect (fields : List (Text × Json)) (ms : List Member) : List (Text × Json) :=
  ms.foldl (fun fields m => Tally.set m.key m.value fields) fields

/-- The text spells the value, with at most `depth` arrays and objects inside each other and
integers of at most `limit` digits. -/
inductive Spells (limit : Nat) : Nat → List Char → Json → Prop
  | text {depth : Nat} {body : List Char} {s : Text} (h : Body body s.points) :
      Spells limit depth (quote body) (.text s)
  | word {depth : Nat} {w : List Char} {v : Json} (h : (w, v) ∈ words) : Spells limit depth w v
  | number {depth : Nat} {cs : List Char} {v : Json} (negative : Bool)
      (h : Magnitude limit negative cs v) : Spells limit depth (minus negative ++ cs) v
  | emptyArray {depth : Nat} {bs : List Char} (h : Blank bs) :
      Spells limit (depth + 1) ('[' :: (bs ++ [']'])) (.array [])
  | array {depth : Nat} {e : Element} {es : List Element}
      (h : ∀ f ∈ e :: es, Spells limit depth f.text f.value) :
      Spells limit (depth + 1) ('[' :: (e.written ++ (listed (es.map Element.written) ++ [']'])))
        (.array ((e :: es).map Element.value))
  | emptyObject {depth : Nat} {bs : List Char} (h : Blank bs) :
      Spells limit (depth + 1) ('\x7b' :: (bs ++ ['\x7d'])) (.object [])
  | object {depth : Nat} {m : Member} {ms : List Member}
      (h : ∀ f ∈ m :: ms, Spells limit depth f.text f.value) :
      Spells limit (depth + 1)
        ('\x7b' :: (m.written ++ (listed (ms.map Member.written) ++ ['\x7d'])))
        (.object (Member.collect [] (m :: ms)))

/-- The whole text spells the value, with white space around it. -/
def Document (limit depth : Nat) (text : String) (v : Json) : Prop :=
  ∃ e : Element, text.toList = e.written ∧ e.value = v ∧ Spells limit depth e.text e.value

end Lexeme.Json
