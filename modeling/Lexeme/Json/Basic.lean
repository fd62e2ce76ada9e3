import Lexeme.Number.Binary64
import Lexeme.Text.Quoted

/-! JSON values. Fields of an object keep the order in which they were first written, integers are
unbounded, other numbers are floating-point, and texts may hold single surrogates. -/

namespace Lexeme

/-- A JSON value. -/
inductive Json where
  | null
  | bool (b : Bool)
  | int (n : Int)
  | real (x : Binary64)
  | text (s : Text)
  | array (items : List Json)
  | object (fields : List (Text × Json))
deriving Inhabited

namespace Json

/-! ### Equality -/

mutual

/-- Whether two values are equal, fields in their order. -/
def same : Json → Json → Bool
  | .null, .null => true
  | .bool a, .bool b => a == b
  | .int a, .int b => a == b
  | .real a, .real b => a == b
  | .text a, .text b => a == b
  | .array a, .array b => sameItems a b
  | .object a, .object b => sameFields a b
  | _, _ => false

def sameItems : List Json → List Json → Bool
  | [], [] => true
  | v :: vs, w :: ws => same v w && sameItems vs ws
  | _, _ => false

def sameFields : List (Text × Json) → List (Text × Json) → Bool
  | [], [] => true
  | (k, v) :: vs, (l, w) :: ws => k == l && same v w && sameFields vs ws
  | _, _ => false

end

mutual

theorem same_iff : (a b : Json) → (same a b = true ↔ a = b)
  | .null, b => by cases b <;> simp [same]
  | .bool _, b => by cases b <;> simp [same]
  | .int _, b => by cases b <;> simp [same]
  | .real _, b => by cases b <;> simp [same]
  | .text _, b => by cases b <;> simp [same]
  | .array xs, b => by cases b <;> simp [same, sameItems_iff xs]
  | .object xs, b => by cases b <;> simp [same, sameFields_iff xs]

theorem sameItems_iff : (as bs : List Json) → (sameItems as bs = true ↔ as = bs)
  | [], bs => by cases bs <;> simp [sameItems]
  | v :: vs, bs => by cases bs <;> simp [sameItems, same_iff v, sameItems_iff vs]

theorem sameFields_iff : (as bs : List (Text × Json)) → (sameFields as bs = true ↔ as = bs)
  | [], bs => by cases bs <;> simp [sameFields]
  | (k, v) :: vs, bs => by
    cases bs with
    | nil => simp [sameFields]
    | cons f ws => simp [sameFields, same_iff v, sameFields_iff vs, Prod.ext_iff]

end

instance : DecidableEq Json := fun a b => decidable_of_iff _ (same_iff a b)

/-! ### Access -/

/-- The value of a field. -/
def field? (fields : List (Text × Json)) (key : Text) : Option Json := fields.lookup key

/-- A field of an object; other values have none. -/
def get? (v : Json) (key : Text) : Option Json :=
  match v with
  | .object fields => field? fields key
  | _ => none

/-- Whether a value counts as true: null, false, zero and what is empty do not. -/
def truthy : Json → Bool
  | .null => false
  | .bool b => b
  | .int n => n ≠ 0
  | .real (.finite _ m _) => m ≠ 0
  | .real _ => true
  | .text s => !s.isEmpty
  | .array items => !items.isEmpty
  | .object fields => !fields.isEmpty

/-- Whether a value equals the truth value true, as the number one does. -/
def equalsTrue : Json → Bool
  | .bool b => b
  | .int n => n = 1
  | .real x => x = Binary64.ofDecimal false 1 0
  | _ => false

/-- The number of decimal digits of an integer. -/
def digitCount (n : Int) : Nat := (Nat.toDigits 10 n.natAbs).length

/-- Integers with more digits are neither read nor written. -/
def maxIntegerDigits : Nat := 4300

/-- What a value is called in a message. -/
def typeName : Json → String
  | .null => "NoneType"
  | .bool _ => "bool"
  | .int _ => "int"
  | .real _ => "float"
  | .text _ => "str"
  | .array _ => "list"
  | .object _ => "dict"

/-! ### Display in messages -/

mutual

/-- A value as it is shown in a message, with texts in quotes. -/
def display : Json → String
  | .null => "None"
  | .bool b => if b then "True" else "False"
  | .int n => toString n
  | .real x => x.text
  | .text s => Quoted.quoted s
  | .array items => "[" ++ displayItems items ++ "]"
  | .object fields => "\x7b" ++ displayFields fields ++ "\x7d"

def displayItems : List Json → String
  | [] => ""
  | [v] => v.display
  | v :: w :: rest => v.display ++ ", " ++ displayItems (w :: rest)

def displayFields : List (Text × Json) → String
  | [] => ""
  | [(k, v)] => Quoted.quoted k ++ ": " ++ v.display
  | (k, v) :: f :: rest => Quoted.quoted k ++ ": " ++ v.display ++ ", " ++ displayFields (f :: rest)

end

/-- A value inside a running text: texts as they are, other values as displayed. -/
def plain : Json → Text
  | .text s => s
  | v => v.display

end Json

end Lexeme
