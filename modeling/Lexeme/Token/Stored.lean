import Lexeme.Json.Reader
import Lexeme.Json.Writer
import Lexeme.Token.Basic

/-! Tokens stored as JSON. A stored token has a known category; its other fields hold whatever
values were stored and are not checked. -/

namespace Lexeme

/-- A token as it is stored. -/
structure StoredToken where
  category : Category
  value : Json
  start : Json
  stop : Json
  line : Json
  column : Json
  endLine : Json
  endColumn : Json
  sourceFile : Json
deriving DecidableEq

namespace StoredToken

def ofInt? : Option Int → Json
  | some n => .int n
  | none => .null

def ofText? : Option String → Json
  | some s => .text s
  | none => .null

/-- The stored form of a token. -/
def ofToken (t : Token) : StoredToken :=
  ⟨t.category, .text t.value, .int t.start, .int t.stop, .int t.line, .int t.column,
    ofInt? t.endLine, ofInt? t.endColumn, ofText? t.sourceFile⟩

/-! ### Texts for messages -/

/-- The longest value that is shown whole. -/
def shownLength : Nat := 20

/-- A value as it is shown: a long text is cut after seventeen characters. A value without a length
cannot be shown, and neither can a long collection. -/
def shownValue : Json → Option String
  | .text s =>
    some (Quoted.quoted (if shownLength < s.length then s.take 17 ++ "..." else s))
  | .array items => if shownLength < items.length then none else some (Json.array items).display
  | .object fields =>
    if shownLength < fields.length then none else some (Json.object fields).display
  | _ => none

/-- Category, value, line and column of a token. -/
def describe (t : StoredToken) : Option Text :=
  (shownValue t.value).map fun v =>
    "Token(" ++ t.category.name ++ ", " ++ v ++ ", " ++ t.line.plain ++ ":" ++ t.column.plain ++ ")"

/-- The place of a token, with its file if it has one. -/
def locationText (t : StoredToken) : Text :=
  let place := t.line.plain ++ ":" ++ t.column.plain
  if t.sourceFile.truthy then t.sourceFile.plain ++ ":" ++ place else place

/-! ### Writing -/

/-- The object that stands for a token. -/
def toJson (t : StoredToken) : Json :=
  .object
    [("category", .text t.category.name), ("value", t.value), ("start", t.start),
     ("end", t.stop), ("lineno", t.line), ("col", t.column), ("end_lineno", t.endLine),
     ("end_col", t.endColumn), ("source_file", t.sourceFile)]

/-- A list of tokens as the text of a JSON array. -/
def write (indent : Json.Indent) (tokens : List StoredToken) : Except Json.WriteFault String :=
  Json.render? indent (.array (tokens.map toJson))

/-! ### Reading -/

/-- The fields that a stored token has to have. -/
def required : List String := ["category", "value", "start", "end", "lineno", "col"]

/-- Why a value or a text is no stored token. -/
inductive Fault where
  | missing (names : List String)
  | unknownCategory (value : Json)
  | notArray (value : Json)
  | wrongType
  | malformed (fault : Json.Fault)

/-- The message of a fault in a text. -/
def Fault.message (text : String) : Fault → String
  | .missing names => "Missing field(s) in serialized token: " ++ ", ".intercalate names
  | .unknownCategory value => "Unknown token category: " ++ value.display
  | .notArray value => "Expected a JSON array of tokens, got " ++ value.typeName
  | .wrongType => ""
  | .malformed fault => fault.message text

/-- The given code points stand one after another in a text. -/
def occursIn (part : List CodePoint) : List CodePoint → Bool
  | [] => part.isEmpty
  | p :: ps => part.isPrefixOf (p :: ps) || occursIn part ps

/-- Whether a name is found in a value: as a key of an object, an item of an array or a part of a
text. Nothing is found in other values, which is an error. -/
def finds : Json → Option (String → Bool)
  | .object fields => some fun name => (Json.field? fields name).isSome
  | .array items => some fun name => items.any fun v =>
      match v with
      | .text s => s == Text.ofString name
      | _ => false
  | .text s => some fun name => occursIn (Text.ofString name).points s.points
  | _ => none

/-- The category that a stored value names. -/
def readCategory : Json → Except Fault Category
  | .text s =>
    match s.string?.bind Category.ofName? with
    | some c => .ok c
    | none => .error (.unknownCategory (.text s))
  | .array _ => .error .wrongType
  | .object _ => .error .wrongType
  | v => .error (.unknownCategory v)

/-- The token of an object that has all required fields; other fields that are absent are null. -/
def ofFields (fields : List (Text × Json)) : Except Fault StoredToken :=
  let get (name : Text) : Json := (Json.field? fields name).getD .null
  (readCategory (get "category")).map fun c =>
    ⟨c, get "value", get "start", get "end", get "lineno", get "col", get "end_lineno",
      get "end_col", get "source_file"⟩

/-- The token that a value stands for. -/
def ofJson (v : Json) : Except Fault StoredToken :=
  match finds v with
  | none => .error .wrongType
  | some found =>
    let absent := required.filter fun name => !found name
    if absent.isEmpty then
      match v with
      | .object fields => ofFields fields
      | _ => .error .wrongType
    else .error (.missing absent)

/-- The tokens of a list of values; the first value that is none decides the fault. -/
def ofItems : List Json → Except Fault (List StoredToken)
  | [] => .ok []
  | v :: rest =>
    match ofJson v with
    | .error f => .error f
    | .ok t => (ofItems rest).map (t :: ·)

/-- The tokens of the text of a JSON array that is nested at most to the given depth. -/
def read (depth : Nat) (text : String) : Except Fault (List StoredToken) :=
  match Json.parse depth text with
  | .error f => .error (.malformed f)
  | .ok (.array items) => ofItems items
  | .ok v => .error (.notArray v)

/-- Whether tokens come back from a text as they were. -/
def roundTrips (depth : Nat) (text : String) (tokens : List StoredToken) : Bool :=
  match read depth text with
  | .ok back => back == tokens
  | .error _ => false

end StoredToken

end Lexeme
