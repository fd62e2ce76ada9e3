import Lexeme.Settings
import Lexeme.Text.UpperCase

/-! The JSON form in which settings are handed in. Categories are given by name; a table of rules
is a list of objects or the name of a table. Nothing that runs on settings depends on it. -/

namespace Lexeme

namespace Config

/-! ### Categories and rules -/

/-- The category with a name, in upper or lower case. -/
def readCategory (value : Json) : Except Fault Category :=
  match value.plain.string?.bind fun s => Category.ofName? (UpperCase.upper s) with
  | some c => .ok c
  | none => .error (.unknownCategory value)

/-- The values that a collection runs through: a text is a single one, and an object its keys. -/
def members : Json → Except Fault (List Json)
  | .text s => .ok [.text s]
  | .array items => .ok items
  | .object fields => .ok (fields.map fun f => .text f.1)
  | _ => .error .wrongType

/-- The categories that a value names, by marker index. -/
def readCategories (value : Json) : Except Fault (List Category) := do
  let values ← members value
  return Category.normalize (← values.mapM readCategory)

/-- Whether a value is an array or an object. -/
def isCollection : Json → Bool
  | .array _ => true
  | .object _ => true
  | _ => false

/-- The categories that a value names, where each item of an array is first looked up under its
exact name. A collection among the items cannot be looked up. -/
def lookUpCategories (value : Json) : Except Fault (List Category) :=
  match value with
  | .array items => if items.any isCollection then .error .wrongType else readCategories value
  | _ => readCategories value

/-- The category with exactly the given name. -/
def readName (value : Json) : Except Fault Category :=
  if isCollection value then .error .wrongType
  else
    match value.plain.string?.bind Category.ofName? with
    | some c => .ok c
    | none => .error .missing

/-- The categories of one side of a rule, under their exact names. -/
def readSide : Option Json → Except Fault (List Category)
  | some value => do
    let values ← members value
    values.mapM readName
  | none => .error .missing

/-- A rule given as an object; a name that does not count as true stands for none. -/
def readRule : Json → Except Fault Rule
  | .object fields => do
    let outer ← readSide (Json.field? fields "outer")
    let inner ← readSide (Json.field? fields "inner")
    let exhaustive := ((Json.field? fields "exhaustive").getD (.bool false)).truthy
    let given := (Json.field? fields "name").getD .null
    let name := if given.truthy then given.plain.shown else ""
    match Rule.make? outer inner exhaustive name with
    | .ok r => .ok r
    | .error f => .error (.badRule f)
  | _ => .error .wrongType

/-- The tables that have a name. -/
def table? : String → Option (List Rule)
  | "C11" => some Rule.c11
  | "SUPPLEMENTARY" => some Rule.supplementary
  | "DEFAULT" => some Rule.standard
  | _ => none

/-- A table of rules: a list of rules or the name of a table. Of objects only the empty one holds no
more than rules. -/
def readRules : Json → Except Fault (List Rule)
  | .text s =>
    match s.string?.bind table? with
    | some rules => .ok rules
    | none => .error .missing
  | .array items => items.mapM readRule
  | .object [] => .ok []
  | .object _ => .error .notRules
  | _ => .error .wrongType

/-- A list of rules or the name of a table has its rules read before the categories; any other value
is refused after them. -/
def rulesFirst : Json → Bool
  | .text _ => true
  | .array _ => true
  | _ => false

end Config

/-! ### Settings -/

namespace Settings

/-- Settings with rules that were read last. -/
def withRules (categories : List Category) (repair : Json) :
    Except Config.Fault (List Rule) → Except Config.Fault Settings
  | .ok rules => .ok (.ready ⟨categories, rules, repair⟩)
  | .error .notRules => .ok (.unresolvable categories)
  | .error f => .error f

/-- Settings from the fields of an object; unknown fields are left aside. -/
def ofFields (fields : List (Text × Json)) : Except Config.Fault Settings := do
  let rulesValue := Json.field? fields "rules"
  let early ←
    match rulesValue with
    | some v => if Config.rulesFirst v then (Config.readRules v).map some else pure none
    | none => pure (some Rule.standard)
  let categories ←
    match Json.field? fields "categories" with
    | some v => Config.readCategories v
    | none => pure Category.all
  let repair := (Json.field? fields "repair_overlaps").getD (.bool true)
  match early with
  | some rules => return .ready ⟨categories, rules, repair⟩
  | none => withRules categories repair (Config.readRules (rulesValue.getD .null))

/-- Settings from an object; other values are refused. -/
def read : Json → Except Config.Fault Settings
  | .object fields => ofFields fields
  | _ => .error .wrongType

end Settings

/-- Settings from an object, with rules that can be used. -/
def Config.read (value : Json) : Except Config.Fault Config := do
  let settings ← Settings.read value
  settings.config

end Lexeme
