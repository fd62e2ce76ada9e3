import Lexeme.Json.Basic
import Lexeme.Rule

/-! The configuration of the lexer: which categories are matched, by which rules nested matches are
resolved, and whether overlaps are repaired; and why settings make no configuration. -/

namespace Lexeme

/-- The settings of a run. The wish for repair is kept as it was given; any value that counts as
true asks for it. -/
structure Config where
  categories : List Category
  rules : List Rule
  repair : Json
deriving DecidableEq

namespace Config

/-- All categories, the standard table and repair. -/
def standard : Config := ⟨Category.all, Rule.standard, .bool true⟩

/-- Whether overlaps are repaired. -/
def repairs (c : Config) : Bool := c.repair.truthy

/-- Whether the settings are equal to the standard ones. -/
def isStandard (c : Config) : Bool :=
  c.categories == standard.categories && c.rules == standard.rules && c.repair.equalsTrue

/-- Why settings cannot be read, or not be used: of rules, a name or a side may be missing, and what
stands in their place may be none. -/
inductive Fault where
  | unknownCategory (value : Json)
  | badRule (fault : Rule.Fault)
  | wrongType
  | missing
  | notRules

/-- The option that a fault is about. -/
def Fault.option : Fault → String
  | .unknownCategory _ => "categories"
  | .badRule _ => "rules"
  | .wrongType => ""
  | .missing => "rules"
  | .notRules => "rules"

/-- What is wrong with the option. -/
def Fault.detail : Fault → String
  | .unknownCategory value => "unknown category " ++ value.display
  | .badRule fault => fault.message
  | .wrongType => ""
  | .missing => "not found"
  | .notRules => "not a rule"

/-- A message about an option. -/
def optionMessage (option detail : String) : String := "Option '" ++ option ++ "': " ++ detail

def Fault.message (f : Fault) : String := optionMessage f.option f.detail

end Config

end Lexeme
