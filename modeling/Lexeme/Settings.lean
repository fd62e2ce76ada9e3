import Lexeme.Config

/-! Settings as they are active. What stands in the place of the rules passes for a table until a
rule of it is needed, so that settings may be active which no run can use. -/

namespace Lexeme

/-- A configuration, or the categories of settings whose rules are none: these are matched, but no
match can be resolved. -/
inductive Settings where
  | ready (config : Config)
  | unresolvable (categories : List Category)
deriving DecidableEq

namespace Settings

def standard : Settings := .ready .standard

/-- The settings for a whole run. -/
def config : Settings → Except Config.Fault Config
  | .ready c => .ok c
  | .unresolvable _ => .error .notRules

end Settings

end Lexeme
