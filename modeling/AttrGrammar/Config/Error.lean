/-! What can be wrong with a configuration, or with the name of one. -/

namespace AttrGrammar

inductive ConfigError where
  | yaml (reason : String)
  | json (reason : String)
  | notFound (name : String)
  deriving DecidableEq, Repr, Inhabited

def ConfigError.message : ConfigError → String
  | yaml reason => s!"invalid YAML configuration: {reason}"
  | json reason => s!"invalid JSON configuration: {reason}"
  | notFound name => s!"Config '{name}' not found"

end AttrGrammar
