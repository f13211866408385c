import AttrGrammar.Table

/-! JSON values. The members of an object stand in the order in which their names were first met. -/

namespace AttrGrammar

inductive Json where
  | null
  | bool (b : Bool)
  | int (n : Int)
  | float (x : Float)
  | string (s : String)
  | array (items : List Json)
  | object (members : List (String × Json))
  deriving Inhabited

/-- The name of a value's type. -/
def Json.typeName : Json → String
  | null => "null"
  | bool _ => "boolean"
  | int _ | float _ => "number"
  | string _ => "string"
  | array _ => "array"
  | object _ => "object"

end AttrGrammar
