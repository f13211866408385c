import AttrGrammar.Table

/-! The values that a program binds to names, and the table of them. -/

namespace AttrGrammar.Procedure

inductive SpecialForm where
  | letForm
  | refForm
  | docForm
  deriving DecidableEq, Repr, Inhabited

def SpecialForm.name : SpecialForm → String
  | letForm => "let"
  | refForm => "ref"
  | docForm => "doc"

inductive Value where
  | boolean (b : Bool)
  | number (x : Float)
  | string (s : String)
  | list (items : List Value)
  | variableRef (name : String)
  | procedure (form : SpecialForm) (args : List Value)
  /-- A null, or a parameter that nothing has bound yet. -/
  | unbound
  /-- An object, whose members are bound under its name. -/
  | scope
  deriving Inhabited

namespace Value

def string? : Value → Option String
  | string s => some s
  | _ => none

/-- What a value is called in messages. -/
def kindName : Value → String
  | boolean _ => "boolean"
  | number _ => "number"
  | string _ => "string"
  | list _ => "list"
  | variableRef _ => "variable reference"
  | procedure .. => "procedure"
  | unbound => "null"
  | scope => "object"

end Value

/-- The names of a program with their values, in the order in which they were first met. -/
abbrev SymbolTable := Table Value

end AttrGrammar.Procedure
