import AttrGrammar.Json.Reader

/-!
What may be compiled at all: a JSON object in whose arrays there is no object.
-/

namespace AttrGrammar.Procedure

/-- What an accepted source holds. -/
inductive InputKind where
  /-- An object without members, which compiles to nothing. -/
  | empty
  | program
  deriving DecidableEq, Repr, Inhabited

inductive InputError where
  | malformed (message : String) (line column : Nat)
  | notAnObject
  /-- An object inside an array, and its path from the top. -/
  | objectInArray (path : String)
  deriving DecidableEq, Repr, Inhabited

def InputError.message : InputError → String
  | malformed message line column => s!"{message} (line {line}, column {column})"
  | notAnObject => "the top level must be a JSON object"
  | objectInArray path => s!"objects are not supported inside arrays (at {path})"

def isValidJson (source : String) : Bool := (Json.read source).isOk

/-- The members of the object that a source spells. -/
def membersOf (source : String) : Except InputError (List (String × Json)) :=
  match Json.read source with
  | .error e => .error (.malformed e.message e.line e.column)
  | .ok (.object members) => .ok members
  | .ok _ => .error .notAnObject

mutual

/-- The path of the first object inside an array, in a value at a path. -/
def objectInArray? (path : String) (inArray : Bool) : Json → Option String
  | .object members => if inArray then some path else objectInMembers? (path ++ ".") members
  | .array items => objectInItems? path 0 items
  | _ => none

def objectInMembers? (lead : String) : List (String × Json) → Option String
  | [] => none
  | (name, value) :: rest =>
    objectInArray? (lead ++ name) false value <|> objectInMembers? lead rest

def objectInItems? (path : String) (index : Nat) : List Json → Option String
  | [] => none
  | item :: rest =>
    objectInArray? (path ++ s!"[{index}]") true item <|> objectInItems? path (index + 1) rest

end

def checkInput (source : String) : Except InputError InputKind := do
  let members ← membersOf source
  match objectInMembers? "" members with
  | some path => .error (.objectInArray path)
  | none => .ok (if members.isEmpty then .empty else .program)

end AttrGrammar.Procedure
