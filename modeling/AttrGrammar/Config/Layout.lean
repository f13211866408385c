import AttrGrammar.Config.Error
import AttrGrammar.Json.Skip
import AttrGrammar.Layout
import AttrGrammar.Yaml.Reader

/-!
Layouts written in JSON or YAML.

A field that is left out has its usual value, a field that comes twice is refused, and members that
are no fields are passed over. In JSON the values may also be listed without names.
-/

namespace AttrGrammar.Layout

/-- The fields found so far. -/
structure Fields where
  indentWidth : Option Nat := none
  trailingNewline : Option Bool := none
  deriving DecidableEq, Repr, Inhabited

/-- A layout with the fields that were found. -/
def ofFields (fields : Fields) : Layout :=
  let usual : Layout := {}
  { indentWidth := fields.indentWidth.getD usual.indentWidth
    trailingNewline := fields.trailingNewline.getD usual.trailingNewline }

def widthName : String := "indent_width"

def newlineName : String := "trailing_newline"

def readWidth? (text : List Char) : Option (Nat × List Char) :=
  match Json.readValue (2 * text.length + 2) Json.depthLimit text with
  | .ok (.int n, rest) => if n < 0 then none else some (n.natAbs, rest)
  | _ => none

def readNewline? (text : List Char) : Option (Bool × List Char) :=
  match Json.readValue (2 * text.length + 2) Json.depthLimit text with
  | .ok (.bool b, rest) => some (b, rest)
  | _ => none

/-- Reads the value of a member. -/
def readField? (fields : Fields) (name : String) (text : List Char) :
    Option (Fields × List Char) :=
  if name = widthName then
    if fields.indentWidth.isSome then none
    else (readWidth? text).map fun (n, rest) => ({ fields with indentWidth := some n }, rest)
  else if name = newlineName then
    if fields.trailingNewline.isSome then none
    else (readNewline? text).map fun (b, rest) => ({ fields with trailingNewline := some b }, rest)
  else (Json.skipValue? (2 * text.length + 2) text).map (fields, ·)

/-- Reads the members of an object and its closing brace. -/
def readFields? : Nat → Bool → Fields → List Char → Option (Fields × List Char)
  | 0, _, _, _ => none
  | fuel + 1, first, fields, text => do
    let (more, rest) ← (Json.nextKey first text).toOption
    if more then
      let (name, rest) ← (Json.readString rest).toOption
      let ((), rest) ← (Json.readColon rest).toOption
      let (fields, rest) ← readField? fields name rest
      readFields? fuel false fields rest
    else some (fields, rest)

/-- Reads values in the order of the fields and the closing bracket. -/
def readList? (text : List Char) : Option (Fields × List Char) := do
  let (more, rest) ← (Json.nextItem true text).toOption
  if !more then return ({}, rest)
  let (width, rest) ← readWidth? rest
  let fields : Fields := { indentWidth := some width }
  let (more, rest) ← (Json.nextItem false rest).toOption
  if !more then return (fields, rest)
  let (newline, rest) ← readNewline? rest
  let fields := { fields with trailingNewline := some newline }
  let (more, rest) ← (Json.nextItem false rest).toOption
  if more then none else some (fields, rest)

def ofJsonText? (text : List Char) : Option Layout := do
  let (fields, rest) ← match Json.skipBlanks text with
    | '{' :: rest => readFields? text.length true {} rest
    | '[' :: rest => readList? rest
    | _ => none
  if (Json.skipBlanks rest).isEmpty then some (ofFields fields) else none

/-- The layout that a JSON text describes. -/
def ofJson (text : String) : Except ConfigError Layout :=
  match ofJsonText? text.toList with
  | some layout => .ok layout
  | none => .error (.json "not a layout")

/-- Takes a member of a mapping. -/
def addMember? (fields : Fields) (member : Yaml × Yaml) : Option Fields := do
  let name ← member.1.text?
  if name = widthName then
    if fields.indentWidth.isSome then none
    else member.2.nat?.map fun n => { fields with indentWidth := some n }
  else if name = newlineName then
    if fields.trailingNewline.isSome then none
    else member.2.bool?.map fun b => { fields with trailingNewline := some b }
  else some fields

/-- The layout that a YAML text describes. -/
def ofYaml (text : String) : Except ConfigError Layout := do
  let value ← (Yaml.read text).mapError fun fault => .yaml fault.message
  match value.members?.bind fun members => members.foldlM addMember? {} with
  | some fields => .ok (ofFields fields)
  | none => .error (.yaml "not a layout")

end AttrGrammar.Layout
