import AttrGrammar.Pattern.CharSet
import AttrGrammar.Pattern.Reader
import AttrGrammar.Text.Classes
import AttrGrammar.Text.Unicode.Age
import AttrGrammar.Text.Unicode.Break
import AttrGrammar.Text.Unicode.Category
import AttrGrammar.Text.Unicode.Folding
import AttrGrammar.Text.Unicode.Property
import AttrGrammar.Text.Unicode.Script

/-!
Classes of characters that are named after properties in Unicode.

A name alone is that of a property, a general category or a script. Case, blanks, underscores,
hyphens and what is not in ASCII do not count in names, and neither does `is` before them.
-/

namespace AttrGrammar

open Text.Unicode

namespace CharSet

/-- The characters whose classes are wanted. -/
def ofRuns (wanted : Nat → Bool) (runs : Runs) : CharSet :=
  ofBounds (boundsWhere wanted 0 false runs)

/-- What characters are folded to, where these are not themselves. -/
def foldings : List (Nat × Nat) :=
  Text.Unicode.foldings.flatMap fun run =>
    (List.range run.count).map fun i => (run.first + i * run.step, run.folded + i * run.step)

/-- The foldings of ASCII. -/
def asciiFoldings : List (Nat × Nat) :=
  (List.range 26).map fun i => ('A'.toNat + i, 'a'.toNat + i)

end CharSet

namespace Pattern.Syntax

/-- A name without what does not count in it. -/
def looseName (name : List Char) : List Char :=
  let isPrefixed := match name with
    | a :: b :: _ => a.toLower == 'i' && b.toLower == 's'
    | _ => false
  let counted := ((if isPrefixed then name.drop 2 else name).filter fun c =>
    c.toNat < 128 && c != ' ' && c != '_' && c != '-').map Char.toLower
  -- this one is the name of a property that begins with `is` itself
  if isPrefixed && counted == ['c'] then ['i', 's', 'c'] else counted

/-- What a name stands for. -/
def named? {α : Type} (name : String) (table : List (List String × α)) : Option α :=
  (table.find? fun entry => entry.1.contains name).map Prod.snd

/-- The number of a name. -/
def placeOf? (name : String) (table : List (List String)) : Option Nat :=
  table.findIdx? fun names => names.contains name

def categoryClass? (name : String) : Option CharSet :=
  let unassigned := CharSet.ofRuns (· == 28) categories
  if name = "any" then some .all
  else if name = "assigned" then some unassigned.complement
  else if name = "ascii" then some (.between 0 128)
  else (named? name categoryNames).map fun wanted => .ofRuns wanted.contains categories

def scriptClass? (name : String) : Option CharSet :=
  (placeOf? name scriptNames).map fun n => .ofRuns (· == n) scripts

/-- The characters that are used with a script. -/
def extensionClass? (name : String) : Option CharSet :=
  (placeOf? name scriptNames).map fun n =>
    let own := (CharSet.ofRuns (· == n) scripts).inter (.ofRuns (· == 0) extensions)
    own.union (.ofRuns (fun i => i != 0 && (extensionSets.getD (i - 1) []).contains n) extensions)

/-- The characters of a version and of those before it. -/
def ageClass? (name : String) : Option CharSet :=
  (placeOf? name versionNames).map fun n => .ofRuns (· ≤ n) ages

def breakClass? (name : String) (names : List (List String)) (breaks : Runs) : Option CharSet :=
  (placeOf? name names).map fun n => .ofRuns (· == n) breaks

/-- The class of a name alone. Three names are those of categories, although there are properties
with these names. -/
def propertyClass? (name : List Char) : Option CharSet :=
  let name := String.ofList (looseName name)
  let property := if name = "cf" ∨ name = "sc" ∨ name = "lc" then none
    else named? name properties
  match property with
  | some bounds => some (.ofBounds bounds)
  | none => (categoryClass? name).orElse fun _ => scriptClass? name

/-- The class of a value of a property. -/
def valueClass? (property value : List Char) : Option CharSet :=
  let value := String.ofList (looseName value)
  match String.ofList (looseName property) with
  | "gc" | "generalcategory" => categoryClass? value
  | "sc" | "script" => scriptClass? value
  | "scx" | "scriptextensions" => extensionClass? value
  | "age" => ageClass? value
  | "gcb" | "graphemeclusterbreak" => breakClass? value graphemeBreakNames graphemeBreaks
  | "wb" | "wordbreak" => breakClass? value wordBreakNames wordBreaks
  | "sb" | "sentencebreak" => breakClass? value sentenceBreakNames sentenceBreaks
  | _ => none

/-- What stands before a separator and behind it. -/
def cut? (separator : List Char) : List Char → Option (List Char × List Char)
  | [] => none
  | c :: rest =>
    match behind? separator (c :: rest) with
    | some left => some ([], left)
    | none => (cut? separator rest).map fun (before, left) => (c :: before, left)

/-- The class that is written in braces. -/
def unicodeClass? (text : List Char) : Option CharSet :=
  match ((cut? ['!', '='] text).orElse fun _ => cut? [':'] text).orElse fun _ => cut? ['='] text with
  | some (property, value) => valueClass? property value
  | none => propertyClass? text

/-- Whether a group may be named so. A name begins with a letter or an underscore. -/
def isGroupName (name : List Char) : Bool :=
  let isLetter (c : Char) : Bool := c.isAlpha ||
    c.toNat ≥ 128 && insideBounds false alphabetic (CharSet.ordinal c)
  let isNumber (c : Char) : Bool := c.isDigit ||
    c.toNat ≥ 128 && ((categoryClass? "n").any fun s => s.contains c)
  match name with
  | [] => false
  | first :: rest => (first == '_' || isLetter first) && rest.all fun c =>
      c == '_' || c == '.' || c == '[' || c == ']' || isLetter c || isNumber c

end Pattern.Syntax

end AttrGrammar
