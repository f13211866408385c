import AttrGrammar.Token

/-! Sample programs by name, and what is known about them. -/

namespace AttrGrammar.Procedure

/-- A program in canonical layout that uses every construct. -/
def inventory : String := "\x7b
  \"title\": \"Inventory report\",
  \"version\": 2,
  \"enabled\": true,
  \"&doc\": \"Summarises stock levels per warehouse\",
  \"&let\": [\"threshold\", \"region\"],
  \"threshold\": 10.5,
  \"matrix\": [[1, 2], [3, 4], []],
  \"tags\": [\"a\", \"b\\\"c\", \"\"],
  \"warehouse\": \x7b
    \"name\": \"north\",
    \"label\": \"\",
    \"nothing\": null,
    \"limits\": \x7b
      \"low\": -1,
      \"high\": 1e3
    \x7d,
    \"empty\": \x7b\x7d
  \x7d,
  \"alias\": \x7b
    \"&ref\": \"warehouse\"
  \x7d
\x7d
"

/-- The names that `inventory` defines, in the order of its symbol table. -/
def inventorySymbols : List String := [
  "title", "version", "enabled", "&doc", "threshold", "region", "matrix", "tags", "warehouse",
  "warehouse.name", "warehouse.label", "warehouse.nothing", "warehouse.limits",
  "warehouse.limits.low", "warehouse.limits.high", "warehouse.empty", "alias"]

/-- A program on one line. -/
def compact : String :=
  "\x7b\"id\":7,\"&let\":[\"x\"],\"x\":[true,false,null]," ++
  "\"nested\":\x7b\"&doc\":\"inner\",\"deep\":\x7b\"k\":\"v\\\\n\"\x7d\x7d," ++
  "\"list\":[[],[[]],\"s\"]\x7d\n"

/-- The sample programs. -/
def samples : List (String × String) := [
  ("inventory.json", inventory), ("compact.json", compact), ("empty.json", "\x7b\x7d\n")]

def sample? (name : String) : Option String := samples.lookup name

/-- Folded tokens on the first line, outside all brackets. -/
def placedTokens (parts : List (String × String)) : List Token :=
  parts.map fun (name, lexeme) => Token.placed name lexeme 1 0

end AttrGrammar.Procedure
