import AttrGrammar.Attribution
import AttrGrammar.Grammar.Draft
import AttrGrammar.Procedure.Construct

/-!
The procedure language.

A program is a JSON object. Its members are binds, `"key": value`, and special forms: `"&let"` with
a list of names, `"&ref"` with a name and `"&doc"` with a text.

Objects, arrays and strings are scanned in modes of their own, so that a comma between members and a
comma between items are different tokens. Folding makes strings, arrays and empty containers out of
scanned tokens. The program grammar is parsed over what folding leaves:

```text
document    = program | empty_object
program     = lbrace members rbrace
members     = member member_tail
member_tail = { next_member }
next_member = member_divider member
member      = bind | let_member | ref_member | doc_member
bind        = key colon value
let_member  = let_form colon params
ref_member  = ref_form colon string
doc_member  = doc_form colon string
params      = array | empty_array
key         = string | empty_string
value       = literal | array | empty_array | object | empty_object
literal     = string | empty_string | number | boolean | null
object      = lbrace members rbrace
```
-/

namespace AttrGrammar.Procedure

def numberPattern : String := "-?(?:0|[1-9][0-9]*)(?:\\.[0-9]+)?(?:[eE][+-]?[0-9]+)?"

/-- The scanned terminals and their patterns. -/
def terminals : List (String × String) := [
  ("ws", "[ \\t\\r\\n]+"),
  ("quote", "\""),
  ("item_quote", "\""),
  ("chars", "[^\"\\\\]+"),
  ("escape", "\\\\(?:[\"\\\\/bfnrt]|u[0-9a-fA-F]\x7b4\x7d)"),
  ("lbrace", "\\\x7b"),
  ("rbrace", "\\\x7d"),
  ("lbracket", "\\["),
  ("rbracket", "\\]"),
  ("item_lbracket", "\\["),
  ("item_rbracket", "\\]"),
  ("colon", ":"),
  ("member_divider", ","),
  ("item_divider", ","),
  ("number", numberPattern),
  ("item_number", numberPattern),
  ("boolean", "true|false"),
  ("item_boolean", "true|false"),
  ("null", "null"),
  ("item_null", "null"),
  ("let_form", "\"&let\""),
  ("ref_form", "\"&ref\""),
  ("doc_form", "\"&doc\""),
  ("unknown_form", "\"&[A-Za-z_][A-Za-z0-9_]*\"")]

/-- What may stand between the brackets of an array. -/
def arrayItems : List String := [
  "item_number", "item_string", "item_empty_string", "item_boolean", "item_null", "item_divider",
  "item_array", "item_empty_array"]

/-- Scanned terminals that the program grammar takes over. -/
def primitives : List Construct := [
  .lbrace, .rbrace, .colon, .memberDivider, .number, .boolean, .null, .letForm, .refForm, .docForm]

/-- Terminals that folding makes. -/
def folded : List Construct := [.string, .emptyString, .array, .emptyArray, .emptyObject]

/-- The grammar of scanned and folded tokens. The rules for arrays and their items refer to each
other. -/
def tokenGrammar : Except GrammarError Grammar := do
  let d ← terminals.foldlM (fun (d : Draft) (name, pattern) => d.addTerminal name pattern) {}
  let d ← d.addAlternation "string_content" ["chars", "escape"]
  let d ← d.addConcatenation "string" ["quote", "string_content", "quote"]
  let d ← d.addConcatenation "empty_string" ["quote", "quote"]
  let d ← d.addConcatenation "item_string" ["item_quote", "string_content", "item_quote"]
  let d ← d.addConcatenation "item_empty_string" ["item_quote", "item_quote"]
  let d ← d.addAlternation "array_items" arrayItems
  let d ← d.addConcatenation "item_array" ["item_lbracket", "array_items", "item_rbracket"]
  let d ← d.addConcatenation "item_empty_array" ["item_lbracket", "item_rbracket"]
  let d ← d.addConcatenation "array" ["lbracket", "array_items", "rbracket"]
  let d ← d.addConcatenation "empty_array" ["lbracket", "rbracket"]
  let d ← d.addConcatenation "empty_object" ["lbrace", "rbrace"]
  let d ← d.addAlternation "lexeme" ((primitives ++ folded).map Construct.name)
  let d ← d.addRepetition "token_stream" "lexeme"
  d.build "tokens" (some "token_stream")

/-- A pair of a member: key or form, colon, and value. -/
def pairs : List (Construct × List String) := [
  (.bind, ["key", "colon", "value"]),
  (.letMember, ["let_form", "colon", "params"]),
  (.refMember, ["ref_form", "colon", "string"]),
  (.docMember, ["doc_form", "colon", "string"])]

/-- The grammar of programs over folded tokens. -/
def programGrammar (tokens : Grammar) : Except GrammarError Grammar := do
  let braced := ["lbrace", "members", "rbrace"]
  let d ← primitives.foldlM (fun (d : Draft) s => d.importTerminal tokens s.name) {}
  let d ← folded.foldlM (fun (d : Draft) s => d.addAttrTerminal s.name [.line, .indent, .render]) d
  let d ← d.addAlternation Construct.document.name ["program", "empty_object"]
  let d ← d.addAttrProduction Construct.program.name braced [.render] [.scope]
  let d ← d.addConcatenation Construct.members.name ["member", "member_tail"]
  let d ← d.addRepetition Construct.memberTail.name "next_member"
  let d ← d.addConcatenation Construct.nextMember.name ["member_divider", "member"]
  let d ← d.addAlternation Construct.member.name ["bind", "let_member", "ref_member", "doc_member"]
  let d ← pairs.foldlM
    (fun (d : Draft) (s, terms) => d.addAttrProduction s.name terms [.render] [.scope]) d
  let d ← d.addAlternation "params" ["array", "empty_array"]
  let d ← d.addAlternation "key" ["string", "empty_string"]
  let d ← d.addAlternation "value" ["literal", "array", "empty_array", "object", "empty_object"]
  let d ← d.addAlternation "literal" ["string", "empty_string", "number", "boolean", "null"]
  let d ← d.addAttrProduction Construct.object.name braced [.render] [.scope]
  d.build "program" (some Construct.document.name)

/-- Members are scanned the same way at the top and inside an object. -/
def objectMode (name : String) (nesting : Bool) : LexMode :=
  { name, nesting
    rules := [
      ⟨"ws", .skip⟩, ⟨"let_form", .emit⟩, ⟨"ref_form", .emit⟩, ⟨"doc_form", .emit⟩,
      ⟨"unknown_form", .emit⟩, ⟨"quote", .push "string"⟩, ⟨"lbrace", .push "object"⟩,
      ⟨"rbrace", .pop⟩, ⟨"lbracket", .push "array"⟩, ⟨"colon", .emit⟩, ⟨"member_divider", .emit⟩,
      ⟨"number", .emit⟩, ⟨"boolean", .emit⟩, ⟨"null", .emit⟩] }

/-- Items of an array up to its closing bracket. -/
def arrayMode (name closing : String) : LexMode :=
  { name
    nesting := true
    rules := [
      ⟨"ws", .skip⟩, ⟨"item_quote", .push "item_string"⟩,
      ⟨"item_lbracket", .push "nested_array"⟩, ⟨closing, .pop⟩, ⟨"item_divider", .emit⟩,
      ⟨"item_number", .emit⟩, ⟨"item_boolean", .emit⟩, ⟨"item_null", .emit⟩] }

/-- The inside of a string up to its closing quote. -/
def stringMode (name quote : String) : LexMode :=
  { name
    nesting := false
    rules := [⟨"chars", .emit⟩, ⟨"escape", .emit⟩, ⟨quote, .pop⟩] }

def lexerSpec : LexerSpec :=
  { initial := "top"
    modes := [
      objectMode "top" false, objectMode "object" true, arrayMode "array" "rbracket",
      arrayMode "nested_array" "item_rbracket", stringMode "string" "quote",
      stringMode "item_string" "item_quote"] }

/-- Parts of strings are folded before strings, and items before arrays. -/
def foldPlan : FoldPlan := [
  .alternation "string_content", .concatenation "string", .concatenation "empty_string",
  .concatenation "item_string", .concatenation "item_empty_string", .alternation "array_items",
  .concatenation "item_array", .concatenation "item_empty_array", .concatenation "array",
  .concatenation "empty_array", .concatenation "empty_object"]

/-- The name of the language. -/
def languageName : String := "jproc"

/-- The procedure language. -/
def language : Except GrammarError Language := do
  let tokens ← tokenGrammar
  let program ← programGrammar tokens
  let l ← Language.make languageName tokens program lexerSpec foldPlan
  l.withUnknownForm Construct.unknownForm.name

/-- Every token with its line and its nesting depth. -/
def tokenizerOf (l : Language) : Attribution :=
  { name := "tokenizer"
    language := l
    decls := [
      { attr := .line, kind := .synthesized
        tokenHook := some fun _ context => some (.int context.line) },
      { attr := .indent, kind := .synthesized
        tokenHook := some fun _ context => some (.int context.depth) }] }

def tokenizer : Except GrammarError Attribution := language.map tokenizerOf

end AttrGrammar.Procedure
