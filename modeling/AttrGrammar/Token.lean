import AttrGrammar.Attribute
import AttrGrammar.Text.Quoted

/-!
Tokens: a piece of the source under the name of the rule it matched, with the attributes found for
it on the way.
-/

namespace AttrGrammar

structure Token where
  name : String
  lexeme : String
  attrs : Attributes := {}
  deriving DecidableEq, Inhabited

namespace Token

def line? (t : Token) : Option Nat := t.attrs.line?

/-- A token with one more synthesized value. -/
def withAttr (t : Token) (a : Attr) (v : AttrValue) : Token :=
  { t with attrs := t.attrs.set .synthesized a v }

/-- A token at a line and nesting depth. -/
def placed (name lexeme : String) (line indent : Nat) : Token :=
  ((Token.mk name lexeme {}).withAttr .line (.int line)).withAttr .indent (.int indent)

/-- A token in a message: its name, and its lexeme in quotes. -/
def display (t : Token) : String := t.name ++ "(" ++ Text.quoted t.lexeme ++ ")"

/-- The lexemes of a run of tokens, joined. -/
def joinLexemes (parts : List Token) : String := String.join (parts.map (·.lexeme))

end Token

end AttrGrammar
