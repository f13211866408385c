/-!
Attributes of tokens and tree nodes.

A value flows up, from tokens and children, or down, from the parent, and the two kinds are kept
apart. There are four attributes, each with at most one value of each kind.
-/

namespace AttrGrammar

inductive Attr where
  /-- The line of a token's first character, counted from one. -/
  | line
  /-- How many nesting brackets stand open at a token. -/
  | indent
  /-- Source text in canonical layout. -/
  | render
  /-- The dotted path of the enclosing binds. -/
  | scope
  deriving DecidableEq, Repr, Inhabited

namespace Attr

def all : List Attr := [line, indent, render, scope]

def name : Attr → String
  | line => "line"
  | indent => "indent"
  | render => "render"
  | scope => "scope"

theorem mem_all (a : Attr) : a ∈ all := by cases a <;> decide

end Attr

/-- Which way a value flows. -/
inductive AttrKind where
  | synthesized
  | inherited
  deriving DecidableEq, Repr, Inhabited

def AttrKind.name : AttrKind → String
  | synthesized => "synthesized"
  | inherited => "inherited"

inductive AttrValue where
  | int (n : Nat)
  | text (s : String)
  deriving DecidableEq, Repr, Inhabited

namespace AttrValue

def int? : AttrValue → Option Nat
  | int n => some n
  | text _ => none

def text? : AttrValue → Option String
  | text s => some s
  | int _ => none

def display : AttrValue → String
  | int n => toString n
  | text s => s

end AttrValue

/-- At most one value for each attribute. -/
structure AttrMap where
  line : Option AttrValue := none
  indent : Option AttrValue := none
  render : Option AttrValue := none
  scope : Option AttrValue := none
  deriving DecidableEq, Repr, Inhabited

namespace AttrMap

def get? (m : AttrMap) : Attr → Option AttrValue
  | .line => m.line
  | .indent => m.indent
  | .render => m.render
  | .scope => m.scope

def set (m : AttrMap) (a : Attr) (v : AttrValue) : AttrMap :=
  match a with
  | .line => { m with line := some v }
  | .indent => { m with indent := some v }
  | .render => { m with render := some v }
  | .scope => { m with scope := some v }

/-- The attributes that have a value, in their order. -/
def toList (m : AttrMap) : List (Attr × AttrValue) :=
  Attr.all.filterMap fun a => (m.get? a).map (a, ·)

def isEmpty (m : AttrMap) : Bool := m.toList.isEmpty

theorem get?_set (m : AttrMap) (a b : Attr) (v : AttrValue) :
    (m.set a v).get? b = if b = a then some v else m.get? b := by
  cases a <;> cases b <;> rfl

theorem mem_toList {m : AttrMap} {a : Attr} {v : AttrValue} :
    (a, v) ∈ m.toList ↔ m.get? a = some v := by
  simp [toList, Attr.mem_all]

end AttrMap

/-- The values a token or node carries. -/
structure Attributes where
  synthesized : AttrMap := {}
  inherited : AttrMap := {}
  deriving DecidableEq, Repr, Inhabited

namespace Attributes

def get? (attrs : Attributes) : AttrKind → Attr → Option AttrValue
  | .synthesized, a => attrs.synthesized.get? a
  | .inherited, a => attrs.inherited.get? a

def set (attrs : Attributes) : AttrKind → Attr → AttrValue → Attributes
  | .synthesized, a, v => { attrs with synthesized := attrs.synthesized.set a v }
  | .inherited, a, v => { attrs with inherited := attrs.inherited.set a v }

def isEmpty (attrs : Attributes) : Bool :=
  attrs.synthesized.isEmpty && attrs.inherited.isEmpty

def line? (attrs : Attributes) : Option Nat := attrs.synthesized.line.bind AttrValue.int?

def indent? (attrs : Attributes) : Option Nat := attrs.synthesized.indent.bind AttrValue.int?

def render? (attrs : Attributes) : Option String := attrs.synthesized.render.bind AttrValue.text?

def scope? (attrs : Attributes) : Option String := attrs.inherited.scope.bind AttrValue.text?

theorem get?_set (attrs : Attributes) (k k' : AttrKind) (a b : Attr) (v : AttrValue) :
    (attrs.set k a v).get? k' b = if k' = k ∧ b = a then some v else attrs.get? k' b := by
  cases k <;> cases k' <;> simp [set, get?, AttrMap.get?_set]

end Attributes

end AttrGrammar
