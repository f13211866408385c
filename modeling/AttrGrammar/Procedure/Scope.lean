import AttrGrammar.Attribution
import AttrGrammar.Json.Reader
import AttrGrammar.Procedure.SyntaxTree

/-!
Scopes: the dotted path of the keys under which a node stands.

The root has the empty scope. The value of a bind extends the scope of the bind by its key; every
other node has the scope of its parent.
-/

namespace AttrGrammar.Procedure

/-- A name inside a scope. -/
def join (scope name : String) : String := if scope.isEmpty then name else scope ++ "." ++ name

/-- The key of a bind, decoded. -/
def bindKey? (tree : ParseTree) (pair : NodeId) : Option String :=
  (tree.children pair).head?.bind fun key => Json.decodeString? (tree.lexemeOf key)

def scopeFor (tree : ParseTree) (id : NodeId) : String :=
  match tree.parent? id with
  | none => ""
  | some parent =>
    let above := ((tree.node? parent).bind (·.attrs.scope?)).getD ""
    let isBind := (tree.node? parent).any (·.name == Construct.bind.name)
    if isBind && memberValue? tree parent == some id then
      match bindKey? tree parent with
      | some key => join above key
      | none => above
    else above

/-- Adds scopes to declarations. -/
def semantic (base : Attribution) : Attribution :=
  (base.derive "semantic").declare
    { attr := .scope
      kind := .inherited
      nodeHook := some fun tree id => some (.text (scopeFor tree id)) }

end AttrGrammar.Procedure
