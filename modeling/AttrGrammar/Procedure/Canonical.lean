import AttrGrammar.Attribution
import AttrGrammar.Layout
import AttrGrammar.Procedure.Construct

/-!
Rendering programs in canonical layout.

A token renders as its lexeme, except that the comma between items gets a space after it; a folded
token joins what its parts render as. Inner nodes render from their children: each member of an
object stands on its own line, indented by the nesting depth of its first token.
-/

namespace AttrGrammar.Procedure

def renderToken (token : Token) : String :=
  if token.name = Construct.itemDivider.name then ", " else token.lexeme

/-- What a node renders as; a node without a value for it counts with its lexeme. -/
def rendered (tree : ParseTree) (id : NodeId) : String :=
  match (tree.node? id).bind (·.attrs.render?) with
  | some text => text
  | none => tree.lexemeOf id

/-- What a child renders as. -/
def renderedChild (tree : ParseTree) (id : NodeId) (index : Nat) : String :=
  match (tree.children id)[index]? with
  | some child => rendered tree child
  | none => ""

/-- The blanks before the first token of a node. -/
def pad (layout : Layout) (tree : ParseTree) (id : NodeId) : String :=
  let depth := (tree.firstLeaf? id).bind fun leaf => (tree.node? leaf).bind (·.attrs.indent?)
  layout.indent (depth.getD 0)

def renderNode (layout : Layout) (tree : ParseTree) (id : NodeId) : String :=
  match (tree.node? id).bind fun node => Construct.ofName? node.name with
  | some .document => renderedChild tree id 0 ++ (if layout.trailingNewline then "\n" else "")
  | some .program | some .object =>
    "\x7b\n" ++ renderedChild tree id 1 ++ "\n" ++ pad layout tree id ++ "\x7d"
  | some .bind | some .letMember | some .refMember | some .docMember =>
    pad layout tree id ++ renderedChild tree id 0 ++ ": " ++ renderedChild tree id 2
  | some .nextMember => ",\n" ++ renderedChild tree id 1
  | _ => String.join ((tree.children id).map (rendered tree))

/-- Adds rendering to declarations that give tokens their depth. -/
def printer (base : Attribution) (layout : Layout) : Attribution :=
  (base.derive "printer").declare
    { attr := .render
      kind := .synthesized
      fold := .concat
      tokenHook := some fun token _ => some (.text (renderToken token))
      nodeHook := some fun tree id => some (.text (renderNode layout tree id)) }

end AttrGrammar.Procedure
