/-! How rendered source is laid out. -/

namespace AttrGrammar

structure Layout where
  /-- Spaces for each level of nesting. -/
  indentWidth : Nat := 2
  /-- Whether the text ends with a line break. -/
  trailingNewline : Bool := true
  deriving DecidableEq, Repr, Inhabited

/-- The blanks before a line at a depth. -/
def Layout.indent (l : Layout) (depth : Nat) : String := "".pushn ' ' (l.indentWidth * depth)

end AttrGrammar
