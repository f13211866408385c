import AttrGrammar.Pattern.Search
import AttrGrammar.Pattern.Size
import AttrGrammar.Pattern.Syntax

/-!
Matchers: a written pattern together with its two uses, measuring the match at the start of a text
and testing a whole text.

The pattern is pasted between the anchors, and composed matchers paste the patterns of their parts
into groups, so what a matcher means is decided by the pasted text as a whole.
-/

namespace AttrGrammar

/-- A pattern ready for searching. -/
structure Finder where
  pattern : Pattern
  automaton : Automaton
  deriving DecidableEq, Inhabited

namespace Finder

/-- The finder for a written pattern, unless that is too large. -/
def read (text : String) : Except PatternError Finder := do
  let pattern ← Pattern.read text.toList
  if pattern.isSmall then .ok { pattern, automaton := .ofPattern pattern }
  else .error .tooLarge

/-- The number of characters of a text before the end of the leftmost match. -/
def search (f : Finder) (text : List Char) : Option Nat :=
  f.automaton.searchFrom f.pattern.anchored none 0 text

end Finder

structure Matcher where
  /-- The pattern as it was written. -/
  pattern : String
  /-- Finds the pattern at the start of a text. -/
  start : Finder
  /-- Finds the pattern as a whole text. -/
  whole : Finder
  deriving DecidableEq, Inhabited

namespace Matcher

def anchoredText (pattern : String) : String := "\\A(?:" ++ pattern ++ ")"

def wholeText (pattern : String) : String := anchoredText pattern ++ "\\z"

def ofPattern (pattern : String) : Except PatternError Matcher := do
  let start ← Finder.read (anchoredText pattern)
  let whole ← Finder.read (wholeText pattern)
  .ok { pattern, start, whole }

/-- The number of characters up to the end of the match in `text`. -/
def length? (m : Matcher) (text : List Char) : Option Nat := m.start.search text

/-- The number of bytes up to the end of the match in `text`. -/
def byteLength? (m : Matcher) (text : String) : Option Nat :=
  (m.length? text.toList).map fun n => (String.ofList (text.toList.take n)).utf8ByteSize

def accepts (m : Matcher) (text : String) : Bool := (m.whole.search text.toList).isSome

/-- A pattern as one unit. -/
def grouped (pattern : String) : String := "(?:" ++ pattern ++ ")"

def concatenation (parts : List Matcher) : Except PatternError Matcher :=
  ofPattern (String.join (parts.map fun m => grouped m.pattern))

def alternation (parts : List Matcher) : Except PatternError Matcher :=
  ofPattern (grouped ("|".intercalate (parts.map fun m => grouped m.pattern)))

def repetition (part : Matcher) : Except PatternError Matcher :=
  ofPattern (grouped part.pattern ++ "*")

def option (part : Matcher) : Except PatternError Matcher :=
  ofPattern (grouped part.pattern ++ "?")

end Matcher

end AttrGrammar
