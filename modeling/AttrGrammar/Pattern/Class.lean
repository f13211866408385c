import AttrGrammar.Pattern.Escape

/-!
Character classes in brackets.

A class holds characters, ranges, escapes and further classes, and parts of it may be put together
by operators. It is read one element at a time, with the classes that are still open around the one
that is read.
-/

namespace AttrGrammar

namespace Pattern.Syntax

open Reader (next accept loop)

/-- Something that was read, with the depth to which its parts stand inside each other. -/
structure Piece (α : Type) where
  value : α
  depth : Nat := 0

/-- The depth of pieces put together: a single one stays as deep as it is. -/
def depthOf {α : Type} : List (Piece α) → Nat
  | [] => 0
  | [p] => p.depth
  | ps => ps.foldl (fun depth p => max depth p.depth) 0 + 1

/-- The classes of ASCII characters that have names. -/
def asciiClasses : List (String × CharSet) :=
  let alnum := CharSet.union asciiDigits asciiLetters
  [("alnum", alnum), ("alpha", asciiLetters), ("ascii", .range '\x00' '\x7f'),
    ("blank", .union (.single '\t') (.single ' ')),
    ("cntrl", .union (.range '\x00' '\x1f') (.single '\x7f')), ("digit", asciiDigits),
    ("graph", .range '!' '~'), ("lower", .range 'a' 'z'), ("print", .range ' ' '~'),
    ("punct", .diff (.range '!' '~') alnum), ("space", asciiSpaces), ("upper", .range 'A' 'Z'),
    ("word", asciiWords),
    ("xdigit", .union asciiDigits (.union (.range 'A' 'F') (.range 'a' 'f')))]

/-- What comes behind a named class, and whether it is negated. -/
def calledClass? (text : List Char) (name : String) : Option (Bool × List Char) :=
  match behind? (":" ++ name ++ ":]").toList text with
  | some rest => some (false, rest)
  | none => (behind? (":^" ++ name ++ ":]").toList text).map (true, ·)

/-- A named class after its opening bracket, and whether it is negated. -/
def namedClass? (text : List Char) : Option (CharSet × Bool × List Char) :=
  asciiClasses.findSome? fun entry => (calledClass? text entry.1).map (entry.2, ·)

/-- Reads a named class after its opening bracket, if there is one. -/
def namedClass : Reader (Option (CharSet × Bool)) := fun text =>
  match namedClass? text with
  | some (s, negated, rest) => .ok (some (s, negated), rest)
  | none => .ok (none, text)

/-- How much of a class was read after its opening bracket. -/
inductive Head where
  | bracket
  | caret
  /-- Hyphens that stand for themselves. -/
  | hyphens
  | items
  deriving DecidableEq

/-- The operators between parts of a class. -/
inductive ClassOperator where
  | inter
  | diff
  | symmDiff

def ClassOperator.apply : ClassOperator → CharSet → CharSet → CharSet
  | inter => .inter
  | diff => .diff
  | symmDiff => .symmDiff

/-- The operator that a character stands for if it comes twice. -/
def ClassOperator.ofChar? : Char → Option ClassOperator
  | '&' => some inter
  | '-' => some diff
  | '~' => some symmDiff
  | _ => none

/-- A class whose end was not read yet. -/
structure ClassFrame where
  head : Head := .bracket
  negated : Bool := false
  /-- What stands before the last operator. -/
  before : Option (ClassOperator × Piece CharSet) := none
  /-- The elements since the last operator. -/
  elements : List (Piece CharSet) := []
  /-- The last element, if a range may begin with it. -/
  last : Option Atom := none

/-- A character of a class. -/
def classChar (fl : Flags) (c : Char) : Except PatternError Char :=
  if fl.unicode || c.toNat < 128 then .ok c else .error .unicodeOff

def Atom.set? (fl : Flags) : Atom → Except PatternError CharSet
  | char c => (classChar fl c).map .single
  | set s => .ok s
  | assertion _ => .error .assertionInClass

def Atom.char? (fl : Flags) : Atom → Except PatternError Char
  | char c => classChar fl c
  | _ => .error .rangeOfSets

namespace ClassFrame

def add (f : ClassFrame) (s : Piece CharSet) : ClassFrame :=
  { f with elements := f.elements ++ [s], last := none, head := .items }

/-- A class in which no range begins with the last element. -/
def settled (fl : Flags) (f : ClassFrame) : Except PatternError ClassFrame :=
  match f.last with
  | none => .ok { f with head := .items }
  | some a => (a.set? fl).map fun s => f.add { value := s }

/-- The union of the elements since the last operator. -/
def union (f : ClassFrame) : Piece CharSet where
  value := f.elements.foldl (fun s e => s.union e.value) ∅
  depth := depthOf f.elements

/-- What was read so far. What an operator is applied to has characters in either case, if case does
not count. -/
def all (fl : Flags) (f : ClassFrame) : Except PatternError (Piece CharSet) :=
  match f.before with
  | none => .ok f.union
  | some (operator, first) => do
    let a ← settle fl false first.value
    let b ← settle fl false f.union.value
    .ok { value := operator.apply a b, depth := max first.depth f.union.depth + 1 }

/-- A class after an operator. -/
def operate (fl : Flags) (operator : ClassOperator) (f : ClassFrame) :
    Except PatternError ClassFrame :=
  (f.all fl).map fun before => { f with before := some (operator, before), elements := [] }

/-- A class with its closing bracket. -/
def close (fl : Flags) (f : ClassFrame) : Except PatternError (Piece CharSet) := do
  let inner ← f.all fl
  (settle fl f.negated inner.value).map fun s => { value := s, depth := inner.depth + 1 }

end ClassFrame

/-- The class that is read, and the classes around it. -/
structure ClassState where
  top : ClassFrame := {}
  below : List ClassFrame := []

/-- Reads an atom of a class whose first character is `c`. -/
def classAtom (fl : Flags) (c : Char) : Reader Atom :=
  if c = '\\' then escape fl else pure (.char c)

/-- A text without the blanks before it. A comment is taken for text. -/
def seenBehind (fl : Flags) (text : List Char) : List Char :=
  if fl.spaced then
    match text.dropWhile Text.isSpace with
    | '#' :: rest => rest.dropWhile Text.isSpace
    | rest => rest
  else text

/-- Reads the first character of the end of a range after its hyphen. A hyphen before the closing
bracket or before another hyphen makes no range. -/
def rangeEnd (fl : Flags) : Reader (Option Char) := fun text =>
  match (seenBehind fl text).head? with
  | none => .error .unclosedClass
  | some c =>
    if c == ']' || c == '-' then .ok (none, text)
    else
      match skip fl text with
      | [] => .error .unclosedClass
      | c :: rest => .ok (some c, rest)

/-- The characters from one to another. -/
def rangeOf (fl : Flags) (first last : Atom) : Except PatternError CharSet := do
  let first ← first.char? fl
  let last ← last.char? fl
  if first ≤ last then .ok (.range first last) else .error .reversedRange

/-- What comes of reading on in a class: another state, or the outermost class. -/
abbrev ClassStep := ClassState ⊕ Piece CharSet

/-- Closes the innermost class. -/
def closeClass (fl : Flags) (top : ClassFrame) (below : List ClassFrame) :
    Except PatternError ClassStep := do
  let s ← top.close fl
  match below with
  | [] => .ok (.inr s)
  | next :: below => .ok (.inl ⟨next.add s, below⟩)

/-- Reads the second character of the operator that begins with `c`, if there is one. -/
def classOperator (c : Char) : Reader (Option ClassOperator) :=
  match ClassOperator.ofChar? c with
  | some operator => do return if ← accept c then some operator else none
  | none => pure none

/-- Reads an element that begins with `c` and makes no range with the one before it. -/
def classElement (fl : Flags) (top : ClassFrame) (below : List ClassFrame) (c : Char) :
    Reader ClassStep := do
  let top ← .ofExcept (top.settled fl)
  if c = ']' then .ofExcept (closeClass fl top below)
  else if c = '[' then
    match ← namedClass with
    | some (s, negated) =>
      let s ← .ofExcept (settle fl negated s)
      pure (.inl ⟨top.add { value := s }, below⟩)
    | none => pure (.inl ⟨{}, top :: below⟩)
  else
    match ← classOperator c with
    | some operator =>
      let top ← .ofExcept (top.operate fl operator)
      pure (.inl ⟨top, below⟩)
    | none =>
      let a ← classAtom fl c
      pure (.inl ⟨{ top with last := some a }, below⟩)

/-- Reads the end of a range after its hyphen, or what begins with the hyphen. -/
def classRange (fl : Flags) (top : ClassFrame) (below : List ClassFrame) (first : Atom) :
    Reader ClassStep := do
  match ← rangeEnd fl with
  | some c =>
    let last ← classAtom fl c
    let s ← .ofExcept (rangeOf fl first last)
    pure (.inl ⟨top.add { value := s }, below⟩)
  | none => classElement fl top below '-'

/-- Reads the next element of a class. Behind its opening bracket and a caret there may be hyphens,
or a closing bracket that stands for itself because nothing comes before it. -/
def classStep (fl : Flags) (s : ClassState) : Reader ClassStep := do
  let c ← next fl .unclosedClass
  let literal : ClassFrame := s.top.add { value := .single c }
  match s.top.head, c, s.top.last with
  | .bracket, '^', _ => pure (.inl ⟨{ s.top with head := .caret, negated := true }, s.below⟩)
  | .bracket, '-', _ | .caret, '-', _ | .hyphens, '-', _ =>
    pure (.inl ⟨{ literal with head := .hyphens }, s.below⟩)
  | .bracket, ']', _ | .caret, ']', _ => pure (.inl ⟨literal, s.below⟩)
  | .items, '-', some first => classRange fl s.top s.below first
  | _, _, _ => classElement fl s.top s.below c

/-- Reads a class after its opening bracket. -/
def charClass (fl : Flags) : Reader (Piece CharSet) := loop (classStep fl) {}

end Pattern.Syntax

end AttrGrammar
