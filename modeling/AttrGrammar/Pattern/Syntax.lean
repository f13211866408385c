import AttrGrammar.Pattern.Token

/-!
The written form of patterns.

The tokens of a text are put together from the first to the last. The groups that are open stand
below the one that is read, so what they hold does not change until this one is closed. The depth to
which parts stand inside each other is limited.
-/

namespace AttrGrammar

namespace Pattern.Syntax

/-- What stands between two bars. -/
inductive Item where
  | part (p : Piece Pattern)
  /-- Flags, which read nothing and cannot be repeated. -/
  | flags

def Item.piece : Item → Piece Pattern
  | part p => p
  | flags => { value := .empty }

/-- Parts one after the other. -/
def branchOf (parts : List (Piece Pattern)) : Piece Pattern where
  value := .sequence (parts.map (·.value))
  depth := depthOf parts

/-- A group whose end was not read yet. -/
structure Frame where
  captures : Bool := false
  /-- The branches before the last bar. -/
  branches : List (Piece Pattern) := []
  /-- The items since the last bar, the last one first. -/
  items : List Item := []

namespace Frame

def branch (f : Frame) : Piece Pattern := branchOf (f.items.reverse.map Item.piece)

def all (f : Frame) : List (Piece Pattern) := f.branches ++ [f.branch]

/-- A group with its closing parenthesis. -/
def closed (f : Frame) : Piece Pattern where
  value :=
    let p := Pattern.choice (f.all.map (·.value))
    if f.captures then .group p else p
  depth := depthOf f.all + 1

def add (f : Frame) (i : Item) : Frame := { f with items := i :: f.items }

end Frame

def Opening.isCapturing : Opening → Bool
  | plain => false
  | captures | named _ => true

/-- A piece repeated from `low` to `high` times, or from `low` times on. -/
def repeated (p : Piece Pattern) (low : Nat) (high : Option Nat) (greedy : Bool) :
    Piece Pattern where
  value := p.value.repetition low high greedy
  depth := p.depth + 1

/-- The group that is read, and the groups around it. -/
structure Stack where
  top : Frame := {}
  below : List Frame := []

/-- Puts a token behind those before it. -/
def Stack.step (s : Stack) : Token → Except PatternError Stack
  | .part p => .ok { s with top := s.top.add (.part p) }
  | .flags _ => .ok { s with top := s.top.add .flags }
  | .opens o _ => .ok { top := { captures := o.isCapturing }, below := s.top :: s.below }
  | .closes =>
    match s.below with
    | [] => .error .unopenedGroup
    | next :: below => .ok { top := next.add (.part s.top.closed), below }
  | .bar =>
    .ok { s with top := { s.top with branches := s.top.all, items := [] } }
  | .repeats low high greedy =>
    match s.top.items with
    | .part p :: items =>
      .ok { s with top := { s.top with items := .part (repeated p low high greedy) :: items } }
    | _ => .error .nothingToRepeat

/-- Puts tokens behind those before them. -/
def Stack.run (s : Stack) (ts : List Token) : Except PatternError Stack := ts.foldlM step s

/-- The names of the groups that tokens open. -/
def names (ts : List Token) : List (List Char) :=
  ts.filterMap fun
    | .opens (.named name) _ => some name
    | _ => none

/-- How deep the parts of a pattern may stand inside each other. -/
def depthLimit : Nat := 250

end Pattern.Syntax

open Pattern.Syntax in
/-- Reads a text that is a pattern from its first character to its last. -/
def Pattern.read (text : List Char) : Except PatternError Pattern := do
  let lexed := lex {} text
  let s ← Stack.run {} lexed.tokens
  let _ ← lexed.stop
  if !s.below.isEmpty then .error .unclosedGroup
  else if ¬ (names lexed.tokens).Nodup then .error .duplicateName
  else if depthOf s.top.all > depthLimit then .error .tooDeep
  else .ok (.choice (s.top.all.map (·.value)))

end AttrGrammar
