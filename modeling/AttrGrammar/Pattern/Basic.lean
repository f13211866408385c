import AttrGrammar.Pattern.CharSet
import AttrGrammar.Text.Classes

/-!
Regular patterns.

Where several matches start at one place, a pattern prefers one: a choice prefers its earlier
branch, a greedy repetition prefers to go on, a lazy one to stop.

Patterns are built by `sequence`, `choice` and `repetition`, which bring them into a simple form:
neighbouring literals are one literal, nested sequences and nested choices are flat, a choice of
characters is a set, and what all branches of a choice begin with stands before it.
-/

namespace AttrGrammar

/-- Where a place stands to the words around it. -/
inductive WordEdge where
  /-- A word begins or ends here. -/
  | boundary
  | noBoundary
  | start
  | stop
  /-- No word character comes before. -/
  | startHalf
  /-- No word character comes after. -/
  | stopHalf
  deriving DecidableEq, Inhabited

/-- Whether there is an edge between what comes before and what comes after, each of which is a word
character or is not. -/
def WordEdge.holds (before after : Bool) : WordEdge → Bool
  | boundary => before != after
  | noBoundary => before == after
  | start => !before && after
  | stop => before && !after
  | startHalf => !before
  | stopHalf => !after

/-- A condition on the place where it stands, which reads nothing. -/
inductive Assertion where
  | startOfText
  | endOfText
  /-- A line begins here; with `crlf` lines end with a carriage return, a line feed or both. -/
  | startOfLine (crlf : Bool)
  | endOfLine (crlf : Bool)
  /-- Words are made of the letters of all scripts, or of ASCII. -/
  | word (unicode : Bool) (edge : WordEdge)
  deriving DecidableEq, Inhabited

/-- Whether a character is one of words. -/
def isWord (unicode : Bool) (c : Char) : Bool :=
  if unicode then Text.isWord c else c.isAlphanum || c == '_'

/-- Whether an assertion holds between two characters, of which one is missing at either end of the
text. A line does not end between a carriage return and its line feed. -/
def Assertion.holds (before after : Option Char) : Assertion → Bool
  | startOfText => before.isNone
  | endOfText => after.isNone
  | startOfLine crlf =>
    before.isNone || before == some '\n' || crlf && before == some '\r' && after != some '\n'
  | endOfLine crlf =>
    after.isNone || crlf && after == some '\r' ||
      after == some '\n' && !(crlf && before == some '\r')
  | word unicode edge => edge.holds (before.any (isWord unicode)) (after.any (isWord unicode))

/-- A regular pattern. -/
inductive Pattern where
  /-- Reads nothing. -/
  | empty
  /-- Reads one text, which is not empty. -/
  | literal (text : List Char)
  /-- Reads one character. -/
  | set (s : CharSet)
  | assertion (a : Assertion)
  /-- A pattern that is kept apart from those around it. -/
  | group (p : Pattern)
  | seq (a b : Pattern)
  /-- The first branch is preferred. -/
  | alt (a b : Pattern)
  /-- A number of rounds from `low` to `high`, or from `low` on. -/
  | repeated (p : Pattern) (low : Nat) (high : Option Nat) (greedy : Bool)
  deriving DecidableEq, Inhabited

namespace Pattern

/-- Whether a pattern can match without reading. -/
def nullable : Pattern → Bool
  | empty | assertion _ => true
  | literal text => text.isEmpty
  | set _ => false
  | group p => p.nullable
  | seq a b => a.nullable && b.nullable
  | alt a b => a.nullable || b.nullable
  | repeated p low _ _ => low == 0 || p.nullable

/-- Whether a pattern never reads anything. -/
def readsNothing : Pattern → Bool
  | empty | assertion _ => true
  | literal text => text.isEmpty
  | set _ => false
  | group p => p.readsNothing
  | seq a b | alt a b => a.readsNothing && b.readsNothing
  | repeated p low high _ => low == 0 && high == some 0 || high.isSome && p.readsNothing

def hasGroup : Pattern → Bool
  | empty | literal _ | set _ | assertion _ => false
  | group _ => true
  | seq a b | alt a b => a.hasGroup || b.hasGroup
  | repeated p _ _ _ => p.hasGroup

/-- The parts of a sequence. -/
def parts : Pattern → List Pattern
  | empty => []
  | seq a b => a :: b.parts
  | p => [p]

def ofParts : List Pattern → Pattern
  | [] => empty
  | [p] => p
  | p :: rest => seq p (ofParts rest)

/-- Makes neighbouring literals one literal. -/
def joinLiterals : List Pattern → List Pattern
  | [] => []
  | literal s :: rest =>
    match joinLiterals rest with
    | literal t :: rest => literal (s ++ t) :: rest
    | rest => literal s :: rest
  | p :: rest => p :: joinLiterals rest

/-- One pattern after the other. -/
def sequence (ps : List Pattern) : Pattern := ofParts (joinLiterals (ps.flatMap parts))

/-- One character of a set. -/
def ofSet (s : CharSet) : Pattern :=
  match s.only? with
  | some c => literal [c]
  | none => set s

/-- The branches of a choice. -/
def branches : Pattern → List Pattern
  | alt a b => a :: b.branches
  | p => [p]

def ofBranches : List Pattern → Pattern
  | [] => set ∅
  | [p] => p
  | p :: rest => alt p (ofBranches rest)

/-- The set of a pattern that is a literal of one character. -/
def single? : Pattern → Option CharSet
  | literal [c] => some (.single c)
  | _ => none

def set? : Pattern → Option CharSet
  | set s => some s
  | _ => none

/-- The characters that one of the patterns reads, if each of them reads one. -/
def anyOf? (f : Pattern → Option CharSet) (ps : List Pattern) : Option CharSet :=
  (ps.mapM f).map fun sets => sets.foldl .union ∅

/-- What two lists of parts begin with. Groups are told apart even if they look alike. -/
def commonParts : List Pattern → List Pattern → List Pattern
  | p :: ps, q :: qs => if p = q && !p.hasGroup then p :: commonParts ps qs else []
  | _, _ => []

/-- What all branches begin with, if each of them is a sequence. -/
def sharedParts : List Pattern → List Pattern
  | [] => []
  | p :: rest =>
    let isSequence : Pattern → Bool
      | seq _ _ => true
      | _ => false
    if (p :: rest).all isSequence then rest.foldl (fun ps q => commonParts ps q.parts) p.parts
    else []

/-- A choice between patterns, of which the first is preferred. At most `depth` times the parts
that all branches begin with are put before the choice. -/
def choiceTo : Nat → List Pattern → Pattern
  | depth, ps =>
    let ps := ps.flatMap branches
    if ps.length ≤ 1 then ofBranches ps
    else match anyOf? single? ps <|> anyOf? set? ps with
    | some s => ofSet s
    | none =>
      match depth, sharedParts ps with
      | depth + 1, p :: shared =>
        let rests := ps.map fun q => sequence (q.parts.drop (shared.length + 1))
        sequence (p :: shared ++ [choiceTo depth rests])
      | _, _ => ofBranches ps

def size : Pattern → Nat
  | empty | literal _ | set _ | assertion _ => 1
  | group p | repeated p _ _ _ => p.size + 1
  | seq a b | alt a b => a.size + b.size + 1

/-- A choice between patterns, of which the first is preferred. -/
def choice (ps : List Pattern) : Pattern := choiceTo (ps.foldl (fun n p => n + p.size) 0) ps

/-- A number of rounds from `low` to `high`, or from `low` on. Where a round reads nothing, one is
as good as many. -/
def repetition (p : Pattern) (low : Nat) (high : Option Nat) (greedy : Bool) : Pattern :=
  let low := if p.readsNothing then min low 1 else low
  let high := if p.readsNothing then some (min (high.getD 1) 1) else high
  if low = 0 ∧ high = some 0 then empty
  else if low = 1 ∧ high = some 1 then p
  else repeated p low high greedy

/-- Whether a match can begin at the start of the text only. -/
def anchored : Pattern → Bool
  | assertion .startOfText => true
  | group p => p.anchored
  | seq a b => a.anchored || a.readsNothing && b.anchored
  | alt a b => a.anchored && b.anchored
  | repeated p low _ _ => low != 0 && p.anchored
  | _ => false

/-- Whether a match can end at the end of the text only. -/
def anchoredAtEnd : Pattern → Bool
  | assertion .endOfText => true
  | group p => p.anchoredAtEnd
  | seq a b => b.anchoredAtEnd || b.readsNothing && a.anchoredAtEnd
  | alt a b => a.anchoredAtEnd && b.anchoredAtEnd
  | repeated p low _ _ => low != 0 && p.anchoredAtEnd
  | _ => false

end Pattern

end AttrGrammar
