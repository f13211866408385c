import AttrGrammar.Pattern.Automaton

/-!
Searching a text for the match of an automaton.

All ways to read the text are followed at once, as a list of states, the preferred way first. At
each place of the text a state is entered once only, by the most preferred way there, and a way that
accepts cuts off all ways less preferred. So the match found is the preferred one of those that
start leftmost.
-/

namespace AttrGrammar.Automaton

/-- The ways to read on that are preferred to the first acceptance, and whether there is one. -/
structure Ways where
  reads : List (CharSet × Nat) := []
  accepts : Bool := false
  deriving Inhabited

/-- Follows the states on a stack without reading. `seen` marks the states that were entered, and
`reads` holds the ways found so far, the last one first. -/
def follow (states : Array State) (holds : Assertion → Bool) :
    Nat → List Nat → Array Bool → List (CharSet × Nat) → Ways
  | 0, _, _, reads => { reads := reads.reverse }
  | _ + 1, [], _, reads => { reads := reads.reverse }
  | fuel + 1, i :: stack, seen, reads =>
    if seen.getD i true then follow states holds fuel stack seen reads
    else
      let seen := seen.setIfInBounds i true
      match states[i]? with
      | some (.read s next) => follow states holds fuel stack seen ((s, next) :: reads)
      | some (.fork first second) =>
        follow states holds fuel (first :: second :: stack) seen reads
      | some (.check a next) =>
        follow states holds fuel (if holds a then next :: stack else stack) seen reads
      | some .accept => { reads := reads.reverse, accepts := true }
      | none => follow states holds fuel stack seen reads

/-- The ways to read on from some states between two characters. -/
def ways (m : Automaton) (before after : Option Char) (starts : List Nat) : Ways :=
  follow m.states (Assertion.holds before after) (starts.length + 2 * m.states.size + 1) starts
    (.replicate m.states.size false) []

/-- The length of the preferred match from some states on, in characters, where `used` characters
were read, the last of which is `before`, and `best` is the match to fall back on. -/
def run (m : Automaton) (starts : List Nat) (before : Option Char) (used : Nat)
    (best : Option Nat) : List Char → Option Nat
  | [] => if (m.ways before none starts).accepts then some used else best
  | c :: rest =>
    let ways := m.ways before (some c) starts
    let best := if ways.accepts then some used else best
    match ways.reads.filterMap fun (s, next) => if s.contains c then some next else none with
    | [] => best
    | next => run m next (some c) (used + 1) best rest

/-- The number of characters before the end of the leftmost match, where `skipped` characters, the
last of which is `before`, stand before the text. With `only` a match must start here. -/
def searchFrom (m : Automaton) (only : Bool) (before : Option Char) (skipped : Nat)
    (text : List Char) : Option Nat :=
  match m.run [m.start] before skipped none text with
  | some n => some n
  | none =>
    match text with
    | [] => none
    | c :: rest => if only then none else searchFrom m only (some c) (skipped + 1) rest

end AttrGrammar.Automaton
