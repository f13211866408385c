import AttrGrammar.Pattern.Basic

/-!
Automata for patterns.

A state reads a character, goes on in one of two ways of which the first is preferred, goes on under
a condition, or accepts. `compile` builds a pattern from its end to its start: it is given the state
that goes on after the pattern and adds states of its own, so a state only ever leads to states of
the same pattern or to that one.
-/

namespace AttrGrammar

inductive State where
  | read (s : CharSet) (next : Nat)
  /-- Goes on at either state, the first by preference. -/
  | fork (first second : Nat)
  | check (a : Assertion) (next : Nat)
  | accept
  deriving DecidableEq, Inhabited

namespace State

/-- The state between going on with a round and leaving a repetition. -/
def turn (greedy : Bool) (round leave : Nat) : State :=
  if greedy then fork round leave else fork leave round

end State

/-- States, and the one where reading starts. -/
structure Automaton where
  states : Array State
  start : Nat
  deriving DecidableEq, Inhabited

namespace Automaton

/-- Adds a state. -/
def add (a : Array State) (s : State) : Automaton :=
  let place := a.size
  ⟨a.push s, place⟩

/-- Applies a step that builds towards the start `n` times. -/
def build (step : Nat → Array State → Automaton) : Nat → Nat → Array State → Automaton
  | 0, next, a => ⟨a, next⟩
  | n + 1, next, a =>
    let b := step next a
    build step n b.start b.states

/-- States that read a text, given in reverse. -/
def addText (next : Nat) (a : Array State) : List Char → Automaton
  | [] => ⟨a, next⟩
  | c :: before =>
    let b := add a (.read (.single c) next)
    addText b.start b.states before

/-- Any number of rounds but at least one. The state that decides about another round stands between
the end of a round and its start. -/
def addRounds (round : Nat → Array State → Automaton) (greedy : Bool) (next : Nat)
    (a : Array State) : Automaton :=
  let turn := a.size
  let b := round turn (a.push .accept)
  ⟨b.states.setIfInBounds turn (.turn greedy b.start next), b.start⟩

/-- States that match a pattern and go on at `next`. -/
def compile : Pattern → Nat → Array State → Automaton
  | .empty, next, a => ⟨a, next⟩
  | .literal text, next, a => addText next a text.reverse
  | .set s, next, a => add a (.read s next)
  | .assertion c, next, a => add a (.check c next)
  | .group p, next, a => compile p next a
  | .seq p q, next, a =>
    let b := compile q next a
    compile p b.start b.states
  | .alt p q, next, a =>
    let b := compile q next a
    let c := compile p next b.states
    add c.states (.fork c.start b.start)
  | .repeated p low (some high) greedy, next, a =>
    let b := build (fun leave a =>
      let round := compile p leave a
      add round.states (.turn greedy round.start next)) (high - low) next a
    build (compile p) low b.start b.states
  | .repeated p 0 none greedy, next, a =>
    let turn := a.size
    let b := addRounds (compile p) greedy next a
    if p.nullable then add b.states (.turn greedy b.start next) else ⟨b.states, turn⟩
  | .repeated p (low + 1) none greedy, next, a =>
    let b := addRounds (compile p) greedy next a
    build (compile p) low b.start b.states

/-- The automaton of a pattern. -/
def ofPattern (p : Pattern) : Automaton := compile p 0 #[.accept]

end Automaton

end AttrGrammar
