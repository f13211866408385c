import AttrGrammar.Pattern.Automaton
import Mathlib.Order.Nat

/-!
How the states of a pattern are laid out.

The states added for a pattern span from its start to the state that goes on after it. Which states
stand in between follows the pattern: a state for a character or a condition, one behind the other
for a sequence, a state that goes on in two ways for a choice and before a round that may be left
out. What is read, and in which order, is settled on this layout. States are only ever added, and
the state that decides about another round is put right once its round is known, so a layout is
judged by the states that were added.
-/

namespace AttrGrammar

namespace Automaton

section Layout

variable (states : Array State) (span : Nat → Nat → Prop) (greedy : Bool)

/-- States that read a text, given in reverse. -/
def SpansText : List Char → Nat → Nat → Prop
  | [], i, k => i = k
  | c :: before, i, k => ∃ j, SpansText before i j ∧ states[j]? = some (.read (.single c) k)

/-- A number of spans in a row. -/
def Row : Nat → Nat → Nat → Prop
  | 0, i, k => i = k
  | n + 1, i, k => ∃ j, Row n i j ∧ span j k

/-- Up to a number of rounds, each of which may be left out together with those after it. -/
def UpTo (leave : Nat) : Nat → Nat → Prop
  | 0, i => i = leave
  | n + 1, i => ∃ round next, states[i]? = some (.turn greedy round leave) ∧ span round next ∧
      UpTo leave n next

/-- One round, and any number of rounds after it. -/
def Again (round leave : Nat) : Prop :=
  ∃ i, span round i ∧ states[i]? = some (.turn greedy round leave)

end Layout

/-- How a pattern spans from one state to another. Where a round may read nothing, the choice
whether to begin with one comes first. -/
def Spans (states : Array State) : Pattern → Nat → Nat → Prop
  | .empty, i, k => i = k
  | .literal text, i, k => SpansText states text.reverse i k
  | .set s, i, k => states[i]? = some (.read s k)
  | .assertion a, i, k => states[i]? = some (.check a k)
  | .group p, i, k => Spans states p i k
  | .seq p q, i, k => ∃ j, Spans states p i j ∧ Spans states q j k
  | .alt p q, i, k => ∃ first second, states[i]? = some (.fork first second) ∧
      Spans states p first k ∧ Spans states q second k
  | .repeated p low (some high) greedy, i, k => ∃ j, Row (Spans states p) low i j ∧
      UpTo states (Spans states p) greedy k (high - low) j
  | .repeated p 0 none greedy, i, k => ∃ round, states[i]? = some (.turn greedy round k) ∧
      if p.nullable then Again states (Spans states p) greedy round k else Spans states p round i
  | .repeated p (low + 1) none greedy, i, k => ∃ j, Row (Spans states p) low i j ∧
      Again states (Spans states p) greedy j k

/-- States with more after them. -/
structure Extends (old new : Array State) : Prop where
  size_le : old.size ≤ new.size
  same : ∀ i, i < old.size → new[i]? = old[i]?

/-- Whether states have what was added to `old` to get `new`. -/
def Holds (states old new : Array State) : Prop :=
  ∀ i, old.size ≤ i → i < new.size → states[i]? = new[i]?

section Growth

variable {states a b c : Array State}

theorem Extends.refl (a : Array State) : Extends a a := ⟨Nat.le_refl _, fun _ _ => rfl⟩

theorem Extends.trans (first : Extends a b) (second : Extends b c) : Extends a c where
  size_le := first.size_le.trans second.size_le
  same i inside := (second.same i (inside.trans_le first.size_le)).trans (first.same i inside)

theorem Extends.push (a : Array State) (s : State) : Extends a (a.push s) where
  size_le := by simp
  same i inside := by rw [Array.getElem?_push, if_neg (Nat.ne_of_lt inside)]

theorem Holds.left (holds : Holds states a c) (later : Extends b c) : Holds states a b :=
  fun i low high => (holds i low (high.trans_le later.size_le)).trans (later.same i high)

theorem Holds.right (holds : Holds states a c) (before : Extends a b) : Holds states b c :=
  fun i low high => holds i (before.size_le.trans low) high

theorem Holds.push {s : State} (holds : Holds states a (b.push s)) (before : Extends a b) :
    states[b.size]? = some s := by
  rw [holds b.size before.size_le (by simp), Array.getElem?_push_size]

end Growth

/-- A step that adds states which span from its start to the state it is given. -/
structure Builds (step : Nat → Array State → Automaton)
    (span : Array State → Nat → Nat → Prop) : Prop where
  grows : ∀ next a, Extends a (step next a).states
  spans : ∀ {next a states}, Holds states a (step next a).states →
    span states (step next a).start next

theorem build_grows {step : Nat → Array State → Automaton}
    (grows : ∀ next a, Extends a (step next a).states) (n next : Nat) (a : Array State) :
    Extends a (build step n next a).states := by
  induction n generalizing next a with
  | zero => exact .refl a
  | succ n ih => exact (grows next a).trans (ih _ _)

/-- A round that may be left out together with those after it. -/
def optionalRound (round : Nat → Array State → Automaton) (greedy : Bool) (next leave : Nat)
    (a : Array State) : Automaton :=
  let b := round leave a
  add b.states (.turn greedy b.start next)

namespace Builds

variable {step other round : Nat → Array State → Automaton}
  {span otherSpan : Array State → Nat → Nat → Prop}

theorem nothing : Builds (fun next a => ⟨a, next⟩) fun _ i k => i = k where
  grows _ a := .refl a
  spans _ := rfl

theorem state (s : Nat → State) :
    Builds (fun next a => add a (s next)) fun states i k => states[i]? = some (s k) where
  grows _ a := .push a _
  spans {_ a _} holds := holds.push (.refl a)

/-- What comes later is built first. -/
theorem sequence (first : Builds step span) (second : Builds other otherSpan) :
    Builds (fun next a => step (other next a).start (other next a).states)
      fun states i k => ∃ j, span states i j ∧ otherSpan states j k where
  grows next a := (second.grows next a).trans (first.grows _ _)
  spans {next a _} holds := ⟨_, first.spans (holds.right (second.grows next a)),
    second.spans (holds.left (first.grows _ _))⟩

theorem fork (first : Builds step span) (second : Builds other otherSpan) :
    Builds (fun next a =>
      let b := other next a
      let c := step next b.states
      add c.states (.fork c.start b.start))
      fun states i k => ∃ j l, states[i]? = some (.fork j l) ∧ span states j k ∧
        otherSpan states l k where
  grows next a := ((second.grows next a).trans (first.grows _ _)).trans (.push _ _)
  spans {next a states} holds := by
    have before := second.grows next a
    have after := first.grows next (other next a).states
    have inner := holds.left (.push _ _)
    have here := holds.push (before.trans after)
    exact ⟨_, _, here, first.spans (inner.right before), second.spans (inner.left after)⟩

theorem text (before : List Char) :
    Builds (fun next a => addText next a before) fun states => SpansText states before := by
  induction before with
  | nil => exact nothing
  | cons c before ih => exact ih.sequence (state fun next => .read (.single c) next)

theorem row (once : Builds round span) (n : Nat) :
    Builds (build round n) fun states => Row (span states) n := by
  induction n with
  | zero => exact nothing
  | succ n ih => exact ih.sequence once

theorem optionalRound_grows (once : Builds round span) (greedy : Bool) (next leave : Nat)
    (a : Array State) : Extends a (optionalRound round greedy next leave a).states :=
  (once.grows leave a).trans (.push _ _)

/-- Rounds that may be left out stand before what goes on at `leave`. -/
theorem optionalRounds_spans (once : Builds round span) (greedy : Bool) (n : Nat)
    {m next leave : Nat} {a states : Array State}
    (holds : Holds states a (build (optionalRound round greedy next) n leave a).states)
    (after : UpTo states (span states) greedy next m leave) :
    UpTo states (span states) greedy next (m + n)
      (build (optionalRound round greedy next) n leave a).start := by
  induction n generalizing leave a m with
  | zero => exact after
  | succ n ih =>
    have inner := holds.left (build_grows (once.optionalRound_grows greedy next) n _ _)
    have turn := inner.push (once.grows leave a)
    have here := once.spans (inner.left (.push _ _))
    rw [← Nat.add_assoc, Nat.add_right_comm]
    exact ih (holds.right (once.optionalRound_grows greedy next leave a))
      ⟨_, leave, turn, here, after⟩

theorem optionalRounds (once : Builds round span) (greedy : Bool) (n : Nat) :
    Builds (fun next a => build (optionalRound round greedy next) n next a)
      fun states i k => UpTo states (span states) greedy k n i where
  grows next a := build_grows (once.optionalRound_grows greedy next) n next a
  spans {_ _ _} holds := by
    have spans := once.optionalRounds_spans greedy n (m := 0) holds rfl
    rwa [Nat.zero_add] at spans

theorem addRounds_grows (once : Builds round span) (greedy : Bool) (next : Nat)
    (a : Array State) : Extends a (addRounds round greedy next a).states := by
  have grown := (Extends.push a .accept).trans (once.grows a.size (a.push .accept))
  constructor
  · rw [addRounds, Array.size_setIfInBounds]
    exact grown.size_le
  · intro i inside
    rw [addRounds, Array.getElem?_setIfInBounds, if_neg (Nat.ne_of_gt inside)]
    exact grown.same i inside

/-- The state that decides about another round is the first that is added. -/
theorem addRounds_spans (once : Builds round span) {greedy : Bool} {next : Nat}
    {a states : Array State} (holds : Holds states a (addRounds round greedy next a).states) :
    states[a.size]? = some (.turn greedy (addRounds round greedy next a).start next) ∧
      span states (addRounds round greedy next a).start a.size := by
  have grown := once.grows a.size (a.push .accept)
  have inside : a.size < (round a.size (a.push .accept)).states.size := by
    have larger := grown.size_le
    rwa [Array.size_push] at larger
  constructor
  · rw [holds a.size (Nat.le_refl _) (by rwa [addRounds, Array.size_setIfInBounds]), addRounds,
      Array.getElem?_setIfInBounds, if_pos rfl, if_pos inside]
  · refine once.spans fun i low high => ?_
    rw [Array.size_push] at low
    rw [holds i (Nat.le_of_succ_le low) (by rwa [addRounds, Array.size_setIfInBounds]), addRounds,
      Array.getElem?_setIfInBounds, if_neg (by omega)]

theorem addRounds (once : Builds round span) (greedy : Bool) :
    Builds (addRounds round greedy) fun states => Again states (span states) greedy where
  grows next a := once.addRounds_grows greedy next a
  spans holds := ⟨_, (once.addRounds_spans holds).2, (once.addRounds_spans holds).1⟩

theorem anyRounds (once : Builds round span) (nullable greedy : Bool) :
    Builds (fun next a =>
      let b := Automaton.addRounds round greedy next a
      if nullable then add b.states (.turn greedy b.start next) else ⟨b.states, a.size⟩)
      fun states i k => ∃ round, states[i]? = some (.turn greedy round k) ∧
        if nullable then Again states (span states) greedy round k else span states round i where
  grows next a := by
    cases nullable with
    | true => exact (once.addRounds_grows greedy next a).trans (.push _ _)
    | false => exact once.addRounds_grows greedy next a
  spans {next a states} holds := by
    cases nullable with
    | true => exact ⟨_, holds.push (once.addRounds_grows greedy next a),
        (once.addRounds greedy).spans (holds.left (.push _ _))⟩
    | false => exact ⟨_, once.addRounds_spans holds⟩

end Builds

/-- The states of a pattern are laid out as the pattern says. -/
theorem builds_compile (p : Pattern) : Builds (compile p) fun states => Spans states p := by
  induction p with
  | empty => exact .nothing
  | literal text => exact .text text.reverse
  | set s => exact .state fun next => .read s next
  | assertion c => exact .state fun next => .check c next
  | group p ih => exact ih
  | seq p q first second => exact first.sequence second
  | alt p q first second => exact first.fork second
  | repeated p low high greedy once =>
    cases high with
    | some high => exact (once.row low).sequence (once.optionalRounds greedy (high - low))
    | none =>
      cases low with
      | zero => exact once.anyRounds p.nullable greedy
      | succ low => exact (once.row low).sequence (once.addRounds greedy)

/-- In the automaton of a pattern, the pattern spans from the start to the state that accepts. -/
theorem spans_ofPattern (p : Pattern) :
    Spans (ofPattern p).states p (ofPattern p).start 0 ∧
      (ofPattern p).states[0]? = some .accept :=
  ⟨(builds_compile p).spans fun _ _ _ => rfl,
    ((builds_compile p).grows 0 #[.accept]).same 0 Nat.zero_lt_one⟩

end Automaton

end AttrGrammar
