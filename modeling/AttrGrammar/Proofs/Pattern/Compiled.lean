import AttrGrammar.Proofs.Pattern.Forms
import AttrGrammar.Proofs.Pattern.Spans

/-!
What the automata of patterns read.

Where a pattern spans from one state to another, states lead just where the pattern leads: from there
they go on to the same ends, in no more steps than before, which settles rounds by induction on the
steps.
-/

open Computability

namespace AttrGrammar

namespace Automaton

variable {states : Array State} {i j k : Nat} {x y : Spot} {R S : Passage}

/-- From a state at one place, reading may end at another place after a number of steps. -/
inductive Ends (states : Array State) : Nat → Nat → Spot → Spot → Prop
  | accept {i : Nat} {x : Spot} (here : states[i]? = some .accept) : Ends states 0 i x x
  | read {n i j : Nat} {s : CharSet} {b : Option Char} {c : Char} {rest : List Char} {y : Spot}
      (here : states[i]? = some (.read s j)) (inside : s.contains c = true)
      (later : Ends states n j ⟨some c, rest⟩ y) : Ends states (n + 1) i ⟨b, c :: rest⟩ y
  | first {n i j k : Nat} {x y : Spot} (here : states[i]? = some (.fork j k))
      (later : Ends states n j x y) : Ends states (n + 1) i x y
  | second {n i j k : Nat} {x y : Spot} (here : states[i]? = some (.fork j k))
      (later : Ends states n k x y) : Ends states (n + 1) i x y
  | check {n i j : Nat} {a : Assertion} {x y : Spot} (here : states[i]? = some (.check a j))
      (holds : a.holds x.before x.rest.head? = true) (later : Ends states n j x y) :
      Ends states (n + 1) i x y

/-- From one state to another, states lead where a passage leads. -/
structure Fragment (states : Array State) (start next : Nat) (R : Passage) : Prop where
  sound : ∀ {n x y}, Ends states n start x y →
    ∃ z m, m ≤ n ∧ R x z ∧ Ends states m next z y
  complete : ∀ {n x z y}, R x z → Ends states n next z y → ∃ m, Ends states m start x y

namespace Fragment

theorem one (states : Array State) (i : Nat) : Fragment states i i 1 where
  sound {n x _} ends := ⟨x, n, Nat.le_refl n, rfl, ends⟩
  complete {n _ _ _} same ends := ⟨n, same ▸ ends⟩

theorem mul (first : Fragment states i j R) (second : Fragment states j k S) :
    Fragment states i k (R * S) where
  sound ends := by
    obtain ⟨z, m, less, here, ends⟩ := first.sound ends
    obtain ⟨w, l, still, there, ends⟩ := second.sound ends
    exact ⟨w, l, still.trans less, ⟨z, here, there⟩, ends⟩
  complete := by
    rintro n x w y ⟨z, here, there⟩ ends
    obtain ⟨m, ends⟩ := second.complete there ends
    exact first.complete here ends

theorem read {s : CharSet} (here : states[i]? = some (.read s j)) :
    Fragment states i j (Pattern.set s).reads where
  sound ends := by
    cases ends with
    | @read n _ _ _ b c rest y there inside later =>
      cases here.symm.trans there
      exact ⟨_, n, Nat.le_succ n, ⟨[c], ⟨c, rfl, inside⟩, Spot.reads_char_iff.2 rfl⟩, later⟩
    | accept there | first there | second there | check there => cases here.symm.trans there
  complete := by
    rintro n ⟨b, text⟩ ⟨b', rest⟩ y ⟨_, ⟨c, rfl, inside⟩, reads⟩ ends
    obtain rfl : text = c :: rest := reads.1
    cases Spot.reads_char_iff.1 reads
    exact ⟨n + 1, .read here inside ends⟩

theorem check {a : Assertion} (here : states[i]? = some (.check a j)) :
    Fragment states i j (Pattern.assertion a).reads where
  sound {_ x _} ends := by
    cases ends with
    | check there holds later =>
      cases here.symm.trans there
      exact ⟨x, _, Nat.le_succ _, ⟨holds, rfl⟩, later⟩
    | accept there | first there | second there | read there => cases here.symm.trans there
  complete := by
    rintro n x _ y ⟨holds, rfl⟩ ends
    exact ⟨n + 1, .check here holds ends⟩

/-- The ends after a fork are those after its two states, one step later. -/
theorem ends_fork_iff {n : Nat} (here : states[i]? = some (.fork j k)) :
    Ends states n i x y ↔ ∃ m, n = m + 1 ∧ (Ends states m j x y ∨ Ends states m k x y) := by
  constructor
  · intro ends
    cases ends with
    | first there later =>
      cases here.symm.trans there
      exact ⟨_, rfl, .inl later⟩
    | second there later =>
      cases here.symm.trans there
      exact ⟨_, rfl, .inr later⟩
    | accept there | read there | check there => cases here.symm.trans there
  · rintro ⟨m, rfl, later | later⟩
    · exact .first here later
    · exact .second here later

/-- Which of two states is preferred does not matter for where they lead. -/
theorem ends_turn_iff {n : Nat} {greedy : Bool} {round leave : Nat}
    (here : states[i]? = some (.turn greedy round leave)) :
    Ends states n i x y ↔
      ∃ m, n = m + 1 ∧ (Ends states m round x y ∨ Ends states m leave x y) := by
  cases greedy with
  | true => exact ends_fork_iff here
  | false =>
    refine (ends_fork_iff here).trans (exists_congr fun m => and_congr_right fun _ => or_comm)

theorem turn {greedy : Bool} {round leave next : Nat}
    (here : states[i]? = some (.turn greedy round leave)) (first : Fragment states round next R)
    (second : Fragment states leave next S) : Fragment states i next (R + S) where
  sound ends := by
    obtain ⟨m, rfl, ends | ends⟩ := (ends_turn_iff here).1 ends
    · obtain ⟨z, l, less, way, ends⟩ := first.sound ends
      exact ⟨z, l, less.trans (Nat.le_succ m), .inl way, ends⟩
    · obtain ⟨z, l, less, way, ends⟩ := second.sound ends
      exact ⟨z, l, less.trans (Nat.le_succ m), .inr way, ends⟩
  complete way ends := by
    obtain ⟨m, ends⟩ : ∃ m, Ends states m round _ _ ∨ Ends states m leave _ _ :=
      way.elim (fun way => (first.complete way ends).imp fun _ => .inl) fun way =>
        (second.complete way ends).imp fun _ => .inr
    exact ⟨m + 1, (ends_turn_iff here).2 ⟨m, rfl, ends⟩⟩

/-- Rounds that come back to the state that decides about another one. -/
theorem kstar {greedy : Bool} {round leave : Nat}
    (here : states[i]? = some (.turn greedy round leave)) (back : Fragment states round i R) :
    Fragment states i leave R∗ where
  sound {n x y} ends := by
    induction n using Nat.strong_induction_on generalizing x with
    | _ n ih =>
      obtain ⟨m, rfl, ends | ends⟩ := (ends_turn_iff here).1 ends
      · obtain ⟨z, l, less, way, ends⟩ := back.sound ends
        obtain ⟨w, l', less', ⟨rounds, ways⟩, ends⟩ := ih l (Nat.lt_succ_of_le less) ends
        exact ⟨w, l', by omega, ⟨rounds + 1, pow_succ' R rounds ▸ ⟨z, way, ways⟩⟩, ends⟩
      · exact ⟨x, m, Nat.le_succ m, ⟨0, rfl⟩, ends⟩
  complete := by
    rintro n x z y ⟨rounds, ways⟩ ends
    induction rounds generalizing x with
    | zero =>
      obtain rfl : x = z := ways
      exact ⟨n + 1, (ends_turn_iff here).2 ⟨n, rfl, .inr ends⟩⟩
    | succ rounds ih =>
      rw [pow_succ'] at ways
      obtain ⟨w, way, ways⟩ := ways
      obtain ⟨m, ends⟩ := ih ways
      obtain ⟨l, ends⟩ := back.complete way ends
      exact ⟨l + 1, (ends_turn_iff here).2 ⟨l, rfl, .inl ends⟩⟩

/-- Spans in a row lead as often as there are spans. -/
theorem row {span : Nat → Nat → Prop} (each : ∀ {i k}, span i k → Fragment states i k R) {n : Nat}
    (spans : Row span n i k) : Fragment states i k (R ^ n) := by
  induction n generalizing k with
  | zero =>
    cases spans
    exact .one states i
  | succ n ih =>
    obtain ⟨j, before, last⟩ := spans
    exact pow_succ R n ▸ (ih before).mul (each last)

theorem upTo {span : Nat → Nat → Prop} (each : ∀ {i k}, span i k → Fragment states i k R)
    {greedy : Bool} {leave n : Nat} (spans : UpTo states span greedy leave n i) :
    Fragment states i leave ((1 + R) ^ n) := by
  induction n generalizing i with
  | zero =>
    cases spans
    exact .one states leave
  | succ n ih =>
    obtain ⟨round, next, here, first, rest⟩ := spans
    have either := Fragment.turn here ((each first).mul (ih rest)) (.one states leave)
    rwa [Passage.mul_one_add_pow] at either

theorem again {span : Nat → Nat → Prop} (each : ∀ {i k}, span i k → Fragment states i k R)
    {greedy : Bool} {round leave : Nat} (spans : Again states span greedy round leave) :
    Fragment states round leave (R * R∗) := by
  obtain ⟨i, first, here⟩ := spans
  exact (each first).mul (.kstar here (each first))

theorem text {before : List Char} (spans : SpansText states before i k) :
    Fragment states i k (Pattern.literal before.reverse).reads := by
  induction before generalizing k with
  | nil =>
    cases spans
    have nothing : (Pattern.literal []).reads = 1 := map_one Passage.ofLanguage
    exact nothing ▸ .one states i
  | cons c before ih =>
    obtain ⟨j, spans, here⟩ := spans
    rw [List.reverse_cons, ← Pattern.literal_mul, ← Pattern.reads_single]
    exact (ih spans).mul (.read here)

/-- Where a pattern spans, states lead as the pattern does. -/
theorem of_spans {p : Pattern} (spans : Spans states p i k) : Fragment states i k p.reads := by
  induction p generalizing i k with
  | empty =>
    cases spans
    exact .one states i
  | literal t =>
    have reads := text spans
    rwa [List.reverse_reverse] at reads
  | set s => exact .read spans
  | assertion a => exact .check spans
  | group p ih => exact ih spans
  | seq p q first second =>
    obtain ⟨j, before, after⟩ := spans
    exact (first before).mul (second after)
  | alt p q first second =>
    obtain ⟨j, l, here, left, right⟩ := spans
    have fork : states[i]? = some (.turn true j l) := here
    exact .turn fork (first left) (second right)
  | repeated p low high greedy once =>
    cases high with
    | some high =>
      obtain ⟨j, needed, optional⟩ := spans
      exact (row once needed).mul (upTo once optional)
    | none =>
      cases low with
      | zero =>
        rw [Pattern.reads, Pattern.rounds, pow_zero, one_mul]
        obtain ⟨round, here, spans⟩ := spans
        cases nullable : p.nullable with
        | true =>
          rw [nullable, if_pos rfl] at spans
          have either := Fragment.turn here (again once spans) (.one states k)
          rwa [Passage.mul_kstar_add_one] at either
        | false =>
          rw [nullable, if_neg Bool.false_ne_true] at spans
          exact .kstar here (once spans)
      | succ low =>
        rw [Pattern.reads, Pattern.rounds, pow_succ, mul_assoc]
        obtain ⟨j, needed, more⟩ := spans
        exact (row once needed).mul (again once more)

end Fragment

/-- The automaton of a pattern ends where the pattern leads. -/
theorem ends_ofPattern_iff {p : Pattern} :
    (∃ n, Ends (ofPattern p).states n (ofPattern p).start x y) ↔ p.reads x y := by
  obtain ⟨spans, accept⟩ := spans_ofPattern p
  have leads := Fragment.of_spans spans
  constructor
  · rintro ⟨n, ends⟩
    obtain ⟨z, m, _, way, ends⟩ := leads.sound ends
    cases ends with
    | accept => exact way
    | read there | first there | second there | check there => cases accept.symm.trans there
  · exact fun way => leads.complete way (.accept accept)

end Automaton

end AttrGrammar
