import AttrGrammar.Proofs.Pattern.Ranking
import AttrGrammar.Proofs.Pattern.Spans

/-!
Where the automata of patterns prefer to end.

From a state at a place, reading may end at some places, and a state that goes on in two ways prefers
the ends of the first. Where a pattern spans from one state to another, the places it prefers come
first in the same order, each followed by the ends from there on. Rounds are settled by induction on
the text that is left, because every round reads something.
-/

namespace AttrGrammar

namespace Automaton

variable {states : Array State} {i j k : Nat} {x : Spot} {f g : Ranking}

/-- From a state at a place, reading ends at these places, the preferred one first. -/
inductive Yields (states : Array State) : Nat → Spot → List Spot → Prop
  | accept {i : Nat} {x : Spot} (here : states[i]? = some .accept) : Yields states i x [x]
  | read {i j : Nat} {s : CharSet} {x : Spot} {g : Ranking} (here : states[i]? = some (.read s j))
      (later : ∀ y ∈ Ranking.char s x, Yields states j y (g y)) :
      Yields states i x ((Ranking.char s * g) x)
  | check {i j : Nat} {a : Assertion} {x : Spot} {g : Ranking}
      (here : states[i]? = some (.check a j))
      (later : ∀ y ∈ Ranking.check a x, Yields states j y (g y)) :
      Yields states i x ((Ranking.check a * g) x)
  | fork {i j k : Nat} {x : Spot} {ys zs : List Spot} (here : states[i]? = some (.fork j k))
      (first : Yields states j x ys) (second : Yields states k x zs) : Yields states i x (ys ++ zs)

/-- The state before a round ends as it prefers to go on. -/
theorem Yields.turn {greedy : Bool} {round leave : Nat}
    (here : states[i]? = some (.turn greedy round leave)) (first : Yields states round x (f x))
    (second : Yields states leave x (g x)) : Yields states i x (Ranking.turn greedy f g x) := by
  cases greedy with
  | true => exact .fork here first second
  | false => exact .fork here second first

/-- From one state to another, states prefer what a ranking prefers. -/
def Ranked (states : Array State) (start next : Nat) (f : Ranking) : Prop :=
  ∀ (x : Spot) (g : Ranking), (∀ y ∈ f x, Yields states next y (g y)) →
    Yields states start x ((f * g) x)

namespace Ranked

theorem one (states : Array State) (i : Nat) : Ranked states i i 1 := by
  intro x g yields
  rw [one_mul]
  exact yields x (List.mem_singleton_self x)

theorem mul (first : Ranked states i j f) (second : Ranked states j k g) :
    Ranked states i k (f * g) := by
  intro x h yields
  rw [mul_assoc]
  apply first x (g * h)
  intro y member
  apply second y h
  intro z further
  exact yields z (List.mem_flatMap.2 ⟨y, member, further⟩)

theorem read {s : CharSet} (here : states[i]? = some (.read s j)) : Ranked states i j (.char s) :=
  fun _ _ yields => .read here yields

theorem check {a : Assertion} (here : states[i]? = some (.check a j)) :
    Ranked states i j (.check a) :=
  fun _ _ yields => .check here yields

theorem turn {greedy : Bool} {round leave next : Nat}
    (here : states[i]? = some (.turn greedy round leave)) (first : Ranked states round next f)
    (second : Ranked states leave next g) : Ranked states i next (.turn greedy f g) := by
  intro x h yields
  rw [Ranking.turn_mul]
  apply Yields.turn here
  · exact first x h fun y member => yields y (Ranking.mem_turn_iff.2 (.inl member))
  · exact second x h fun y member => yields y (Ranking.mem_turn_iff.2 (.inr member))

/-- Rounds that come back to the state that decides about another one. -/
theorem star {greedy : Bool} {round leave : Nat}
    (here : states[i]? = some (.turn greedy round leave)) (advances : f.Advances)
    (back : Ranked states round i f) : Ranked states i leave (.star greedy f) := by
  intro x g yields
  induction left : x.rest.length using Nat.strong_induction_on generalizing x with
  | _ n ih =>
    rw [Ranking.star_eq advances greedy] at yields
    have again : Yields states round x ((f * (Ranking.star greedy f * g)) x) := by
      apply back
      intro y member
      refine ih _ (left ▸ advances x y member) y (fun z further => ?_) rfl
      exact yields z (Ranking.mem_turn_iff.2 (.inl (List.mem_flatMap.2 ⟨y, member, further⟩)))
    have leaves : Yields states leave x (g x) :=
      yields x (Ranking.mem_turn_iff.2 (.inr (List.mem_singleton_self x)))
    rw [Ranking.star_eq advances greedy, Ranking.turn_mul, mul_assoc, one_mul]
    exact .turn here again leaves

theorem row {span : Nat → Nat → Prop} (each : ∀ {i k}, span i k → Ranked states i k f) {n : Nat}
    (spans : Row span n i k) : Ranked states i k (f ^ n) := by
  induction n generalizing k with
  | zero =>
    cases spans
    exact .one states i
  | succ n ih =>
    obtain ⟨j, before, last⟩ := spans
    exact pow_succ f n ▸ (ih before).mul (each last)

theorem upTo {span : Nat → Nat → Prop} (each : ∀ {i k}, span i k → Ranked states i k f)
    {greedy : Bool} {leave n : Nat} (spans : UpTo states span greedy leave n i) :
    Ranked states i leave (.upTo greedy f n) := by
  induction n generalizing i with
  | zero =>
    cases spans
    exact .one states leave
  | succ n ih =>
    obtain ⟨round, next, here, first, rest⟩ := spans
    exact .turn here ((each first).mul (ih rest)) (.one states leave)

theorem again {span : Nat → Nat → Prop} (each : ∀ {i k}, span i k → Ranked states i k f)
    (advances : f.Advances) {greedy : Bool} {round leave : Nat}
    (spans : Again states span greedy round leave) :
    Ranked states round leave (f * .star greedy f) := by
  obtain ⟨i, first, here⟩ := spans
  exact (each first).mul (.star here advances (each first))

theorem text {before : List Char} (spans : SpansText states before i k) :
    Ranked states i k (Pattern.literal before.reverse).ranking := by
  induction before generalizing k with
  | nil =>
    cases spans
    exact .one states i
  | cons c before ih =>
    obtain ⟨j, spans, here⟩ := spans
    rw [List.reverse_cons, ← Pattern.sequential_ranking.literal]
    exact (ih spans).mul ((read here).mul (.one states k))

/-- Where a steady pattern spans, states prefer what the pattern prefers. -/
theorem of_spans {p : Pattern} (steady : p.steady = true) (spans : Spans states p i k) :
    Ranked states i k p.ranking := by
  induction p generalizing i k with
  | empty =>
    cases spans
    exact .one states i
  | literal t =>
    have reads := text spans
    rwa [List.reverse_reverse] at reads
  | set s => exact .read spans
  | assertion a => exact .check spans
  | group p ih => exact ih steady spans
  | seq p q first second =>
    obtain ⟨here, there⟩ := Bool.and_eq_true_iff.1 steady
    obtain ⟨j, before, after⟩ := spans
    exact (first here before).mul (second there after)
  | alt p q first second =>
    obtain ⟨here, there⟩ := Bool.and_eq_true_iff.1 steady
    obtain ⟨j, l, fork, left, right⟩ := spans
    have fork : states[i]? = some (.turn true j l) := fork
    exact .turn fork (first here left) (second there right)
  | repeated p low high greedy once =>
    obtain ⟨inner, bounded⟩ := Bool.and_eq_true_iff.1 steady
    have once := fun {i k} => @once i k inner
    cases high with
    | some high =>
      obtain ⟨j, needed, optional⟩ := spans
      exact (row once needed).mul (upTo once optional)
    | none =>
      have reading : p.nullable = false := by simpa using bounded
      have advances := Pattern.ranking_advances inner reading
      cases low with
      | zero =>
        obtain ⟨round, here, spans⟩ := spans
        rw [reading, if_neg Bool.false_ne_true] at spans
        rw [Pattern.ranking, pow_zero, one_mul]
        exact .star here advances (once spans)
      | succ low =>
        obtain ⟨j, needed, more⟩ := spans
        rw [Pattern.ranking, pow_succ, mul_assoc]
        exact (row once needed).mul (again once advances more)

end Ranked

/-- The automaton of a steady pattern prefers to end where the pattern prefers to lead. -/
theorem yields_ofPattern {p : Pattern} (steady : p.steady = true) (x : Spot) :
    Yields (ofPattern p).states (ofPattern p).start x (p.ranking x) := by
  obtain ⟨spans, accept⟩ := spans_ofPattern p
  have ranked := Ranked.of_spans steady spans x 1 fun y _ => .accept accept
  rwa [mul_one] at ranked

end Automaton

end AttrGrammar
