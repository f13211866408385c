import AttrGrammar.Proofs.Pattern.Forms
import Mathlib.Algebra.Ring.BooleanRing

/-!
Where patterns prefer to lead.

A ranking gives the places that a way leads to, the preferred one first. Rankings are composed like
passages are, but a sum is no longer the same the other way round: its first ways come first. In a
sequence, the place that the first part prefers counts before what the second part makes of it. A
greedy repetition prefers another round to leaving, a lazy one prefers to leave. As long as rounds
that may go on without end read something, a ranking lists just the places that its pattern leads
to.
-/

open Computability

namespace AttrGrammar

/-- The places that a way leads to from each place, the preferred one first. -/
abbrev Ranking := Spot → List Spot

namespace Ranking

/-- Staying where one is. -/
instance : One Ranking := ⟨fun x => [x]⟩

/-- Either way, the first one by preference. -/
instance : Add Ranking := ⟨fun f g x => f x ++ g x⟩

/-- One way after the other. -/
instance : Mul Ranking := ⟨fun f g x => (f x).flatMap g⟩

variable {f g h : Ranking} {x y z : Spot}

theorem one_apply : (1 : Ranking) x = [x] := rfl

theorem add_apply : (f + g) x = f x ++ g x := rfl

theorem mul_apply : (f * g) x = (f x).flatMap g := rfl

instance : Monoid Ranking where
  mul_assoc _ _ _ := funext fun _ => List.flatMap_assoc
  one_mul f := funext fun x => by rw [mul_apply, one_apply, List.flatMap_singleton]
  mul_one f := funext fun x => List.flatMap_singleton' (f x)

theorem add_mul (f g h : Ranking) : (f + g) * h = f * h + g * h :=
  funext fun _ => List.flatMap_append

/-- Reading a character of a set. -/
def char (s : CharSet) : Ranking
  | ⟨_, c :: rest⟩ => if s.contains c then [⟨some c, rest⟩] else []
  | ⟨_, []⟩ => []

theorem char_cons (s : CharSet) (b : Option Char) (c : Char) (rest : List Char) :
    char s ⟨b, c :: rest⟩ = if s.contains c then [⟨some c, rest⟩] else [] := rfl

/-- Staying where an assertion holds. -/
def check (a : Assertion) : Ranking := fun x =>
  if a.holds x.before x.rest.head? then [x] else []

theorem rest_of_mem_char {s : CharSet} (member : y ∈ char s x) :
    ∃ c, x.rest = c :: y.rest ∧ s.contains c = true := by
  obtain ⟨b, text⟩ := x
  cases text with
  | nil => cases member
  | cons c rest =>
    rw [char_cons] at member
    split at member
    · next inside =>
      cases List.mem_singleton.1 member
      exact ⟨c, rfl, inside⟩
    · cases member

theorem mem_check_iff {a : Assertion} :
    y ∈ check a x ↔ a.holds x.before x.rest.head? = true ∧ y = x := by
  unfold check
  split
  · next holds => rw [List.mem_singleton, and_iff_right holds]
  · next fails => exact iff_of_false List.not_mem_nil fun both => fails both.1

/-- Going one way rather than the other, or the other way round. -/
def turn (greedy : Bool) (f g : Ranking) : Ranking := if greedy then f + g else g + f

/-- Up to a number of rounds. -/
def upTo (greedy : Bool) (f : Ranking) : Nat → Ranking
  | 0 => 1
  | n + 1 => turn greedy (f * upTo greedy f n) 1

/-- Any number of rounds. Where each reads something, there are no more than characters left. -/
def star (greedy : Bool) (f : Ranking) : Ranking := fun x => upTo greedy f x.rest.length x

/-- Whether every way reads something. -/
def Advances (f : Ranking) : Prop := ∀ x, ∀ y ∈ f x, y.rest.length < x.rest.length

theorem turn_mul (greedy : Bool) : turn greedy f g * h = turn greedy (f * h) (g * h) := by
  cases greedy with
  | true => exact add_mul f g h
  | false => exact add_mul g f h

theorem mem_turn_iff {greedy : Bool} : y ∈ turn greedy f g x ↔ y ∈ f x ∨ y ∈ g x := by
  cases greedy with
  | true => exact List.mem_append
  | false => exact List.mem_append.trans or_comm

theorem upTo_succ_eq (advances : f.Advances) (greedy : Bool) {n : Nat} (enough : x.rest.length ≤ n) :
    upTo greedy f (n + 1) x = upTo greedy f n x := by
  induction n generalizing x with
  | zero =>
    have nothing : f x = [] := List.eq_nil_iff_forall_not_mem.2 fun y member =>
      absurd (advances x y member) (by omega)
    cases greedy with
    | true =>
      change (f x).flatMap _ ++ [x] = [x]
      rw [nothing, List.flatMap_nil, List.nil_append]
    | false =>
      change [x] ++ (f x).flatMap _ = [x]
      rw [nothing, List.flatMap_nil, List.append_nil]
  | succ n ih =>
    have same : (f * upTo greedy f (n + 1)) x = (f * upTo greedy f n) x :=
      List.flatMap_congr fun y member => ih (Nat.le_of_lt_succ ((advances x y member).trans_le enough))
    cases greedy with
    | true => exact congrArg (· ++ [x]) same
    | false => exact congrArg ([x] ++ ·) same

theorem upTo_eq_star (advances : f.Advances) (greedy : Bool) {n : Nat} (enough : x.rest.length ≤ n) :
    upTo greedy f n x = star greedy f x := by
  induction n, enough using Nat.le_induction with
  | base => rfl
  | succ n enough ih => rw [upTo_succ_eq advances greedy enough, ih]

/-- Any number of rounds are a round with any number after it, or none at all. -/
theorem star_eq (advances : f.Advances) (greedy : Bool) :
    star greedy f = turn greedy (f * star greedy f) 1 := by
  funext x
  rw [← upTo_eq_star advances greedy (Nat.le_succ x.rest.length), upTo]
  have same : (f * upTo greedy f x.rest.length) x = (f * star greedy f) x :=
    List.flatMap_congr fun y member => upTo_eq_star advances greedy (advances x y member).le
  cases greedy with
  | true => exact congrArg (· ++ [x]) same
  | false => exact congrArg ([x] ++ ·) same

/-- The ways of a ranking, in no order. -/
def ways (f : Ranking) : Passage := fun x y => y ∈ f x

theorem Advances.of_ways {R : Passage} (same : f.ways = R) (advances : R.Advances) :
    f.Advances := by
  subst same
  exact advances

theorem ways_one : (1 : Ranking).ways = 1 := by
  ext x y
  exact List.mem_singleton.trans eq_comm

theorem ways_add : (f + g).ways = f.ways + g.ways := by
  ext x y
  exact List.mem_append

theorem ways_mul : (f * g).ways = f.ways * g.ways := by
  ext x y
  exact List.mem_flatMap

theorem ways_pow (n : Nat) : (f ^ n).ways = f.ways ^ n := by
  induction n with
  | zero => rw [pow_zero, pow_zero, ways_one]
  | succ n ih => rw [pow_succ, pow_succ, ways_mul, ih]

theorem ways_turn (greedy : Bool) : (turn greedy f g).ways = f.ways + g.ways := by
  ext x y
  exact mem_turn_iff

theorem ways_upTo (greedy : Bool) (n : Nat) : (upTo greedy f n).ways = (1 + f.ways) ^ n := by
  induction n with
  | zero => rw [upTo, pow_zero, ways_one]
  | succ n ih => rw [upTo, ways_turn, ways_mul, ih, ways_one, Passage.mul_one_add_pow]

/-- Where each round reads something, the rounds come to an end. -/
theorem ways_star (advances : f.Advances) (greedy : Bool) : (star greedy f).ways = f.ways∗ := by
  ext x y
  induction left : x.rest.length using Nat.strong_induction_on generalizing x with
  | _ n ih =>
    have round : (f * star greedy f).ways x y ↔ (f.ways * f.ways∗) x y := by
      rw [ways_mul, Passage.mul_apply, Passage.mul_apply]
      refine exists_congr fun z => and_congr_right fun first => ?_
      exact ih _ (left ▸ advances x z first) z rfl
    rw [star_eq advances, ways_turn, ways_one, ← Passage.mul_kstar_add_one, Passage.add_apply, round]
    rfl

end Ranking

namespace Pattern

/-- Where a pattern leads from a place, in the order of preference. -/
def ranking : Pattern → Ranking
  | empty => 1
  | literal text => (text.map fun c => Ranking.char (.single c)).prod
  | set s => .char s
  | assertion a => .check a
  | group p => p.ranking
  | seq a b => a.ranking * b.ranking
  | alt a b => a.ranking + b.ranking
  | repeated p low (some high) greedy => p.ranking ^ low * .upTo greedy p.ranking (high - low)
  | repeated p low none greedy => p.ranking ^ low * .star greedy p.ranking

/-- Whether rounds that may go on without end always read something. -/
def steady : Pattern → Bool
  | empty | literal _ | set _ | assertion _ => true
  | group p => p.steady
  | seq a b | alt a b => a.steady && b.steady
  | repeated p _ high _ => p.steady && (high.isSome || !p.nullable)

theorem ways_char (s : CharSet) : (Ranking.char s).ways = (set s).reads := by
  ext ⟨b, text⟩ y
  cases text with
  | nil =>
    refine iff_of_false List.not_mem_nil ?_
    rintro ⟨_, ⟨c, rfl, _⟩, nothing, _⟩
    cases nothing
  | cons c rest =>
    change y ∈ (if s.contains c then [⟨some c, rest⟩] else []) ↔ ∃ text ∈ charsOf s, _
    constructor
    · intro member
      split at member
      · next inside =>
        exact ⟨[c], ⟨c, rfl, inside⟩, Spot.reads_char_iff.2 (List.mem_singleton.1 member)⟩
      · cases member
    · rintro ⟨_, ⟨d, rfl, inside⟩, reads⟩
      obtain rfl : c = d := (List.cons.inj reads.1).1
      rw [if_pos inside]
      exact List.mem_singleton.2 (Spot.reads_char_iff.1 reads)

theorem ways_check (a : Assertion) : (Ranking.check a).ways = (assertion a).reads := by
  ext x y
  exact Ranking.mem_check_iff.trans (and_congr_right fun _ => eq_comm)

theorem ways_text (text : List Char) :
    (text.map fun c => Ranking.char (.single c)).prod.ways = (literal text).reads := by
  induction text with
  | nil => exact Ranking.ways_one.trans (map_one Passage.ofLanguage).symm
  | cons c text ih =>
    rw [List.map_cons, List.prod_cons, Ranking.ways_mul, ways_char, ih, reads_single, literal_mul]
    rfl

/-- The ranking of a pattern has the places the pattern leads to. -/
theorem ways_ranking {p : Pattern} (steady : p.steady = true) : p.ranking.ways = p.reads := by
  induction p with
  | empty => exact Ranking.ways_one
  | literal text => exact ways_text text
  | set s => exact ways_char s
  | assertion a => exact ways_check a
  | group p ih => exact ih steady
  | seq a b iha ihb =>
    obtain ⟨first, second⟩ := Bool.and_eq_true_iff.1 steady
    rw [ranking, reads, Ranking.ways_mul, iha first, ihb second]
  | alt a b iha ihb =>
    obtain ⟨first, second⟩ := Bool.and_eq_true_iff.1 steady
    rw [ranking, reads, Ranking.ways_add, iha first, ihb second]
  | repeated p low high greedy ih =>
    obtain ⟨inner, bounded⟩ := Bool.and_eq_true_iff.1 steady
    cases high with
    | some high =>
      rw [ranking, reads, rounds, Ranking.ways_mul, Ranking.ways_pow, Ranking.ways_upTo, ih inner]
    | none =>
      have advances := Ranking.Advances.of_ways (ih inner) (reads_advances (by simpa using bounded))
      rw [ranking, reads, rounds, Ranking.ways_mul, Ranking.ways_pow, Ranking.ways_star advances,
        ih inner]

theorem ranking_advances {p : Pattern} (steady : p.steady = true) (reading : p.nullable = false) :
    p.ranking.Advances :=
  .of_ways (ways_ranking steady) (reads_advances reading)

theorem sequential_ranking : Sequential ranking where
  empty := rfl
  literal s t := by simp only [ranking, List.map_append, List.prod_append]
  seq _ _ := rfl

theorem sequential_steady : Sequential steady := ⟨rfl, fun _ _ => rfl, fun _ _ => rfl⟩

end Pattern

end AttrGrammar
