import AttrGrammar.Pattern.Basic
import Mathlib.Computability.Language

/-!
What patterns read.

A pattern leads from a place of a text to places further on. Such passages form a semiring, in which
a sequence is a product, a choice is a sum and rounds are powers, so what holds of patterns is
calculated. A pattern without assertions pays no heed to where it stands: it is a language, and its
passages are the texts of that language.
-/

open Computability

/-- The sets of texts. -/
abbrev TextLanguage := Language Char

namespace AttrGrammar

/-- A place in a text: the character before it, if there is one, and the text after it. -/
@[ext] structure Spot where
  before : Option Char
  rest : List Char

namespace Spot

/-- Whether reading a text leads from one place to another. -/
def Reads (x : Spot) (text : List Char) (y : Spot) : Prop :=
  x.rest = text ++ y.rest ∧ y.before = text.getLast?.or x.before

theorem reads_nil_iff {x y : Spot} : x.Reads [] y ↔ x = y := by
  rw [Reads, Spot.ext_iff]
  simp only [List.nil_append, List.getLast?_nil, Option.none_or]
  exact ⟨fun h => ⟨h.2.symm, h.1⟩, fun h => ⟨h.2, h.1.symm⟩⟩

theorem reads_append_iff {x y : Spot} {s t : List Char} :
    x.Reads (s ++ t) y ↔ ∃ z, x.Reads s z ∧ z.Reads t y := by
  constructor
  · intro ⟨rest, before⟩
    refine ⟨⟨s.getLast?.or x.before, t ++ y.rest⟩, ⟨?_, rfl⟩, rfl, ?_⟩
    · rw [rest, List.append_assoc]
    · rw [before, List.getLast?_append, Option.or_assoc]
  · rintro ⟨z, ⟨rest, before⟩, rest', before'⟩
    refine ⟨?_, ?_⟩
    · rw [rest, rest', List.append_assoc]
    · rw [before', before, List.getLast?_append, Option.or_assoc]

theorem reads_char_iff {b : Option Char} {c : Char} {rest : List Char} {y : Spot} :
    Reads ⟨b, c :: rest⟩ [c] y ↔ y = ⟨some c, rest⟩ := by
  rw [Reads, Spot.ext_iff]
  simp only [List.singleton_append, List.cons.injEq, true_and, List.getLast?_singleton,
    Option.some_or]
  exact ⟨fun h => ⟨h.2, h.1.symm⟩, fun h => ⟨h.2.symm, h.1⟩⟩

end Spot

/-- The ways from places of texts to places further on. -/
def Passage := Spot → Spot → Prop

namespace Passage

@[ext] theorem ext {R S : Passage} (same : ∀ x y, R x y ↔ S x y) : R = S :=
  funext fun x => funext fun y => propext (same x y)

/-- Either way. -/
instance : Add Passage := ⟨fun R S x y => R x y ∨ S x y⟩

/-- No way at all. -/
instance : Zero Passage := ⟨fun _ _ => False⟩

/-- Staying where one is. -/
instance : One Passage := ⟨Eq⟩

/-- One way after the other. -/
instance : Mul Passage := ⟨Relation.Comp⟩

theorem add_apply {R S : Passage} {x y : Spot} : (R + S) x y ↔ R x y ∨ S x y := Iff.rfl

theorem zero_apply {x y : Spot} : (0 : Passage) x y ↔ False := Iff.rfl

theorem one_apply {x y : Spot} : (1 : Passage) x y ↔ x = y := Iff.rfl

theorem mul_apply {R S : Passage} {x y : Spot} : (R * S) x y ↔ ∃ z, R x z ∧ S z y := Iff.rfl

instance : Semiring Passage where
  add_assoc R S T := ext fun x y => or_assoc
  zero_add R := ext fun x y => by rw [add_apply, zero_apply, false_or]
  add_zero R := ext fun x y => by rw [add_apply, zero_apply, or_false]
  add_comm R S := ext fun x y => or_comm
  nsmul := nsmulRec
  mul_assoc R S T := Relation.comp_assoc
  one_mul R := Relation.eq_comp
  mul_one R := Relation.comp_eq
  zero_mul R := ext fun x y => by simp only [mul_apply, zero_apply, false_and, exists_false]
  mul_zero R := ext fun x y => by simp only [mul_apply, zero_apply, and_false, exists_false]
  left_distrib R S T := ext fun x y => by
    simp only [mul_apply, add_apply, and_or_left, exists_or]
  right_distrib R S T := ext fun x y => by
    simp only [mul_apply, add_apply, or_and_right, exists_or]

theorem add_self (R : Passage) : R + R = R := ext fun _ _ => or_self_iff

/-- One way any number of times. -/
instance : KStar Passage := ⟨fun R x y => ∃ n : ℕ, (R ^ n) x y⟩

theorem kstar_apply {R : Passage} {x y : Spot} : (R∗) x y ↔ ∃ n : ℕ, (R ^ n) x y := Iff.rfl

/-- A way that may be left out, with more of its kind after it. -/
theorem mul_one_add_pow (R : Passage) (n : ℕ) : R * (1 + R) ^ n + 1 = (1 + R) ^ (n + 1) := by
  induction n with
  | zero => rw [pow_zero, mul_one, zero_add, pow_one, add_comm]
  | succ n ih =>
    have absorbed : R * (1 + R) ^ (n + 1) + R * (1 + R) ^ n = R * (1 + R) ^ (n + 1) := by
      rw [pow_succ' (1 + R) n, add_mul, one_mul, mul_add, add_right_comm, add_self]
    calc R * (1 + R) ^ (n + 1) + 1
        = R * (1 + R) ^ (n + 1) + (R * (1 + R) ^ n + 1) := by rw [← add_assoc, absorbed]
      _ = R * (1 + R) ^ (n + 1) + (1 + R) ^ (n + 1) := by rw [ih]
      _ = (1 + R) ^ (n + 2) := by rw [pow_succ' (1 + R) (n + 1), add_mul, one_mul, add_comm]

theorem mul_kstar_add_one (R : Passage) : R * R∗ + 1 = R∗ := by
  ext x y
  constructor
  · rintro (⟨z, first, n, rest⟩ | rfl)
    · exact ⟨n + 1, pow_succ' R n ▸ ⟨z, first, rest⟩⟩
    · exact ⟨0, rfl⟩
  · rintro ⟨n, ways⟩
    cases n with
    | zero => exact .inr ways
    | succ n =>
      rw [pow_succ'] at ways
      obtain ⟨z, first, rest⟩ := ways
      exact .inl ⟨z, first, n, rest⟩

/-- Reading the texts of a language. -/
def ofLanguage : TextLanguage →+* Passage where
  toFun L x y := ∃ s ∈ L, x.Reads s y
  map_one' := ext fun x y => by
    simp only [Language.mem_one, exists_eq_left, Spot.reads_nil_iff, one_apply]
  map_mul' L M := ext fun x y => by
    constructor
    · rintro ⟨_, ⟨s, hs, t, ht, rfl⟩, reads⟩
      obtain ⟨z, first, second⟩ := Spot.reads_append_iff.1 reads
      exact ⟨z, ⟨s, hs, first⟩, t, ht, second⟩
    · rintro ⟨z, ⟨s, hs, first⟩, t, ht, second⟩
      exact ⟨s ++ t, ⟨s, hs, t, ht, rfl⟩, Spot.reads_append_iff.2 ⟨z, first, second⟩⟩
  map_zero' := ext fun x y => by
    simp only [zero_apply, Language.notMem_zero, false_and, exists_false]
  map_add' L M := ext fun x y => by
    change _ ↔ (∃ s ∈ L, x.Reads s y) ∨ ∃ s ∈ M, x.Reads s y
    simp only [Language.mem_add, or_and_right, exists_or]

theorem ofLanguage_apply {L : TextLanguage} {x y : Spot} :
    ofLanguage L x y ↔ ∃ s ∈ L, x.Reads s y := Iff.rfl

theorem ofLanguage_kstar (L : TextLanguage) : ofLanguage L∗ = (ofLanguage L)∗ := by
  ext x y
  simp only [kstar_apply, ← map_pow, ofLanguage_apply, Language.kstar_eq_iSup_pow,
    Language.mem_iSup]
  constructor
  · rintro ⟨s, ⟨n, member⟩, reads⟩
    exact ⟨n, s, member, reads⟩
  · rintro ⟨n, s, member, reads⟩
    exact ⟨s, ⟨n, member⟩, reads⟩

end Passage

namespace Pattern

/-- From `low` to `high` rounds: `low` of them, and then up to as many more as `high` allows. -/
def rounds {α : Type} [Semiring α] [KStar α] (one : α) (low : Nat) : Option Nat → α
  | some high => one ^ low * (1 + one) ^ (high - low)
  | none => one ^ low * one∗

/-- The texts of one character that lies in a set. -/
def charsOf (s : CharSet) : TextLanguage := {text | ∃ c, text = [c] ∧ s.contains c = true}

/-- Where a pattern leads from a place. -/
def reads : Pattern → Passage
  | empty => 1
  | literal text => .ofLanguage {text}
  | set s => .ofLanguage (charsOf s)
  | assertion a => fun x y => a.holds x.before x.rest.head? = true ∧ x = y
  | group p => p.reads
  | seq a b => a.reads * b.reads
  | alt a b => a.reads + b.reads
  | repeated p low high _ => rounds p.reads low high

/-- Whether a pattern is free of anchors and other assertions. -/
def plain : Pattern → Bool
  | assertion _ => false
  | empty | literal _ | set _ => true
  | group p | repeated p _ _ _ => p.plain
  | seq a b | alt a b => a.plain && b.plain

/-- The language of a pattern, assertions left aside. -/
def language : Pattern → TextLanguage
  | empty | assertion _ => 1
  | literal text => {text}
  | set s => charsOf s
  | group p => p.language
  | seq a b => a.language * b.language
  | alt a b => a.language + b.language
  | repeated p low high _ => rounds p.language low high

theorem ofLanguage_rounds (L : TextLanguage) (low : Nat) (high : Option Nat) :
    Passage.ofLanguage (rounds L low high) = rounds (Passage.ofLanguage L) low high := by
  cases high with
  | none => simp only [rounds, map_mul, map_pow, Passage.ofLanguage_kstar]
  | some high => simp only [rounds, map_mul, map_pow, map_add, map_one]

/-- A pattern without assertions reads the texts of its language, wherever it stands. -/
theorem reads_of_plain {p : Pattern} (plain : p.plain = true) :
    p.reads = .ofLanguage p.language := by
  induction p with
  | empty => exact (map_one _).symm
  | literal | set => rfl
  | assertion => cases plain
  | group p ih => exact ih plain
  | seq a b iha ihb =>
    obtain ⟨first, second⟩ := Bool.and_eq_true_iff.1 plain
    rw [reads, language, map_mul, iha first, ihb second]
  | alt a b iha ihb =>
    obtain ⟨first, second⟩ := Bool.and_eq_true_iff.1 plain
    rw [reads, language, map_add, iha first, ihb second]
  | repeated p low high greedy ih => rw [reads, language, ofLanguage_rounds, ih plain]

end Pattern

/-- Whether the ways of a passage lead along the text. -/
def Passage.Forward (R : Passage) : Prop := ∀ x y, R x y → ∃ s, x.Reads s y

/-- Whether each way of a passage reads something. -/
def Passage.Advances (R : Passage) : Prop := ∀ x y, R x y → y.rest.length < x.rest.length

namespace Passage

variable {R S : Passage}

theorem Forward.ofLanguage (L : TextLanguage) : Forward (.ofLanguage L) :=
  fun _ _ ⟨s, _, reads⟩ => ⟨s, reads⟩

theorem Forward.one : Forward 1 := fun _ _ same => ⟨[], Spot.reads_nil_iff.2 same⟩

theorem Forward.add (hR : R.Forward) (hS : S.Forward) : (R + S).Forward := fun x y way =>
  way.elim (hR x y) (hS x y)

theorem Forward.mul (hR : R.Forward) (hS : S.Forward) : (R * S).Forward := by
  rintro x y ⟨z, first, second⟩
  obtain ⟨s, first⟩ := hR x z first
  obtain ⟨t, second⟩ := hS z y second
  exact ⟨s ++ t, Spot.reads_append_iff.2 ⟨z, first, second⟩⟩

theorem Forward.pow (hR : R.Forward) (n : ℕ) : (R ^ n).Forward := by
  induction n with
  | zero => exact pow_zero R ▸ one
  | succ n ih => exact pow_succ R n ▸ ih.mul hR

theorem Forward.rounds (hR : R.Forward) (low : ℕ) (high : Option ℕ) :
    (Pattern.rounds R low high).Forward := by
  cases high with
  | some high => exact (hR.pow low).mul ((one.add hR).pow _)
  | none => exact (hR.pow low).mul fun x y ⟨n, way⟩ => hR.pow n x y way

theorem Forward.length_le (hR : R.Forward) {x y : Spot} (way : R x y) :
    y.rest.length ≤ x.rest.length := by
  obtain ⟨s, rest, _⟩ := hR x y way
  rw [rest, List.length_append]
  exact Nat.le_add_left _ _

theorem Advances.of_ne_nil {L : TextLanguage} (something : ∀ s ∈ L, s ≠ []) :
    Advances (.ofLanguage L) := by
  rintro x y ⟨s, member, rest, _⟩
  rw [rest, List.length_append]
  exact Nat.lt_add_of_pos_left (List.length_pos_iff.2 (something s member))

theorem Advances.mul_left (hR : R.Advances) (hS : S.Forward) : (R * S).Advances :=
  fun x _ ⟨z, first, second⟩ => (hS.length_le second).trans_lt (hR x z first)

theorem Advances.mul_right (hR : R.Forward) (hS : S.Advances) : (R * S).Advances :=
  fun _ y ⟨z, first, second⟩ => (hS z y second).trans_le (hR.length_le first)

end Passage

namespace Pattern

theorem reads_forward (p : Pattern) : p.reads.Forward := by
  induction p with
  | empty => exact .one
  | literal | set => exact .ofLanguage _
  | assertion a => exact fun x y ⟨_, same⟩ => Passage.Forward.one x y same
  | group p ih => exact ih
  | seq a b iha ihb => exact iha.mul ihb
  | alt a b iha ihb => exact iha.add ihb
  | repeated p low high greedy ih => exact ih.rounds low high

/-- A pattern that matches nothing without reading reads something. -/
theorem reads_advances {p : Pattern} (reading : p.nullable = false) : p.reads.Advances := by
  induction p with
  | empty | assertion => cases reading
  | literal text =>
    refine .of_ne_nil fun s member => ?_
    obtain rfl : s = text := member
    rintro rfl
    cases reading
  | set s =>
    refine .of_ne_nil ?_
    rintro _ ⟨c, rfl, _⟩
    exact List.cons_ne_nil c []
  | group p ih => exact ih reading
  | seq a b iha ihb =>
    rcases Bool.and_eq_false_iff.1 reading with first | second
    · exact .mul_left (iha first) b.reads_forward
    · exact .mul_right a.reads_forward (ihb second)
  | alt a b iha ihb =>
    obtain ⟨first, second⟩ := Bool.or_eq_false_iff.1 reading
    exact fun x y way => way.elim (iha first x y) (ihb second x y)
  | repeated p low high greedy ih =>
    obtain ⟨positive, round⟩ := Bool.or_eq_false_iff.1 reading
    obtain ⟨low, rfl⟩ := Nat.exists_eq_succ_of_ne_zero (beq_eq_false_iff_ne.1 positive)
    have needed : (p.reads ^ (low + 1)).Advances :=
      pow_succ p.reads low ▸ .mul_right (p.reads_forward.pow low) (ih round)
    cases high with
    | some high => exact needed.mul_left ((Passage.Forward.one.add p.reads_forward).pow _)
    | none => exact needed.mul_left fun x y ⟨n, way⟩ => p.reads_forward.pow n x y way

end Pattern

end AttrGrammar
