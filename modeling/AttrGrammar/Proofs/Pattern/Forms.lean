import AttrGrammar.Proofs.Pattern.Language
import AttrGrammar.Proofs.Pattern.Recognizer
import Mathlib.Algebra.BigOperators.Ring.List

/-!
What patterns read in their simple form.

Bringing a pattern into its simple form changes nothing about what it reads: a sequence reads the
product of its parts, a choice the sum of its branches, and a repetition the rounds of its pattern.
A choice of characters becomes a set, and a set of one character becomes that character.
-/

open Computability

namespace AttrGrammar

namespace CharSet

/-- The character with a number. -/
theorem ordinal_codePoint {n : Nat} (below : n < count) :
    ordinal (Char.ofNat (codePoint n)) = n := by
  have valid : (codePoint n).isValidChar := by
    unfold codePoint Nat.isValidChar
    unfold count at below
    split <;> omega
  have number : (Char.ofNat (codePoint n)).toNat = codePoint n := by
    rw [Char.ofNat, dif_pos valid]
    rfl
  rw [ordinal, number]
  unfold codePoint
  by_cases small : n < 0xd800
  · rw [if_pos small, if_pos small]
  · rw [if_neg small, if_neg (by omega)]
    omega

theorem eq_of_ordinal_eq {c d : Char} (same : ordinal c = ordinal d) : c = d :=
  Char.le_antisymm (ordinal_le_iff.1 same.le) (ordinal_le_iff.1 same.ge)

theorem contains_of_only? {s : CharSet} {c : Char} (only : s.only? = some c) (d : Char) :
    s.contains d = true ↔ d = c := by
  unfold only? at only
  split at only
  · next first stop here =>
    split at only
    · next next =>
      cases only
      have below : first < count := s.within stop (here ▸ by simp) |>.trans_lt' (by omega)
      rw [contains, holds, here, next]
      simp only [insideBounds]
      constructor
      · intro inside
        refine eq_of_ordinal_eq ?_
        rw [ordinal_codePoint below]
        split at inside
        · cases inside
        · split at inside
          · omega
          · cases inside
      · rintro rfl
        rw [ordinal_codePoint below, if_neg (Nat.lt_irrefl _), if_pos (Nat.lt_succ_self _)]
        rfl
    · cases only
  · cases only

end CharSet

namespace Pattern

/-- A value of patterns for which a sequence is a product. -/
structure Sequential {M : Type} [Monoid M] (value : Pattern → M) : Prop where
  empty : value empty = 1
  literal (s t : List Char) : value (literal s) * value (literal t) = value (literal (s ++ t))
  seq (a b : Pattern) : value (seq a b) = value a * value b

namespace Sequential

variable {M : Type} [Monoid M] {value : Pattern → M}

theorem ofParts (h : Sequential value) : ∀ ps : List Pattern, value (ofParts ps) = (ps.map value).prod
  | [] => h.empty
  | [p] => (mul_one (value p)).symm
  | p :: q :: rest => by
    rw [Pattern.ofParts, h.seq, h.ofParts (q :: rest)]
    · rfl
    · exact List.cons_ne_nil q rest

theorem parts (h : Sequential value) (p : Pattern) : (p.parts.map value).prod = value p := by
  induction p with
  | empty => exact h.empty.symm
  | seq a b _ ih => rw [Pattern.parts, List.map_cons, List.prod_cons, ih, h.seq]
  | literal | set | assertion | group | alt | repeated => exact List.prod_singleton

theorem joinLiterals (h : Sequential value) (ps : List Pattern) :
    ((joinLiterals ps).map value).prod = (ps.map value).prod := by
  induction ps with
  | nil => rfl
  | cons p rest ih =>
    rw [List.map_cons, List.prod_cons, ← ih]
    cases p with
    | literal s =>
      rw [Pattern.joinLiterals]
      split
      · next t more joined =>
        rw [joined]
        simp only [List.map_cons, List.prod_cons]
        rw [← mul_assoc, h.literal]
      · rfl
    | empty | set | assertion | group | seq | alt | repeated => rfl

theorem flatMap_parts (h : Sequential value) (ps : List Pattern) :
    ((ps.flatMap Pattern.parts).map value).prod = (ps.map value).prod := by
  induction ps with
  | nil => rfl
  | cons p rest ih =>
    rw [List.flatMap_cons, List.map_append, List.prod_append, h.parts, ih, List.map_cons,
      List.prod_cons]

/-- The simple form of a sequence has the value of its parts in a row. -/
theorem sequence (h : Sequential value) (ps : List Pattern) :
    value (sequence ps) = (ps.map value).prod := by
  rw [Pattern.sequence, h.ofParts, h.joinLiterals, h.flatMap_parts]

end Sequential

theorem literal_mul (s t : List Char) :
    (literal s).reads * (literal t).reads = (literal (s ++ t)).reads := by
  simp only [reads, ← map_mul]
  congr 1
  exact Set.image2_singleton

theorem sequential_reads : Sequential reads :=
  ⟨rfl, literal_mul, fun _ _ => rfl⟩

/-- A sequence reads one part after the other. -/
theorem reads_sequence (ps : List Pattern) : (sequence ps).reads = (ps.map reads).prod :=
  sequential_reads.sequence ps

/-- A sequence that begins with an assertion is a choice of its own. -/
theorem choice_sequence_assertion (a : Assertion) (ps : List Pattern) :
    choice [sequence (assertion a :: ps)] = sequence (assertion a :: ps) := by
  have whole : ([sequence (assertion a :: ps)].flatMap branches) = [sequence (assertion a :: ps)] := by
    have begins : sequence (assertion a :: ps) =
        ofParts (assertion a :: joinLiterals (ps.flatMap parts)) := rfl
    rw [List.flatMap_singleton, begins]
    cases joinLiterals (ps.flatMap parts) with
    | nil => rfl
    | cons q rest => rfl
  rw [choice, choiceTo.eq_def]
  dsimp only
  rw [whole]
  exact if_pos (Nat.le_refl 1)

theorem reads_set_empty : (set ∅).reads = 0 := by
  ext x y
  rw [reads, Passage.ofLanguage_apply, Passage.zero_apply, iff_false]
  rintro ⟨_, ⟨_, _, never⟩, _⟩
  exact Bool.false_ne_true never

theorem reads_set_union (a b : CharSet) :
    (set (a.union b)).reads = (set a).reads + (set b).reads := by
  simp only [reads, ← map_add]
  congr 1
  ext text
  simp only [charsOf, CharSet.contains_union, Bool.or_eq_true]
  constructor
  · rintro ⟨c, one, first | second⟩
    · exact .inl ⟨c, one, first⟩
    · exact .inr ⟨c, one, second⟩
  · rintro (⟨c, one, first⟩ | ⟨c, one, second⟩)
    · exact ⟨c, one, .inl first⟩
    · exact ⟨c, one, .inr second⟩

theorem reads_single (c : Char) : (set (.single c)).reads = (literal [c]).reads := by
  simp only [reads]
  congr 1
  ext text
  simp only [charsOf, CharSet.contains_single, decide_eq_true_eq]
  constructor
  · rintro ⟨_, one, rfl⟩
    exact one
  · exact fun one => ⟨c, one, rfl⟩

theorem reads_ofSet (s : CharSet) : (ofSet s).reads = (set s).reads := by
  unfold ofSet
  split
  · next c only =>
    simp only [reads]
    congr 1
    ext text
    simp only [charsOf, CharSet.contains_of_only? only]
    constructor
    · exact fun one => ⟨c, one, rfl⟩
    · rintro ⟨_, one, rfl⟩
      exact one
  · rfl

theorem reads_ofBranches : ∀ ps : List Pattern, (ofBranches ps).reads = (ps.map reads).sum
  | [] => reads_set_empty
  | [p] => (add_zero p.reads).symm
  | p :: q :: rest => by
    rw [ofBranches, reads, reads_ofBranches (q :: rest)]
    · rfl
    · exact List.cons_ne_nil q rest

theorem sum_branches (p : Pattern) : (p.branches.map reads).sum = p.reads := by
  induction p with
  | alt a b _ ih => rw [branches, List.map_cons, List.sum_cons, ih, reads]
  | empty | literal | set | assertion | group | seq | repeated => exact List.sum_singleton

theorem sum_flatMap_branches (ps : List Pattern) :
    ((ps.flatMap branches).map reads).sum = (ps.map reads).sum := by
  induction ps with
  | nil => rfl
  | cons p rest ih =>
    rw [List.flatMap_cons, List.map_append, List.sum_append, sum_branches, ih, List.map_cons,
      List.sum_cons]

theorem reads_foldl_union (sets : List CharSet) (s : CharSet) :
    (set (sets.foldl .union s)).reads = (set s).reads + (sets.map fun t => (set t).reads).sum := by
  induction sets generalizing s with
  | nil => exact (add_zero _).symm
  | cons t rest ih =>
    rw [List.foldl_cons, ih, reads_set_union, List.map_cons, List.sum_cons, add_assoc]

/-- Whether a pattern of which `f` gives the set reads one character of that set. -/
def Finds (f : Pattern → Option CharSet) : Prop := ∀ p s, f p = some s → p.reads = (set s).reads

theorem finds_single? : Finds single? := by
  intro p s found
  unfold single? at found
  split at found
  · next c =>
    cases found
    exact (reads_single c).symm
  · cases found

theorem finds_set? : Finds set? := by
  intro p s found
  unfold set? at found
  split at found
  · cases found
    rfl
  · cases found

theorem Finds.sets {f : Pattern → Option CharSet} (finds : Finds f) {ps : List Pattern}
    {sets : List CharSet} (found : ps.mapM f = some sets) :
    (sets.map fun t => (set t).reads).sum = (ps.map Pattern.reads).sum := by
  induction ps generalizing sets with
  | nil =>
    cases found
    rfl
  | cons p rest ih =>
    rw [List.mapM_cons] at found
    obtain ⟨s, one, found⟩ := Option.bind_eq_some_iff.1 found
    obtain ⟨more, others, found⟩ := Option.bind_eq_some_iff.1 found
    cases found
    rw [List.map_cons, List.sum_cons, ih others, ← finds p s one, List.map_cons, List.sum_cons]

theorem Finds.anyOf? {f : Pattern → Option CharSet} (finds : Finds f) {ps : List Pattern}
    {s : CharSet} (found : anyOf? f ps = some s) : (set s).reads = (ps.map Pattern.reads).sum := by
  obtain ⟨sets, all, rfl⟩ := Option.map_eq_some_iff.1 found
  rw [reads_foldl_union, finds.sets all, reads_set_empty, zero_add]

theorem commonParts_isPrefix (ps qs : List Pattern) :
    commonParts ps qs <+: ps ∧ commonParts ps qs <+: qs := by
  induction ps generalizing qs with
  | nil => exact ⟨List.nil_prefix, List.nil_prefix⟩
  | cons p ps ih =>
    cases qs with
    | nil => exact ⟨List.nil_prefix, List.nil_prefix⟩
    | cons q qs =>
      rw [commonParts]
      split
      · next same =>
        obtain ⟨rfl, _⟩ := (Bool.and_eq_true_iff.1 same).imp of_decide_eq_true id
        obtain ⟨first, second⟩ := ih qs
        exact ⟨(List.prefix_cons_inj p).2 first, (List.prefix_cons_inj p).2 second⟩
      · exact ⟨List.nil_prefix, List.nil_prefix⟩

theorem foldl_commonParts_isPrefix (rest : List Pattern) (ps : List Pattern) :
    let shared := rest.foldl (fun ps q => commonParts ps q.parts) ps
    shared <+: ps ∧ ∀ q ∈ rest, shared <+: q.parts := by
  induction rest generalizing ps with
  | nil => exact ⟨List.prefix_rfl, List.forall_mem_nil _⟩
  | cons q rest ih =>
    obtain ⟨first, second⟩ := commonParts_isPrefix ps q.parts
    obtain ⟨below, later⟩ := ih (commonParts ps q.parts)
    exact ⟨below.trans first, List.forall_mem_cons.2 ⟨below.trans second, later⟩⟩

/-- All branches begin with the shared parts. -/
theorem sharedParts_isPrefix (ps : List Pattern) : ∀ q ∈ ps, sharedParts ps <+: q.parts := by
  cases ps with
  | nil => exact List.forall_mem_nil _
  | cons p rest =>
    rw [sharedParts]
    split
    · obtain ⟨first, later⟩ := foldl_commonParts_isPrefix rest p.parts
      exact List.forall_mem_cons.2 ⟨first, later⟩
    · exact fun _ _ => List.nil_prefix

/-- What a pattern reads if it begins with some parts. -/
theorem reads_of_parts_isPrefix {shared : List Pattern} {q : Pattern} (begins : shared <+: q.parts) :
    q.reads = (shared.map reads).prod * (sequence (q.parts.drop shared.length)).reads := by
  obtain ⟨rest, whole⟩ := begins
  rw [reads_sequence, ← sequential_reads.parts q, ← whole, List.drop_left, List.map_append, List.prod_append]

/-- The forms that a choice may take. -/
theorem choiceTo_cases (depth : Nat) (ps : List Pattern) :
    choiceTo depth ps = ofBranches (ps.flatMap branches) ∨
      (∃ s, (anyOf? single? (ps.flatMap branches) = some s ∨
        anyOf? set? (ps.flatMap branches) = some s) ∧ choiceTo depth ps = ofSet s) ∨
      ∃ less shared, depth = less + 1 ∧
        (∀ q ∈ ps.flatMap branches, shared <+: q.parts) ∧
        choiceTo depth ps = sequence (shared ++ [choiceTo less
          ((ps.flatMap branches).map fun q => sequence (q.parts.drop shared.length))]) := by
  have begins := sharedParts_isPrefix (ps.flatMap branches)
  rw [choiceTo.eq_def]
  dsimp only
  split
  · exact .inl rfl
  · split
    · next s found =>
      rw [Option.orElse_eq_orElse, Option.orElse_eq_or, Option.or_eq_some_iff] at found
      exact .inr (.inl ⟨s, found.imp id And.right, rfl⟩)
    · split
      · next less p shared here =>
        exact .inr (.inr ⟨less, p :: shared, rfl, here ▸ begins, rfl⟩)
      · exact .inl rfl

theorem reads_choiceTo (depth : Nat) (ps : List Pattern) :
    (choiceTo depth ps).reads = (ps.map reads).sum := by
  induction depth using Nat.strong_induction_on generalizing ps with
  | _ depth ih =>
    rw [← sum_flatMap_branches]
    rcases choiceTo_cases depth ps with
      plainly | ⟨s, found, characters⟩ | ⟨less, shared, rfl, begins, lifted⟩
    · rw [plainly]
      exact reads_ofBranches _
    · rw [characters, reads_ofSet]
      exact found.elim finds_single?.anyOf? finds_set?.anyOf?
    · rw [lifted, reads_sequence, List.map_append, List.prod_append, List.map_singleton,
        List.prod_singleton, ih less (Nat.lt_succ_self less), List.map_map,
        ← List.sum_map_mul_left]
      exact congrArg List.sum (List.map_congr_left fun q member =>
        (reads_of_parts_isPrefix (begins q member)).symm)

/-- A choice reads what one of its branches reads. -/
theorem reads_choice (ps : List Pattern) : (choice ps).reads = (ps.map reads).sum :=
  reads_choiceTo _ ps

/-- Whether a passage leads nowhere else. -/
def Stays (R : Passage) : Prop := ∀ x y, R x y → x = y

theorem stays_one : Stays 1 := fun _ _ => id

theorem Stays.mul {R S : Passage} (first : Stays R) (second : Stays S) : Stays (R * S) :=
  fun x y ⟨z, here, there⟩ => (first x z here).trans (second z y there)

theorem Stays.add {R S : Passage} (first : Stays R) (second : Stays S) : Stays (R + S) :=
  fun x y either => either.elim (first x y) (second x y)

theorem Stays.pow {R : Passage} (stays : Stays R) (n : Nat) : Stays (R ^ n) := by
  induction n with
  | zero => exact stays_one
  | succ n ih => exact pow_succ R n ▸ ih.mul stays

theorem Stays.one_add {R : Passage} (stays : Stays R) : 1 + R = 1 :=
  Passage.ext fun x y => ⟨fun either => either.elim id (stays x y), .inl⟩

theorem Stays.kstar {R : Passage} (stays : Stays R) : R∗ = 1 :=
  Passage.ext fun x y => ⟨fun ⟨n, rounds⟩ => stays.pow n x y rounds, fun same => ⟨0, same⟩⟩

/-- Doing nothing twice is doing it once. -/
theorem Stays.mul_self {R : Passage} (stays : Stays R) : R * R = R := by
  ext x y
  constructor
  · rintro ⟨z, first, second⟩
    exact stays x z first ▸ second
  · intro here
    exact ⟨x, (stays x y here).symm ▸ here, here⟩

theorem Stays.pow_min {R : Passage} (stays : Stays R) (n : Nat) : R ^ min n 1 = R ^ n := by
  induction n with
  | zero => rfl
  | succ n ih =>
    rw [pow_succ, ← ih, Nat.min_eq_right (Nat.succ_le_succ n.zero_le)]
    rcases Nat.eq_zero_or_pos n with rfl | positive
    · rw [Nat.zero_min, pow_zero, one_mul, pow_one]
    · rw [Nat.min_eq_right positive, pow_one, stays.mul_self]

theorem Stays.rounds {R : Passage} (stays : Stays R) (low : Nat) (high : Option Nat) :
    rounds R low high = R ^ min low 1 := by
  cases high with
  | none => rw [Pattern.rounds, stays.kstar, mul_one, stays.pow_min]
  | some high => rw [Pattern.rounds, stays.one_add, one_pow, mul_one, stays.pow_min]

theorem stays_of_readsNothing {p : Pattern} (nothing : p.readsNothing = true) :
    Stays p.reads := by
  induction p with
  | empty => exact stays_one
  | assertion => exact fun x y => And.right
  | literal text =>
    rw [readsNothing, List.isEmpty_iff] at nothing
    rintro x y ⟨_, rfl, reads⟩
    exact Spot.reads_nil_iff.1 (nothing ▸ reads)
  | set => cases nothing
  | group p ih => exact ih nothing
  | seq a b iha ihb =>
    obtain ⟨first, second⟩ := Bool.and_eq_true_iff.1 nothing
    exact (iha first).mul (ihb second)
  | alt a b iha ihb =>
    obtain ⟨first, second⟩ := Bool.and_eq_true_iff.1 nothing
    exact (iha first).add (ihb second)
  | repeated p low high greedy ih =>
    rcases Bool.or_eq_true_iff.1 nothing with never | still
    · obtain ⟨least, most⟩ := Bool.and_eq_true_iff.1 never
      obtain rfl := eq_of_beq least
      obtain rfl := eq_of_beq most
      rw [reads, Pattern.rounds, pow_zero, Nat.sub_self, pow_zero, mul_one]
      exact stays_one
    · have stays := ih (Bool.and_eq_true_iff.1 still).2
      rw [reads, stays.rounds]
      exact stays.pow _

/-- No round and a single round have forms of their own. -/
theorem reads_form (p : Pattern) (low : Nat) (high : Option Nat) (greedy : Bool) :
    (if low = 0 ∧ high = some 0 then empty
      else if low = 1 ∧ high = some 1 then p else repeated p low high greedy).reads =
        rounds p.reads low high := by
  split
  · next never => rw [never.1, never.2, rounds, pow_zero, Nat.sub_self, pow_zero, mul_one, reads]
  · split
    · next once => rw [once.1, once.2, rounds, pow_one, Nat.sub_self, pow_zero, mul_one]
    · rw [reads]

/-- A repetition reads its rounds. -/
theorem reads_repetition (p : Pattern) (low : Nat) (high : Option Nat) (greedy : Bool) :
    (repetition p low high greedy).reads = rounds p.reads low high := by
  unfold repetition
  refine (reads_form p _ _ greedy).trans ?_
  split
  · next nothing =>
    have stays := stays_of_readsNothing nothing
    rw [stays.rounds, stays.rounds, Nat.min_assoc, Nat.min_self]
  · rfl

end Pattern

end AttrGrammar
