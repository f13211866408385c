import AttrGrammar.Proofs.Pattern.Ranking

/-!
Patterns that prefer the longest match.

The preferred place need not be the furthest one: a branch goes before those after it even if they
lead further, and a lazy repetition stops as soon as it can. In an eager pattern this does not
happen. Where a part could go on or stop, the next character tells whether it goes on, because what
comes after the part cannot begin with that character, and going on is preferred. So the places are
ranked from the furthest to the nearest.
-/

namespace AttrGrammar

namespace Pattern

/-- The characters that a match may begin with. -/
def first : Pattern → CharSet
  | empty | assertion _ => ∅
  | literal text => (text.head?.map CharSet.single).getD ∅
  | set s => s
  | group p | repeated p _ _ _ => p.first
  | seq a b => if a.nullable then a.first.union b.first else a.first
  | alt a b => a.first.union b.first

/-- Whether a branch leads further than another one wherever both match: they begin with different
characters, or they are texts of which the second does not begin with the first. -/
def outranks : Pattern → Pattern → Bool
  | a, alt b c => a.outranks b && a.outranks c
  | literal s, literal t => !s.isPrefixOf t
  | a, b => !a.nullable && decide (a.first.inter b.first = ∅)

/-- The characters that one branch may go on with where another one ends. -/
def beyond : Pattern → Pattern → CharSet
  | a, alt b c => (a.beyond b).union (a.beyond c)
  | literal s, literal t => if t.isPrefixOf s then (literal (s.drop t.length)).first else ∅
  | a, b => if b.nullable then a.first else ∅

/-- The characters that a match may go on with where another match ends. -/
def further : Pattern → CharSet
  | empty | assertion _ | literal _ | set _ => ∅
  | group p => p.further
  | seq a b => if b.nullable then a.further.union b.further else b.further
  | alt a b => (a.further.union b.further).union (a.beyond b)
  | repeated p low high _ => if high = some low then p.further else p.further.union p.first

/-- Whether one character tells if a match goes on, and going on is preferred. -/
def eager : Pattern → Bool
  | empty | literal _ | set _ | assertion _ => true
  | group p => p.eager
  | seq a b => a.eager && b.eager && decide (a.further.inter b.first = ∅)
  | alt a b => a.eager && b.eager && a.outranks b
  | repeated p low high greedy => p.eager && !p.nullable && decide (p.further.inter p.first = ∅) &&
      (greedy || decide (high = some low))

end Pattern

/-- Whether the next character lies in a set. -/
def Spot.Ahead (x : Spot) (s : CharSet) : Prop := ∃ c ∈ x.rest.head?, s.contains c = true

namespace Spot.Ahead

variable {x y : Spot} {s t : CharSet}

theorem congr (ahead : x.Ahead s) (same : x.rest = y.rest) : y.Ahead s := by
  unfold Ahead
  rwa [← same]

theorem union_iff : x.Ahead (s.union t) ↔ x.Ahead s ∨ x.Ahead t := by
  simp only [Ahead, CharSet.contains_union, Bool.or_eq_true, and_or_left, exists_or]

theorem left (ahead : x.Ahead s) (t : CharSet) : x.Ahead (s.union t) := union_iff.2 (.inl ahead)

theorem right (ahead : x.Ahead t) (s : CharSet) : x.Ahead (s.union t) := union_iff.2 (.inr ahead)

theorem not_empty : ¬ x.Ahead ∅ := fun ⟨_, _, never⟩ => Bool.false_ne_true never

theorem of_empty (ahead : x.Ahead ∅) : x.Ahead s := absurd ahead not_empty

theorem not_both (apart : s.inter t = ∅) (ahead : x.Ahead s) : ¬ x.Ahead t := by
  rintro ⟨d, same, right⟩
  obtain ⟨c, next, left⟩ := ahead
  obtain rfl : c = d := Option.some.inj (next.symm.trans same)
  have both : (s.inter t).contains c = true := by
    rw [CharSet.contains_inter, left, right]
    rfl
  rw [apart] at both
  exact Bool.false_ne_true both

end Spot.Ahead

/-- How the ways of a ranking begin: one that reads something reads a character of a set first. -/
structure Heads (f : Ranking) (first : CharSet) (nullable : Bool) : Prop where
  forward : ∀ x, ∀ y ∈ f x, y.rest <:+ x.rest
  stays : ∀ x, ∀ y ∈ f x, x.rest.length ≤ y.rest.length → nullable = true
  begins : ∀ x, ∀ y ∈ f x, y.rest.length < x.rest.length → x.Ahead first

/-- A ranking from the furthest place to the nearest, where the next character tells that it is
possible to go on. -/
structure Sharp (f : Ranking) (further : CharSet) : Prop where
  goesOn : ∀ x, ∀ y ∈ f x, ∀ z ∈ f x, y.rest.length < z.rest.length → z.Ahead further
  sorted : ∀ x, (f x).Pairwise fun y z => y.rest.length < z.rest.length

namespace Heads

variable {f g : Ranking} {first first' : CharSet} {nullable nullable' : Bool} {x y : Spot}

theorem length_le (heads : Heads f first nullable) (member : y ∈ f x) :
    y.rest.length ≤ x.rest.length :=
  (heads.forward x y member).length_le

theorem mono (heads : Heads f first nullable) (firsts : ∀ x : Spot, x.Ahead first → x.Ahead first')
    (null : nullable = true → nullable' = true) : Heads f first' nullable' where
  forward := heads.forward
  stays x y member long := null (heads.stays x y member long)
  begins x y member short := firsts x (heads.begins x y member short)

theorem of_stays (only : ∀ x, ∀ y ∈ f x, y = x) : Heads f ∅ true := by
  refine ⟨fun x y member => ?_, fun _ _ _ _ => rfl, fun x y member short => ?_⟩
  · rw [only x y member]
  · rw [only x y member] at short
    exact absurd short (Nat.lt_irrefl _)

theorem one : Heads 1 ∅ true := of_stays fun _ _ => List.mem_singleton.1

theorem check (a : Assertion) : Heads (.check a) ∅ true :=
  of_stays fun _ _ member => (Ranking.mem_check_iff.1 member).2

theorem char (s : CharSet) : Heads (.char s) s false := by
  refine ⟨fun x y member => ?_, fun x y member long => ?_, fun x y member short => ?_⟩
  · obtain ⟨c, rest, _⟩ := Ranking.rest_of_mem_char member
    exact rest ▸ List.suffix_cons c y.rest
  · obtain ⟨c, rest, _⟩ := Ranking.rest_of_mem_char member
    rw [rest, List.length_cons] at long
    omega
  · obtain ⟨c, rest, inside⟩ := Ranking.rest_of_mem_char member
    exact ⟨c, by rw [rest]; rfl, inside⟩

theorem add (hf : Heads f first nullable) (hg : Heads g first' nullable') :
    Heads (f + g) (first.union first') (nullable || nullable') := by
  refine ⟨fun x y member => ?_, fun x y member long => ?_, fun x y member short => ?_⟩
  · exact (List.mem_append.1 member).elim (hf.forward x y) (hg.forward x y)
  · rcases List.mem_append.1 member with here | there
    · rw [hf.stays x y here long, Bool.true_or]
    · rw [hg.stays x y there long, Bool.or_true]
  · rcases List.mem_append.1 member with here | there
    · exact (hf.begins x y here short).left first'
    · exact (hg.begins x y there short).right first

theorem mul (hf : Heads f first nullable) (hg : Heads g first' nullable') :
    Heads (f * g) (if nullable then first.union first' else first) (nullable && nullable') := by
  refine ⟨fun x z member => ?_, fun x z member long => ?_, fun x z member short => ?_⟩
  · obtain ⟨y, hy, hz⟩ := List.mem_flatMap.1 member
    exact (hg.forward y z hz).trans (hf.forward x y hy)
  · obtain ⟨y, hy, hz⟩ := List.mem_flatMap.1 member
    rw [hf.stays x y hy (long.trans (hg.length_le hz)), hg.stays y z hz ((hf.length_le hy).trans long)]
    rfl
  · obtain ⟨y, hy, hz⟩ := List.mem_flatMap.1 member
    rcases Nat.lt_or_ge y.rest.length x.rest.length with reads | long
    · have ahead := hf.begins x y hy reads
      split
      · exact ahead.left first'
      · exact ahead
    · have same := (hf.forward x y hy).eq_of_length (Nat.le_antisymm (hf.length_le hy) long)
      rw [hf.stays x y hy long, if_pos rfl]
      exact ((hg.begins y z hz (same ▸ short)).congr same).right first

/-- In a row of ways that begin alike, each begins as the first one does. -/
theorem mul_self (hf : Heads f first nullable) (hg : Heads g first nullable') :
    Heads (f * g) first (nullable && nullable') := by
  refine (hf.mul hg).mono (fun x ahead => ?_) id
  split at ahead
  · exact (Spot.Ahead.union_iff.1 ahead).elim id id
  · exact ahead

theorem pow (once : Heads f first nullable) (n : Nat) : Heads (f ^ n) first (n == 0 || nullable) := by
  induction n with
  | zero => exact one.mono (fun _ => .of_empty) id
  | succ n ih =>
    rw [pow_succ]
    refine (ih.mul_self once).mono (fun _ => id) fun both => ?_
    rw [(Bool.and_eq_true_iff.1 both).2, Bool.or_true]

theorem turn {greedy : Bool} (hf : Heads f first nullable) : Heads (.turn greedy f 1) first true := by
  have stay : Heads 1 first true := one.mono (fun _ => .of_empty) id
  cases greedy with
  | true =>
    exact (hf.add stay).mono (fun _ ahead => (Spot.Ahead.union_iff.1 ahead).elim id id) fun _ => rfl
  | false =>
    exact (stay.add hf).mono (fun _ ahead => (Spot.Ahead.union_iff.1 ahead).elim id id) fun _ => rfl

theorem upTo (once : Heads f first nullable) (greedy : Bool) (n : Nat) :
    Heads (.upTo greedy f n) first true := by
  induction n with
  | zero => exact one.mono (fun _ => .of_empty) id
  | succ n ih => exact (once.mul_self ih).turn

theorem star (once : Heads f first nullable) (greedy : Bool) :
    Heads (.star greedy f) first true where
  forward x := (once.upTo greedy x.rest.length).forward x
  stays x := (once.upTo greedy x.rest.length).stays x
  begins x := (once.upTo greedy x.rest.length).begins x

theorem text (text : List Char) :
    Heads (Pattern.literal text).ranking (Pattern.literal text).first text.isEmpty := by
  induction text with
  | nil => exact one
  | cons c text ih => exact (char (.single c)).mul ih

end Heads

/-- A pattern begins with one of its first characters, unless it reads nothing. -/
theorem Pattern.heads_ranking (p : Pattern) : Heads p.ranking p.first p.nullable := by
  induction p with
  | empty => exact .one
  | literal text => exact .text text
  | set s => exact .char s
  | assertion a => exact .check a
  | group p ih => exact ih
  | seq a b iha ihb => exact iha.mul ihb
  | alt a b iha ihb => exact iha.add ihb
  | repeated p low high greedy ih =>
    rw [nullable, ← Bool.and_true (low == 0 || p.nullable)]
    cases high with
    | some high => exact (ih.pow low).mul_self (ih.upTo greedy (high - low))
    | none => exact (ih.pow low).mul_self (ih.star greedy)

namespace Sharp

variable {f g : Ranking} {first first' further further' beyond : CharSet} {nullable nullable' : Bool}
  {x y z : Spot}

/-- There are no two places at one distance. -/
theorem eq_of_length_eq (sharp : Sharp f further) (left : y ∈ f x) (right : z ∈ f x)
    (same : y.rest.length = z.rest.length) : y = z := by
  have distinct : ((f x).map fun y => y.rest.length).Nodup :=
    (List.pairwise_map.2 (sharp.sorted x)).imp ne_of_lt
  exact List.inj_on_of_nodup_map distinct left right same

/-- The first place is the furthest one. -/
theorem head_le (sharp : Sharp f further) (hd : (f x).head? = some y) (member : z ∈ f x) :
    y.rest.length ≤ z.rest.length := by
  obtain ⟨rest, whole⟩ := List.head?_eq_some_iff.1 hd
  have sorted := sharp.sorted x
  rw [whole] at sorted member
  rcases List.mem_cons.1 member with rfl | later
  · exact Nat.le_refl _
  · exact ((List.pairwise_cons.1 sorted).1 z later).le

theorem mono (sharp : Sharp f further)
    (furthers : ∀ x : Spot, x.Ahead further → x.Ahead further') : Sharp f further' where
  goesOn x y left z right short := furthers z (sharp.goesOn x y left z right short)
  sorted := sharp.sorted

/-- A ranking with one place at most. -/
theorem of_alone (alone : ∀ x, ∀ y ∈ f x, f x = [y]) : Sharp f ∅ := by
  constructor
  · intro x y left z right near
    rw [alone x y left] at right
    rw [List.mem_singleton.1 right] at near
    exact absurd near (Nat.lt_irrefl _)
  · intro x
    cases here : f x with
    | nil => exact .nil
    | cons y rest =>
      rw [← here, alone x y (here ▸ List.mem_cons_self)]
      exact List.pairwise_singleton _ y

theorem one : Sharp 1 ∅ := of_alone fun x y member => by rw [List.mem_singleton.1 member]; rfl

theorem char (s : CharSet) : Sharp (.char s) ∅ := of_alone fun ⟨b, text⟩ y member => by
  cases text with
  | nil => cases member
  | cons c rest =>
    rw [Ranking.char_cons] at member ⊢
    split at member
    · next inside => rw [if_pos inside, List.mem_singleton.1 member]
    · cases member

theorem check (a : Assertion) : Sharp (.check a) ∅ := of_alone fun x y member => by
  obtain ⟨holds, rfl⟩ := Ranking.mem_check_iff.1 member
  exact if_pos holds

/-- Where the first way could go on or stop, the second one does not begin. -/
theorem mul (hf : Sharp f further) (hg : Sharp g further') (heads : Heads g first nullable)
    (apart : ∀ x : Spot, x.Ahead further → ¬ x.Ahead first) :
    Sharp (f * g) (if nullable then further.union further' else further') := by
  have halts {x y y' z : Spot} (hy : y ∈ f x) (hy' : y' ∈ f x) (near : y'.rest.length < y.rest.length)
      (hz : z ∈ g y) : z.rest = y.rest := by
    refine (heads.forward y z hz).eq_of_length (Nat.le_antisymm (heads.length_le hz) ?_)
    refine Nat.le_of_not_lt fun reads => ?_
    exact apart y (hf.goesOn x y' hy' y hy near) (heads.begins y z hz reads)
  constructor
  · intro x z left z' right near
    obtain ⟨y, hy, hz⟩ := List.mem_flatMap.1 left
    obtain ⟨y', hy', hz'⟩ := List.mem_flatMap.1 right
    rcases Nat.lt_trichotomy y.rest.length y'.rest.length with before | same | behind
    · have stops := halts hy' hy before hz'
      rw [heads.stays y' z' hz' (stops ▸ Nat.le_refl _), if_pos rfl]
      exact ((hf.goesOn x y hy y' hy' before).congr stops.symm).left further'
    · cases hf.eq_of_length_eq hy hy' same
      have ahead := hg.goesOn y z hz z' hz' near
      split
      · exact ahead.right further
      · exact ahead
    · have stops := halts hy hy' behind hz
      have below := heads.length_le hz'
      rw [stops] at near
      omega
  · intro x
    refine List.pairwise_flatMap.2 ⟨fun y _ => hg.sorted y, ?_⟩
    refine (hf.sorted x).imp_of_mem fun {y y'} hy hy' near z hz z' hz' => ?_
    rw [halts hy' hy near hz']
    exact (heads.length_le hz).trans_lt near

/-- The first way leads further wherever both lead on. -/
theorem add (hf : Sharp f further) (hg : Sharp g further')
    (outranks : ∀ x, ∀ y ∈ f x, ∀ z ∈ g x, y.rest.length < z.rest.length ∧ z.Ahead beyond) :
    Sharp (f + g) ((further.union further').union beyond) := by
  constructor
  · intro x y left z right near
    rcases List.mem_append.1 left with hy | hy
    · rcases List.mem_append.1 right with hz | hz
      · exact ((hf.goesOn x y hy z hz near).left further').left beyond
      · exact (outranks x y hy z hz).2.right _
    · rcases List.mem_append.1 right with hz | hz
      · exact absurd (outranks x z hz y hy).1 (Nat.lt_asymm near)
      · exact ((hg.goesOn x y hy z hz near).right further).left beyond
  · intro x
    exact List.pairwise_append.2 ⟨hf.sorted x, hg.sorted x, fun y hy z hz => (outranks x y hy z hz).1⟩

theorem text (text : List Char) : Sharp (Pattern.literal text).ranking ∅ := by
  induction text with
  | nil => exact one
  | cons c text ih =>
    have reads := (char (.single c)).mul ih (.text text) fun _ ahead => absurd ahead Spot.Ahead.not_empty
    refine reads.mono fun x ahead => ?_
    split at ahead
    · exact (Spot.Ahead.union_iff.1 ahead).elim id id
    · exact ahead

section Rounds

variable (once : Sharp f further) (heads : Heads f first false)
  (apart : ∀ x : Spot, x.Ahead further → ¬ x.Ahead first)

include once heads apart

/-- As many rounds as are needed, each of which reads something. -/
theorem pow (n : Nat) : Sharp (f ^ n) further := by
  induction n with
  | zero => exact one.mono fun _ => .of_empty
  | succ n ih =>
    rw [pow_succ]
    exact ih.mul once heads apart

theorem upTo (n : Nat) : Sharp (.upTo true f n) (further.union first) := by
  induction n with
  | zero => exact one.mono fun _ => .of_empty
  | succ n ih =>
    have headsRounds := heads.mul_self (heads.upTo true n)
    have rounds := once.mul ih (heads.upTo true n) apart
    have reads : ∀ x, ∀ y ∈ (f * .upTo true f n) x, ∀ z ∈ (1 : Ranking) x,
        y.rest.length < z.rest.length ∧ z.Ahead first := by
      intro x y member z stays
      have reads : y.rest.length < x.rest.length := Nat.lt_of_not_le fun long =>
        Bool.false_ne_true (headsRounds.stays x y member long)
      rw [List.mem_singleton.1 stays]
      exact ⟨reads, headsRounds.begins x y member reads⟩
    refine (rounds.add one reads).mono fun x ahead => ?_
    simp only [if_true, Spot.Ahead.union_iff, Spot.Ahead.not_empty, or_false] at ahead ⊢
    tauto

theorem star : Sharp (.star true f) (further.union first) where
  goesOn x := (once.upTo heads apart x.rest.length).goesOn x
  sorted x := (once.upTo heads apart x.rest.length).sorted x

end Rounds

end Sharp

namespace Pattern

/-- A text that does not begin with another one is left behind by it. -/
theorem lt_of_outranks_text {s t : List Char} (outranks : s.isPrefixOf t = false) {x y z : Spot}
    (hy : y ∈ (literal s).ranking x) (hz : z ∈ (literal t).ranking x) :
    y.rest.length < z.rest.length ∧ z.Ahead ((literal s).beyond (literal t)) := by
  have rest {s : List Char} {y : Spot} (member : y ∈ (literal s).ranking x) :
      x.rest = s ++ y.rest := by
    have reads : (literal s).reads x y := ways_text s ▸ member
    obtain ⟨_, rfl, whole, _⟩ := reads
    exact whole
  have whole := rest hy
  have whole' := rest hz
  have unlike : ¬ s <+: t := by
    rw [← List.isPrefixOf_iff_prefix, outranks]
    exact Bool.false_ne_true
  have shorter : t <+: s := (List.prefix_or_prefix_of_prefix ⟨_, whole.symm⟩
    ⟨_, whole'.symm⟩).resolve_left unlike
  obtain ⟨more, rfl⟩ := shorter
  cases more with
  | nil => exact absurd ⟨[], by simp⟩ unlike
  | cons c more =>
    have ahead : z.rest = c :: more ++ y.rest := by
      rw [whole', List.append_assoc] at whole
      exact List.append_cancel_left whole
    constructor
    · rw [ahead, List.length_append, List.length_cons]
      omega
    · have begins : t.isPrefixOf (t ++ c :: more) = true :=
        List.isPrefixOf_iff_prefix.2 (List.prefix_append t _)
      rw [beyond, if_pos begins, List.drop_left]
      exact ⟨c, by rw [ahead]; rfl, by simp [first]⟩

/-- Where two branches match, the one that outranks the other leads further. -/
theorem lt_of_outranks {a b : Pattern} (outranks : a.outranks b = true) (x y : Spot)
    (hy : y ∈ a.ranking x) (z : Spot) (hz : z ∈ b.ranking x) :
    y.rest.length < z.rest.length ∧ z.Ahead (a.beyond b) := by
  fun_induction Pattern.outranks a b with
  | case1 a b c ihb ihc =>
    obtain ⟨first, second⟩ := Bool.and_eq_true_iff.1 outranks
    rcases List.mem_append.1 hz with here | there
    · exact (ihb first hy here).imp_right (·.left _)
    · exact (ihc second hy there).imp_right (·.right _)
  | case2 s t => exact lt_of_outranks_text (by simpa using outranks) hy hz
  | case3 a b noAlt noTexts =>
    simp only [Bool.and_eq_true, Bool.not_eq_true', decide_eq_true_eq] at outranks
    obtain ⟨reading, apart⟩ := outranks
    have moves : y.rest.length < x.rest.length := by
      refine Nat.lt_of_not_le fun long => Bool.false_ne_true ?_
      rw [← reading, a.heads_ranking.stays x y hy long]
    have begins := a.heads_ranking.begins x y hy moves
    have rests : z.rest = x.rest := by
      refine (b.heads_ranking.forward x z hz).eq_of_length
        (Nat.le_antisymm (b.heads_ranking.length_le hz) (Nat.le_of_not_lt fun reads => ?_))
      exact Spot.Ahead.not_both apart begins (b.heads_ranking.begins x z hz reads)
    rw [beyond.eq_3 a b noAlt noTexts, if_pos (b.heads_ranking.stays x z hz (rests ▸ Nat.le_refl _))]
    exact ⟨rests ▸ moves, begins.congr rests.symm⟩

/-- An eager pattern ranks its places from the furthest to the nearest. -/
theorem sharp_ranking {p : Pattern} (eager : p.eager = true) : Sharp p.ranking p.further := by
  induction p with
  | empty => exact .one
  | literal text => exact .text text
  | set s => exact .char s
  | assertion a => exact .check a
  | group p ih => exact ih eager
  | seq a b iha ihb =>
    simp only [Pattern.eager, Bool.and_eq_true, decide_eq_true_eq] at eager
    obtain ⟨⟨first, second⟩, apart⟩ := eager
    exact (iha first).mul (ihb second) b.heads_ranking fun _ => Spot.Ahead.not_both apart
  | alt a b iha ihb =>
    simp only [Pattern.eager, Bool.and_eq_true] at eager
    obtain ⟨⟨first, second⟩, outranks⟩ := eager
    exact (iha first).add (ihb second) (lt_of_outranks outranks)
  | repeated p low high greedy ih =>
    simp only [Pattern.eager, Bool.and_eq_true, Bool.or_eq_true, Bool.not_eq_true',
      decide_eq_true_eq] at eager
    obtain ⟨⟨⟨inner, reading⟩, apart⟩, going⟩ := eager
    have apart (x : Spot) : x.Ahead p.further → ¬ x.Ahead p.first := Spot.Ahead.not_both apart
    have heads := p.heads_ranking
    rw [reading] at heads
    have needed := (ih inner).pow heads apart low
    have more {g : Ranking} (rounds : Sharp g (p.further.union p.first))
        (headsRounds : Heads g p.first true) :
        Sharp (p.ranking ^ low * g) (p.further.union p.first) := by
      refine (needed.mul rounds headsRounds apart).mono fun x ahead => ?_
      simp only [if_true, Spot.Ahead.union_iff] at ahead ⊢
      tauto
    by_cases exactly : high = some low
    · subst exactly
      rw [ranking, further, if_pos rfl, Nat.sub_self, Ranking.upTo, mul_one]
      exact needed
    · obtain rfl := going.resolve_right exactly
      rw [further, if_neg exactly]
      cases high with
      | some high => exact more ((ih inner).upTo heads apart _) (heads.upTo true _)
      | none => exact more ((ih inner).star heads apart) (heads.star true)

/-- Rounds of an eager pattern read something. -/
theorem steady_of_eager {p : Pattern} (eager : p.eager = true) : p.steady = true := by
  induction p with
  | empty | literal | set | assertion => rfl
  | group p ih => exact ih eager
  | seq a b iha ihb | alt a b iha ihb =>
    simp only [Pattern.eager, Bool.and_eq_true] at eager
    exact Bool.and_eq_true_iff.2 ⟨iha eager.1.1, ihb eager.1.2⟩
  | repeated p low high greedy ih =>
    simp only [Pattern.eager, Bool.and_eq_true] at eager
    exact Bool.and_eq_true_iff.2 ⟨ih eager.1.1.1, Bool.or_eq_true_iff.2 (.inr eager.1.1.2)⟩

end Pattern

end AttrGrammar
