/-!
Sets of characters.

Characters are numbered in order without a gap for the surrogates. A set is kept as the numbers at
which it begins and ends in turn, in increasing order, so equal sets are equal values. Two sets are
combined by one sweep over the bounds of both, and `contains_combine` says that the outcome holds
the characters it should.
-/

namespace AttrGrammar

/-- Whether a number is inside, where `b` says so for the numbers before the first bound. -/
def insideBounds (b : Bool) : List Nat → Nat → Bool
  | [], _ => b
  | x :: bounds, n => if n < x then b else insideBounds (!b) bounds n

theorem insideBounds_of_lt {b : Bool} {bounds : List Nat} {n : Nat} (h : ∀ x ∈ bounds, n < x) :
    insideBounds b bounds n = b := by
  cases bounds with
  | nil => rfl
  | cons x bounds => simp only [insideBounds, if_pos (h x List.mem_cons_self)]

/-- The least of the first bounds of two sets. -/
def firstBound? : List Nat → List Nat → Option Nat
  | [], [] => none
  | x :: _, [] => some x
  | [], y :: _ => some y
  | x :: _, y :: _ => some (min x y)

/-- Steps over a bound, if it is the first one. -/
def passBound (z : Nat) (b : Bool) : List Nat → Bool × List Nat
  | [] => (b, [])
  | x :: bounds => if x = z then (!b, bounds) else (b, x :: bounds)

/-- The bounds at which `f` changes, where `a` and `b` say whether the sweep is inside either set
and the lists hold the bounds ahead of it. -/
def sweepBounds (f : Bool → Bool → Bool) : Nat → Bool → Bool → List Nat → List Nat → List Nat
  | 0, _, _, _, _ => []
  | fuel + 1, a, b, xs, ys =>
    match firstBound? xs ys with
    | none => []
    | some z =>
      let (a', xs) := passBound z a xs
      let (b', ys) := passBound z b ys
      let rest := sweepBounds f fuel a' b' xs ys
      if f a' b' = f a b then rest else z :: rest

theorem mem_passBound {z : Nat} {b : Bool} {xs : List Nat} {w : Nat}
    (h : w ∈ (passBound z b xs).2) : w ∈ xs := by
  cases xs with
  | nil => exact h
  | cons x xs =>
    simp only [passBound] at h
    split at h
    · exact List.mem_cons_of_mem x h
    · exact h

theorem pairwise_passBound {z : Nat} {b : Bool} {xs : List Nat} (h : xs.Pairwise (· < ·)) :
    (passBound z b xs).2.Pairwise (· < ·) := by
  cases xs with
  | nil => exact h
  | cons x xs =>
    simp only [passBound]
    split
    · exact (List.pairwise_cons.1 h).2
    · exact h

theorem length_passBound_le (z : Nat) (b : Bool) (xs : List Nat) :
    (passBound z b xs).2.length ≤ xs.length := by
  cases xs with
  | nil => exact Nat.le_refl 0
  | cons x xs =>
    simp only [passBound]
    split <;> simp

/-- No bound comes before the first one. -/
theorem firstBound?_le {xs ys : List Nat} {z w : Nat} (hz : firstBound? xs ys = some z)
    (hx : xs.Pairwise (· < ·)) (hy : ys.Pairwise (· < ·)) (hw : w ∈ xs ∨ w ∈ ys) : z ≤ w := by
  have head {x : Nat} {l : List Nat} (h : (x :: l).Pairwise (· < ·)) (hw : w ∈ x :: l) : x ≤ w := by
    rcases List.mem_cons.1 hw with rfl | hw
    · exact Nat.le_refl w
    · exact Nat.le_of_lt ((List.pairwise_cons.1 h).1 w hw)
  cases xs with
  | nil =>
    cases ys with
    | nil => simp at hw
    | cons y ys =>
      simp only [firstBound?, Option.some.injEq] at hz
      subst hz
      rcases hw with hw | hw
      · simp at hw
      · exact head hy hw
  | cons x xs =>
    cases ys with
    | nil =>
      simp only [firstBound?, Option.some.injEq] at hz
      subst hz
      rcases hw with hw | hw
      · exact head hx hw
      · simp at hw
    | cons y ys =>
      simp only [firstBound?, Option.some.injEq] at hz
      subst hz
      rcases hw with hw | hw
      · exact Nat.le_trans (Nat.min_le_left x y) (head hx hw)
      · exact Nat.le_trans (Nat.min_le_right x y) (head hy hw)

/-- Past a bound, only greater ones are left. -/
theorem lt_of_mem_passBound {z w : Nat} {b : Bool} {xs : List Nat} (h : xs.Pairwise (· < ·))
    (hz : ∀ x ∈ xs, z ≤ x) (hw : w ∈ (passBound z b xs).2) : z < w := by
  cases xs with
  | nil => simp [passBound] at hw
  | cons x xs =>
    simp only [passBound] at hw
    have hx := hz x List.mem_cons_self
    have tail := (List.pairwise_cons.1 h).1
    split at hw
    case isTrue hxz => exact Nat.lt_of_le_of_lt hx (tail w hw)
    case isFalse hxz =>
      have hlt : z < x := by omega
      rcases List.mem_cons.1 hw with rfl | hw
      · exact hlt
      · exact Nat.lt_trans hlt (tail w hw)

/-- Stepping over a bound tells what is inside from the bound on. -/
theorem insideBounds_passBound {z n : Nat} {b : Bool} {xs : List Nat} (hz : z ≤ n) :
    insideBounds (passBound z b xs).1 (passBound z b xs).2 n = insideBounds b xs n := by
  cases xs with
  | nil => rfl
  | cons x xs =>
    simp only [passBound]
    split
    case isTrue hx =>
      subst hx
      simp only [insideBounds, if_neg (Nat.not_lt.2 hz)]
    case isFalse => rfl

theorem mem_sweepBounds {f : Bool → Bool → Bool} {fuel : Nat} {a b : Bool} {xs ys : List Nat}
    {w : Nat} (h : w ∈ sweepBounds f fuel a b xs ys) : w ∈ xs ∨ w ∈ ys := by
  induction fuel generalizing a b xs ys with
  | zero => simp [sweepBounds] at h
  | succ fuel ih =>
    simp only [sweepBounds] at h
    split at h
    · simp at h
    case h_2 z hz =>
      have rest (h : w ∈ sweepBounds f fuel (passBound z a xs).1 (passBound z b ys).1
          (passBound z a xs).2 (passBound z b ys).2) : w ∈ xs ∨ w ∈ ys :=
        (ih h).imp mem_passBound mem_passBound
      split at h
      · exact rest h
      · rcases List.mem_cons.1 h with rfl | h
        · cases xs with
          | nil =>
            cases ys with
            | nil => simp [firstBound?] at hz
            | cons y ys => simp_all [firstBound?]
          | cons x xs =>
            cases ys with
            | nil => simp_all [firstBound?]
            | cons y ys =>
              simp only [firstBound?, Option.some.injEq] at hz
              rcases Nat.le_total x y with hxy | hxy
              · rw [Nat.min_eq_left hxy] at hz
                exact .inl (hz ▸ List.mem_cons_self)
              · rw [Nat.min_eq_right hxy] at hz
                exact .inr (hz ▸ List.mem_cons_self)
        · exact rest h

theorem pairwise_sweepBounds {f : Bool → Bool → Bool} {fuel : Nat} {a b : Bool} {xs ys : List Nat}
    (hx : xs.Pairwise (· < ·)) (hy : ys.Pairwise (· < ·)) :
    (sweepBounds f fuel a b xs ys).Pairwise (· < ·) := by
  induction fuel generalizing a b xs ys with
  | zero => exact .nil
  | succ fuel ih =>
    simp only [sweepBounds]
    split
    · exact .nil
    case h_2 z hz =>
      have rest := ih (a := (passBound z a xs).1) (b := (passBound z b ys).1)
        (pairwise_passBound (z := z) (b := a) hx) (pairwise_passBound (z := z) (b := b) hy)
      split
      · exact rest
      · refine List.pairwise_cons.2 ⟨fun w hw => ?_, rest⟩
        rcases mem_sweepBounds hw with hw | hw
        · exact lt_of_mem_passBound hx (fun x h => firstBound?_le hz hx hy (.inl h)) hw
        · exact lt_of_mem_passBound hy (fun y h => firstBound?_le hz hx hy (.inr h)) hw

theorem insideBounds_sweepBounds {f : Bool → Bool → Bool} {fuel : Nat} {a b : Bool}
    {xs ys : List Nat} {n : Nat} (hx : xs.Pairwise (· < ·)) (hy : ys.Pairwise (· < ·))
    (hf : xs.length + ys.length ≤ fuel) :
    insideBounds (f a b) (sweepBounds f fuel a b xs ys) n =
      f (insideBounds a xs n) (insideBounds b ys n) := by
  induction fuel generalizing a b xs ys with
  | zero =>
    have hxs : xs = [] := List.eq_nil_of_length_eq_zero (by omega)
    have hys : ys = [] := List.eq_nil_of_length_eq_zero (by omega)
    subst hxs hys
    rfl
  | succ fuel ih =>
    simp only [sweepBounds]
    split
    case h_1 hz =>
      have hxs : xs = [] := by cases xs <;> cases ys <;> simp_all [firstBound?]
      have hys : ys = [] := by cases xs <;> cases ys <;> simp_all [firstBound?]
      subst hxs hys
      rfl
    case h_2 z hz =>
      have below (w : Nat) (h : w ∈ xs ∨ w ∈ ys) : z ≤ w := firstBound?_le hz hx hy h
      have shorter : (passBound z a xs).2.length + (passBound z b ys).2.length ≤ fuel := by
        have hlx := length_passBound_le z a xs
        have hly := length_passBound_le z b ys
        have hless : (passBound z a xs).2.length + (passBound z b ys).2.length <
            xs.length + ys.length := by
          cases xs with
          | nil =>
            cases ys with
            | nil => simp [firstBound?] at hz
            | cons y ys => simp_all [firstBound?, passBound]
          | cons x xs =>
            cases ys with
            | nil => simp_all [firstBound?, passBound]
            | cons y ys =>
              simp only [firstBound?, Option.some.injEq] at hz
              rcases Nat.le_total x y with hxy | hxy
              · rw [Nat.min_eq_left hxy] at hz
                subst hz
                simp only [passBound, if_true, List.length_cons] at hly ⊢
                omega
              · rw [Nat.min_eq_right hxy] at hz
                subst hz
                simp only [passBound, if_true, List.length_cons] at hlx ⊢
                omega
        omega
      have rest := ih (a := (passBound z a xs).1) (b := (passBound z b ys).1)
        (pairwise_passBound (z := z) (b := a) hx) (pairwise_passBound (z := z) (b := b) hy) shorter
      have after (w : Nat) (h : w ∈ sweepBounds f fuel (passBound z a xs).1 (passBound z b ys).1
          (passBound z a xs).2 (passBound z b ys).2) : z < w := by
        rcases mem_sweepBounds h with h | h
        · exact lt_of_mem_passBound hx (fun x hm => below x (.inl hm)) h
        · exact lt_of_mem_passBound hy (fun y hm => below y (.inr hm)) h
      by_cases hn : n < z
      · have hxn : insideBounds a xs n = a :=
          insideBounds_of_lt fun x hm => Nat.lt_of_lt_of_le hn (below x (.inl hm))
        have hyn : insideBounds b ys n = b :=
          insideBounds_of_lt fun y hm => Nat.lt_of_lt_of_le hn (below y (.inr hm))
        rw [hxn, hyn]
        split
        · exact insideBounds_of_lt fun w hw => Nat.lt_trans hn (after w hw)
        · exact insideBounds_of_lt fun w hw => by
            rcases List.mem_cons.1 hw with rfl | hw
            · exact hn
            · exact Nat.lt_trans hn (after w hw)
      · have hzn : z ≤ n := Nat.not_lt.1 hn
        rw [insideBounds_passBound hzn, insideBounds_passBound hzn] at rest
        split
        case isTrue h => rw [← rest, h]
        case isFalse h =>
          simp only [insideBounds, if_neg hn]
          have flip : (!f a b) = f (passBound z a xs).1 (passBound z b ys).1 := by
            revert h
            cases f a b <;> cases f (passBound z a xs).1 (passBound z b ys).1 <;> simp
          rw [flip, rest]

namespace CharSet

/-- The number of a character in the order of all characters. -/
def ordinal (c : Char) : Nat := if c.toNat < 0xd800 then c.toNat else c.toNat - 0x800

/-- The code point of the character with a number. -/
def codePoint (n : Nat) : Nat := if n < 0xd800 then n else n + 0x800

/-- How many characters there are. -/
def count : Nat := 0x110000 - 0x800

end CharSet

/-- A set of characters. -/
structure CharSet where
  bounds : List Nat
  increasing : bounds.Pairwise (· < ·)
  within : ∀ n ∈ bounds, n ≤ CharSet.count
  deriving DecidableEq

namespace CharSet

/-- Whether the character with a number is in a set. -/
def holds (s : CharSet) (n : Nat) : Bool := insideBounds false s.bounds n

def contains (s : CharSet) (c : Char) : Bool := s.holds (ordinal c)

instance : EmptyCollection CharSet := ⟨⟨[], .nil, nofun⟩⟩

instance : Inhabited CharSet := ⟨∅⟩

/-- The characters whose numbers are at least `first` and less than `stop`. -/
def between (first stop : Nat) : CharSet :=
  if h : first < stop ∧ stop ≤ count then ⟨[first, stop], by simpa using h.1, by
    intro n member
    simp only [List.mem_cons, List.not_mem_nil, or_false] at member
    omega⟩
  else ∅

/-- The characters from `first` to `last`. -/
def range (first last : Char) : CharSet := between (ordinal first) (ordinal last + 1)

def single (c : Char) : CharSet := range c c

def all : CharSet := between 0 count

/-- A set with one more bound in front of the others; a bound that does not come before them is
passed over. -/
def withBound (x : Nat) (s : CharSet) : CharSet :=
  if h : (∀ y ∈ s.bounds.head?, x < y) ∧ x ≤ count then ⟨x :: s.bounds, by
    refine List.pairwise_cons.2 ⟨fun z hz => ?_, s.increasing⟩
    have inc := s.increasing
    revert h hz inc
    cases s.bounds with
    | nil => simp
    | cons y rest =>
      intro h hz inc
      have hy : x < y := h.1 y rfl
      rcases List.mem_cons.1 hz with rfl | hz
      · exact hy
      · exact Nat.lt_trans hy ((List.pairwise_cons.1 inc).1 z hz),
    List.forall_mem_cons.2 ⟨h.2, s.within⟩⟩
  else s

/-- The set with the given bounds. -/
def ofBounds (bounds : List Nat) : CharSet := bounds.foldr withBound ∅

/-- The set whose bounds are given as code points. -/
def ofCodePoints (bounds : List Nat) : CharSet :=
  ofBounds (bounds.map fun n => if n < 0xd800 then n else n - 0x800)

/-- The characters for which `f` holds of being in `a` and being in `b`. -/
def combine (f : Bool → Bool → Bool) (a b : CharSet) : CharSet where
  bounds := sweepBounds f (a.bounds.length + b.bounds.length) false false a.bounds b.bounds
  increasing := pairwise_sweepBounds a.increasing b.increasing
  within n member := (mem_sweepBounds member).elim (a.within n) (b.within n)

theorem holds_combine {f : Bool → Bool → Bool} (hf : f false false = false) (a b : CharSet)
    (n : Nat) : (combine f a b).holds n = f (a.holds n) (b.holds n) := by
  have h := insideBounds_sweepBounds (f := f) (a := false) (b := false) (n := n)
    a.increasing b.increasing (Nat.le_refl _)
  rwa [hf] at h

theorem contains_combine {f : Bool → Bool → Bool} (hf : f false false = false) (a b : CharSet)
    (c : Char) : (combine f a b).contains c = f (a.contains c) (b.contains c) :=
  holds_combine hf a b (ordinal c)

def union (a b : CharSet) : CharSet := combine (· || ·) a b

def inter (a b : CharSet) : CharSet := combine (· && ·) a b

def diff (a b : CharSet) : CharSet := combine (fun a b => a && !b) a b

/-- The characters in exactly one of two sets. -/
def symmDiff (a b : CharSet) : CharSet := combine Bool.xor a b

def complement (a : CharSet) : CharSet := diff all a

/-- Whether all characters of a set are in ASCII. -/
def isAscii (s : CharSet) : Bool := (s.diff (between 0 128)).bounds.isEmpty

/-- The characters with some numbers. -/
def ofOrdinals (ns : List Nat) : CharSet := ns.foldl (fun s n => s.union (between n (n + 1))) ∅

/-- A set together with the characters that differ in case only from one in it. A pair tells what a
character is folded to; all others are folded to themselves. -/
def fold (pairs : List (Nat × Nat)) (s : CharSet) : CharSet :=
  let folded := s.union (ofOrdinals ((pairs.filter (s.holds ·.1)).map Prod.snd))
  folded.union (ofOrdinals ((pairs.filter (folded.holds ·.2)).map Prod.fst))

/-- The character of a set that has no other. -/
def only? (s : CharSet) : Option Char :=
  match s.bounds with
  | [first, stop] => if stop = first + 1 then some (Char.ofNat (codePoint first)) else none
  | _ => none

/-- The characters of a set as ranges of code points. -/
def ranges (s : CharSet) : List (Nat × Nat) := pair s.bounds
where
  pair : List Nat → List (Nat × Nat)
    | first :: stop :: rest => (codePoint first, codePoint (stop - 1)) :: pair rest
    | [first] => [(codePoint first, codePoint (count - 1))]
    | [] => []

end CharSet

end AttrGrammar
