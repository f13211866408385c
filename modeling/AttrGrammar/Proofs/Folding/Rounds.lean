import AttrGrammar.Proofs.Folding.Names
import AttrGrammar.Proofs.Folding.Steps
import Mathlib.Data.Fintype.BigOperators
import Mathlib.Data.Finset.Option

/-!
Rounds of folding, without a limit.

A plan is gone through until a round makes nothing. What a round does to names depends on names
only, so where names come again the rounds never end, and there are only so many lists of names.
The main statement is that a plan gives exactly the tokens at which its rounds end: the marks and
the limit on rounds leave out no tokens that settle.
-/

namespace AttrGrammar.Fold

variable {combine : Combiner} {folds : List Fold} {xs ys tokens out : List Token} {n m : Nat}

/-- After a number of rounds that each make a fold, a round that makes none gives `out`. -/
inductive Settles (combine : Combiner) (folds : List Fold) : Nat → List Token → List Token → Prop
  | stable {tokens : List Token} (unfolded : (applyEach combine folds tokens).2 = 0) :
      Settles combine folds 0 tokens (applyEach combine folds tokens).1
  | round {n : Nat} {tokens out : List Token} (folded : (applyEach combine folds tokens).2 ≠ 0)
      (later : Settles combine folds n (applyEach combine folds tokens).1 out) :
      Settles combine folds (n + 1) tokens out

namespace Settles

/-- Where rounds end there is nothing left to fold. -/
theorem stuck (settles : Settles combine folds n tokens out) :
    (applyEach combine folds out).1 = out ∧ ∀ fold ∈ folds, (fold.apply combine out).2 = 0 := by
  induction settles with
  | stable unfolded =>
    obtain ⟨same, stuck⟩ := applyEach_stuck unfolded
    rw [same]
    exact ⟨same, stuck⟩
  | round _ _ ih => exact ih

/-- Whatever the rounds, the tokens in the end come of those at first. -/
theorem combines (settles : Settles combine folds n tokens out) :
    ∃ k, Combines combine (Fits folds) tokens k out := by
  induction settles with
  | stable => exact ⟨_, round_combines folds _⟩
  | round _ _ ih =>
    obtain ⟨k, later⟩ := ih
    exact ⟨_, (round_combines folds _).trans later⟩

/-- What holds after the first round and is kept by every fold holds in the end. -/
theorem keeps {P : List Token → Prop} (settles : Settles combine folds n tokens out)
    (kept : ∀ ts, P ts → P (applyEach combine folds ts).1)
    (holds : P (applyEach combine folds tokens).1) : P out := by
  induction settles with
  | stable => exact holds
  | round _ _ ih => exact ih (kept _ holds)

/-- Tokens with the same names take the same number of rounds. -/
theorem length_eq_of_names (named : ∀ n parts, (combine n parts).name = n)
    {out' : List Token} (settles : Settles combine folds n xs out)
    (settles' : Settles combine folds m ys out') (same : xs.map (·.name) = ys.map (·.name)) :
    n = m := by
  induction settles generalizing m ys with
  | stable unfolded =>
    obtain ⟨_, count⟩ := applyEach_names named folds same
    cases settles' with
    | stable => rfl
    | round folded => exact absurd (count ▸ unfolded) folded
  | round folded _ ih =>
    obtain ⟨names, count⟩ := applyEach_names named folds same
    cases settles' with
    | stable unfolded => exact absurd (count.trans unfolded) folded
    | round _ later => rw [ih later names]

/-- On the way, any number of rounds up to all of them is still to come for some tokens. -/
theorem stages {P : List Token → Prop} (kept : ∀ ts, P ts → P (applyEach combine folds ts).1)
    (settles : Settles combine folds n tokens out) (holds : P tokens) :
    ∀ k ≤ n, ∃ ts, P ts ∧ Settles combine folds k ts out := by
  induction settles with
  | stable unfolded =>
    intro k few
    rw [Nat.le_zero.1 few]
    exact ⟨_, holds, .stable unfolded⟩
  | @round n tokens out folded later ih =>
    intro k few
    rcases Nat.lt_or_ge n k with last | before
    · rw [Nat.le_antisymm few last]
      exact ⟨tokens, holds, .round folded later⟩
    · exact ih (kept _ holds) k before

end Settles

section

variable {α : Type} {letters : Finset α} {length : Nat}

/-- What a list has at each of some places. -/
def byPlace (length : Nat) (as : List α) (place : Fin length) : Option α := as[(place : Nat)]?

theorem eq_of_byPlace_eq {as bs : List α} (short : as.length ≤ length) (short' : bs.length ≤ length)
    (same : byPlace length as = byPlace length bs) : as = bs := by
  refine List.ext_getElem? fun place => ?_
  rcases Nat.lt_or_ge place length with inside | outside
  · exact congrFun same ⟨place, inside⟩
  · rw [List.getElem?_eq_none (Nat.le_trans short outside),
      List.getElem?_eq_none (Nat.le_trans short' outside)]

theorem byPlace_mem {as : List α} (spelled : ∀ a ∈ as, a ∈ letters) :
    byPlace length as ∈ Fintype.piFinset fun _ : Fin length => Finset.insertNone letters := by
  refine Fintype.mem_piFinset.2 fun place => Finset.mem_insertNone.2 fun a found => ?_
  exact spelled a (List.mem_of_getElem? found)

/-- Distinct lists of few enough elements of a set are no more than the set and the length allow. -/
theorem count_lists_le (lists : Nat → List α) (count : Nat)
    (distinct : ∀ i < count, ∀ j < count, lists i = lists j → i = j)
    (short : ∀ i < count, (lists i).length ≤ length)
    (spelled : ∀ i < count, ∀ a ∈ lists i, a ∈ letters) : count ≤ (letters.card + 1) ^ length := by
  calc count = (Finset.range count).card := (Finset.card_range count).symm
    _ ≤ (Fintype.piFinset fun _ : Fin length => Finset.insertNone letters).card := by
      refine Finset.card_le_card_of_injOn (fun i => byPlace length (lists i)) (fun i member => ?_)
        fun i member j member' same => ?_
      · exact byPlace_mem (spelled i (Finset.mem_range.1 member))
      · have below := Finset.mem_range.1 member
        have below' := Finset.mem_range.1 member'
        exact distinct i below j below' (eq_of_byPlace_eq (short i below) (short j below') same)
    _ = (letters.card + 1) ^ length := by
      rw [Fintype.card_piFinset_const, Finset.card_insertNone]

end

/-- The names that tokens can have on the way. -/
def namesFrom (folds : List Fold) (tokens : List Token) : Finset String :=
  (folds.map Fold.name ++ tokens.map (·.name)).toFinset

theorem card_namesFrom_le (folds : List Fold) (tokens : List Token) :
    (namesFrom folds tokens).card ≤ folds.length + tokens.length := by
  have bound := List.toFinset_card_le (folds.map Fold.name ++ tokens.map (·.name))
  rwa [List.length_append, List.length_map, List.length_map] at bound

/-- Tokens as they can be on the way from others: no more of them, and named as some of them or after
a fold. -/
structure ComesFrom (folds : List Fold) (tokens ts : List Token) : Prop where
  length : ts.length ≤ tokens.length
  names : ∀ t ∈ ts, t.name ∈ namesFrom folds tokens

theorem comesFrom_self (folds : List Fold) (tokens : List Token) : ComesFrom folds tokens tokens :=
  ⟨Nat.le_refl _, fun _ member =>
    List.mem_toFinset.2 (List.mem_append_right _ (List.mem_map_of_mem member))⟩

theorem ComesFrom.applyEach (named : ∀ n parts, (combine n parts).name = n) {ts : List Token}
    (comes : ComesFrom folds tokens ts) : ComesFrom folds tokens (applyEach combine folds ts).1 := by
  have combines : Combines combine (Fits folds) ts _ (Fold.applyEach combine folds ts).1 :=
    round_combines folds ts
  refine ⟨Nat.le_trans (combines.length_le Fits.nonempty) comes.length, ?_⟩
  refine combines.keeps (P := fun us => ∀ t ∈ us, t.name ∈ namesFrom folds tokens) ?_ comes.names
  intro before part after name fit spelled t member
  rcases List.mem_append.1 member with front | back
  · exact spelled t (List.mem_append_left _ front)
  rcases List.mem_cons.1 back with rfl | back
  · obtain ⟨fold, listed, rfl, _⟩ := fit
    rw [named]
    exact List.mem_toFinset.2 (List.mem_append_left _ (List.mem_map_of_mem listed))
  · exact spelled t (List.mem_append_right _ (List.mem_append_right _ back))

/-- Rounds are fewer than the lists of names that tokens can have on the way. -/
theorem Settles.lt_limit (named : ∀ n parts, (combine n parts).name = n)
    (settles : Settles combine folds n tokens out) :
    n < (folds.length + tokens.length + 1) ^ tokens.length := by
  have stages := settles.stages (fun _ comes => ComesFrom.applyEach named comes)
    (comesFrom_self folds tokens)
  choose! stage comes ends using stages
  have early : ∀ {i}, i < n + 1 → i ≤ n := Nat.le_of_lt_succ
  have distinct : ∀ i < n + 1, ∀ j < n + 1,
      (stage i).map (·.name) = (stage j).map (·.name) → i = j := fun i below j below' same =>
    (ends i (early below)).length_eq_of_names named (ends j (early below')) same
  have short : ∀ i < n + 1, ((stage i).map (·.name)).length ≤ tokens.length := fun i below => by
    rw [List.length_map]
    exact (comes i (early below)).length
  have spelled : ∀ i < n + 1, ∀ a ∈ (stage i).map (·.name), a ∈ namesFrom folds tokens := by
    intro i below a member
    obtain ⟨t, listed, rfl⟩ := List.mem_map.1 member
    exact (comes i (early below)).names t listed
  calc n < n + 1 := Nat.lt_succ_self n
    _ ≤ ((namesFrom folds tokens).card + 1) ^ tokens.length :=
      count_lists_le (fun i => (stage i).map (·.name)) (n + 1) distinct short spelled
    _ ≤ (folds.length + tokens.length + 1) ^ tokens.length :=
      Nat.pow_le_pow_left (Nat.succ_le_succ (card_namesFrom_le folds tokens)) _

/-- What is settled on is where the rounds end. -/
theorem settles_of_settle {rounds : Nat} {mark : List String} {span left : Nat}
    (done : settle combine folds rounds mark span left tokens = some out) :
    ∃ n, Settles combine folds n tokens out := by
  induction rounds generalizing mark span left tokens with
  | zero => cases done
  | succ rounds ih =>
    rw [settle] at done
    by_cases made : (applyEach combine folds tokens).2 = 0
    · simp only [if_pos made] at done
      cases done
      exact ⟨0, .stable made⟩
    · have later : ∃ n, Settles combine folds n (applyEach combine folds tokens).1 out := by
        simp only [if_neg made] at done
        split at done
        · cases done
        · split at done <;> exact ih done
      obtain ⟨n, later⟩ := later
      exact ⟨n + 1, .round made later⟩

/-- Where the rounds end is settled on, if there are rounds enough and the mark was made before. -/
theorem Settles.settle_eq (named : ∀ n parts, (combine n parts).name = n)
    (settles : Settles combine folds n tokens out) {rounds : Nat} (enough : n < rounds)
    {mark : List String} {marked out' : List Token} (names : marked.map (·.name) = mark)
    (before : Settles combine folds m marked out') (earlier : n ≤ m) (span left : Nat) :
    settle combine folds rounds mark span left tokens = some out := by
  induction settles generalizing rounds mark span left m marked out' with
  | @stable tokens unfolded =>
    obtain ⟨rounds, rfl⟩ := Nat.exists_eq_succ_of_ne_zero (Nat.ne_of_gt enough)
    rw [settle]
    simp only [unfolded, if_true]
  | @round n tokens out folded later ih =>
    obtain ⟨rounds, rfl⟩ := Nat.exists_eq_succ_of_ne_zero (Nat.ne_of_gt (Nat.zero_lt_of_lt enough))
    have new : (applyEach combine folds tokens).1.map (·.name) ≠ mark := by
      intro same
      have again := later.length_eq_of_names named before (same.trans names.symm)
      omega
    rw [settle]
    simp only [if_neg folded, if_neg new]
    split
    · exact ih (by omega) rfl later (Nat.le_refl n) _ _
    · exact ih (by omega) names before (by omega) _ _

end AttrGrammar.Fold

namespace AttrGrammar.FoldPlan

open Fold

variable {plan : FoldPlan} {g : Grammar} {combine : Combiner} {folds : List Fold}

theorem length_folds (known : plan.folds g = .ok folds) : folds.length = plan.length :=
  (mapM_eq_ok known).1

/-- A plan gives the tokens where its rounds end, and nothing else: with a limit on rounds and with
circles noticed it does what it does without. -/
theorem run_eq_ok_iff (named : ∀ n parts, (combine n parts).name = n)
    (known : plan.folds g = .ok folds) {tokens out : List Token} :
    plan.run g combine tokens = .ok out ↔ ∃ n, Settles combine folds n tokens out := by
  rw [run, known, except_ok_bind]
  constructor
  · intro done
    cases settled : settle combine folds (plan.roundLimit tokens) (tokens.map (·.name)) 1 1 tokens with
    | none =>
      rw [settled] at done
      cases done
    | some result =>
      rw [settled] at done
      cases done
      exact settles_of_settle settled
  · rintro ⟨n, settles⟩
    have enough : n < plan.roundLimit tokens := by
      have limit := settles.lt_limit named
      rwa [length_folds known] at limit
    rw [settles.settle_eq named enough rfl settles (Nat.le_refl n)]

end AttrGrammar.FoldPlan
