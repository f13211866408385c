import AttrGrammar.Pattern.Search
import AttrGrammar.Proofs.Pattern.Compiled

/-!
What a search finds.

Following states without reading reaches every state that can be reached, unless a match ends on the
way; then a match is at hand already, and what is cut off is not needed to find one. So a search
finds a match where there is one, and what it finds is one.
-/

namespace AttrGrammar

namespace Automaton

variable {states : Array State} {holds : Assertion → Bool}

/-- The states after one without reading. -/
def onward (states : Array State) (holds : Assertion → Bool) (i : Nat) : List Nat :=
  match states[i]? with
  | some (.fork first second) => [first, second]
  | some (.check a next) => if holds a then [next] else []
  | _ => []

/-- The way to read on from a state, if it is one that reads. -/
def readsAt (states : Array State) (i : Nat) : List (CharSet × Nat) :=
  match states[i]? with
  | some (.read s next) => [(s, next)]
  | _ => []

theorem next_of_read {i j : Nat} {s : CharSet} (here : states[i]? = some (.read s j)) :
    readsAt states i = [(s, j)] ∧ onward states holds i = [] := by
  rw [readsAt, onward, here]
  exact ⟨rfl, rfl⟩

theorem next_of_check {i j : Nat} {a : Assertion} (here : states[i]? = some (.check a j)) :
    readsAt states i = [] ∧ onward states holds i = if holds a then [j] else [] := by
  rw [readsAt, onward, here]
  exact ⟨rfl, rfl⟩

theorem next_of_fork {i j k : Nat} (here : states[i]? = some (.fork j k)) :
    readsAt states i = [] ∧ onward states holds i = [j, k] := by
  rw [readsAt, onward, here]
  exact ⟨rfl, rfl⟩

theorem mem_readsAt_iff {i j : Nat} {s : CharSet} :
    (s, j) ∈ readsAt states i ↔ states[i]? = some (.read s j) := by
  unfold readsAt
  split
  · next here =>
    rw [here, List.mem_singleton, Prod.mk.injEq, Option.some.injEq, State.read.injEq, eq_comm,
      @eq_comm _ j]
  · next other => exact iff_of_false List.not_mem_nil fun here => other _ _ here

theorem mem_onward_iff {i j : Nat} :
    j ∈ onward states holds i ↔ (∃ k, states[i]? = some (.fork j k)) ∨
      (∃ k, states[i]? = some (.fork k j)) ∨
      ∃ a, states[i]? = some (.check a j) ∧ holds a = true := by
  unfold onward
  split
  · next here =>
    simp only [here, List.mem_cons, List.not_mem_nil, or_false]
    grind
  · next here =>
    simp only [here]
    grind
  · next noFork noCheck =>
    refine iff_of_false List.not_mem_nil ?_
    rintro (⟨k, here⟩ | ⟨k, here⟩ | ⟨a, here, _⟩)
    · exact noFork _ _ here
    · exact noFork _ _ here
    · exact noCheck _ _ here

theorem follow_cons (fuel i : Nat) (stack : List Nat) (seen : Array Bool)
    (reads : List (CharSet × Nat)) :
    follow states holds (fuel + 1) (i :: stack) seen reads =
      if seen.getD i true then follow states holds fuel stack seen reads
      else if states[i]? = some .accept then { reads := reads.reverse, accepts := true }
      else follow states holds fuel (onward states holds i ++ stack) (seen.setIfInBounds i true)
        (readsAt states i ++ reads) := by
  rw [follow, onward, readsAt]
  cases states[i]? with
  | none => rfl
  | some state =>
    cases state with
    | read | fork | accept => rfl
    | check a next => cases met : holds a <;> simp [met]

/-- Whether one of some states leads, without reading, to a state. -/
def Reached (states : Array State) (holds : Assertion → Bool) (starts : List Nat) (k : Nat) : Prop :=
  ∃ i ∈ starts, Relation.ReflTransGen (fun i j => j ∈ onward states holds i) i k

/-- What is reached from the states after one is reached from it. -/
theorem Reached.after {i : Nat} {stack : List Nat} {k : Nat}
    (reached : Reached states holds (onward states holds i ++ stack) k) :
    Reached states holds (i :: stack) k := by
  obtain ⟨j, member, path⟩ := reached
  rcases List.mem_append.1 member with new | old
  · exact ⟨i, List.mem_cons_self, .head new path⟩
  · exact ⟨j, List.mem_cons_of_mem i old, path⟩

/-- What is found was reached. -/
theorem follow_sound (fuel : Nat) (stack : List Nat) (seen : Array Bool)
    (reads : List (CharSet × Nat)) :
    let ways := follow states holds fuel stack seen reads
    (∀ s j, (s, j) ∈ ways.reads → (s, j) ∈ reads ∨
      ∃ k, Reached states holds stack k ∧ states[k]? = some (.read s j)) ∧
    (ways.accepts = true → ∃ k, Reached states holds stack k ∧ states[k]? = some .accept) := by
  induction fuel generalizing stack seen reads with
  | zero =>
    rw [follow]
    exact ⟨fun s j member => .inl (List.mem_reverse.1 member),
      fun never => absurd never Bool.false_ne_true⟩
  | succ fuel ih =>
    cases stack with
    | nil =>
      rw [follow]
      exact ⟨fun s j member => .inl (List.mem_reverse.1 member),
        fun never => absurd never Bool.false_ne_true⟩
    | cons i stack =>
      have self : Reached states holds (i :: stack) i := ⟨i, List.mem_cons_self, .refl⟩
      rw [follow_cons]
      split
      · obtain ⟨found, accepts⟩ := ih stack seen reads
        have later (k : Nat) (reached : Reached states holds stack k) :
            Reached states holds (i :: stack) k := by
          obtain ⟨j, member, path⟩ := reached
          exact ⟨j, List.mem_cons_of_mem i member, path⟩
        exact ⟨fun s j member => (found s j member).imp_right (Exists.imp fun k =>
          And.imp_left (later k)), fun ends => (accepts ends).imp fun k => And.imp_left (later k)⟩
      · split
        · next here =>
          exact ⟨fun s j member => .inl (List.mem_reverse.1 member), fun _ => ⟨i, self, here⟩⟩
        · obtain ⟨found, accepts⟩ := ih (onward states holds i ++ stack)
            (seen.setIfInBounds i true) (readsAt states i ++ reads)
          refine ⟨fun s j member => ?_, fun ends => (accepts ends).imp fun k =>
            And.imp_left Reached.after⟩
          rcases found s j member with listed | ⟨k, reached, here⟩
          · rcases List.mem_append.1 listed with new | listed
            · exact .inr ⟨i, self, mem_readsAt_iff.1 new⟩
            · exact .inl listed
          · exact .inr ⟨k, reached.after, here⟩

/-- The marked states end no match, their ways to read on are kept, and the states after them are
marked or still to be followed. -/
structure Explored (states : Array State) (holds : Assertion → Bool) (seen : Array Bool)
    (stack : List Nat) (reads : List (CharSet × Nat)) : Prop where
  size : seen.size = states.size
  goesOn : ∀ i : Nat, seen[i]? = some true → states[i]? ≠ some State.accept
  kept : ∀ (i : Nat) s j, seen[i]? = some true → states[i]? = some (State.read s j) → (s, j) ∈ reads
  closed : ∀ i j : Nat, seen[i]? = some true → j ∈ onward states holds i →
    seen[j]? = some true ∨ j ∈ stack ∨ states.size ≤ j

/-- A state of the automaton that counts as known was marked. -/
theorem marked_of_known {seen : Array Bool} {i : Nat} (known : seen.getD i true = true)
    (inside : i < seen.size) : seen[i]? = some true := by
  rw [Array.getD_eq_getD_getElem?, Array.getElem?_eq_getElem inside] at known
  rw [Array.getElem?_eq_getElem inside]
  exact congrArg some known

/-- Only states of the automaton can be new. -/
theorem lt_size_of_new {seen : Array Bool} {i : Nat} (fresh : seen.getD i true ≠ true) :
    i < seen.size := by
  refine Nat.lt_of_not_le fun outside => fresh ?_
  rw [Array.getD_eq_getD_getElem?, Array.getElem?_eq_none outside, Option.getD_none]

theorem marked_iff {seen : Array Bool} {i : Nat} (inside : i < seen.size) (k : Nat) :
    (seen.setIfInBounds i true)[k]? = some true ↔ k = i ∨ seen[k]? = some true := by
  rw [Array.getElem?_setIfInBounds]
  by_cases same : i = k
  · rw [if_pos same, if_pos inside]
    exact iff_of_true rfl (.inl same.symm)
  · rw [if_neg same]
    exact (or_iff_right fun equal => same equal.symm).symm

namespace Explored

variable {seen : Array Bool} {stack : List Nat} {reads : List (CharSet × Nat)}

/-- A state that was followed before can be dropped. -/
theorem drop {i : Nat} (explored : Explored states holds seen (i :: stack) reads)
    (known : seen.getD i true = true) :
    Explored states holds seen stack reads ∧ (i < states.size → seen[i]? = some true) := by
  have mark (inside : i < states.size) : seen[i]? = some true :=
    marked_of_known known (explored.size ▸ inside)
  refine ⟨{ explored with closed := fun k j marked step => ?_ }, mark⟩
  rcases explored.closed k j marked step with there | waits | outside
  · exact .inl there
  · rcases List.mem_cons.1 waits with rfl | waits
    · exact (Nat.lt_or_ge j states.size).imp mark .inr
    · exact .inr (.inl waits)
  · exact .inr (.inr outside)

/-- A new state is marked, and the states after it wait in its place. -/
theorem mark {i : Nat} (explored : Explored states holds seen (i :: stack) reads)
    (inside : i < seen.size) (goesOn : states[i]? ≠ some State.accept) :
    Explored states holds (seen.setIfInBounds i true) (onward states holds i ++ stack)
      (readsAt states i ++ reads) := by
  have marked := marked_iff inside
  refine ⟨?_, fun k there => ?_, fun k s j there here => ?_, fun k j there way => ?_⟩
  · rw [Array.size_setIfInBounds, explored.size]
  · rcases (marked k).1 there with rfl | there
    · exact goesOn
    · exact explored.goesOn k there
  · rcases (marked k).1 there with rfl | there
    · exact List.mem_append_left _ (mem_readsAt_iff.2 here)
    · exact List.mem_append_right _ (explored.kept k s j there here)
  · rcases (marked k).1 there with rfl | there
    · exact .inr (.inl (List.mem_append_left _ way))
    · rcases explored.closed k j there way with before | waits | outside
      · exact .inl ((marked j).2 (.inr before))
      · rcases List.mem_cons.1 waits with rfl | waits
        · exact .inl ((marked j).2 (.inl rfl))
        · exact .inr (.inl (List.mem_append_right _ waits))
      · exact .inr (.inr outside)

theorem reverse (explored : Explored states holds seen [] reads) :
    Explored states holds seen [] reads.reverse :=
  { explored with kept := fun i s j marked here =>
      List.mem_reverse.2 (explored.kept i s j marked here) }

end Explored

theorem count_mark {seen : Array Bool} {i : Nat} (inside : i < seen.size)
    (fresh : seen.getD i true ≠ true) :
    (seen.setIfInBounds i true).count false + 1 = seen.count false := by
  have here : seen[i] = false := by
    rw [Array.getD_eq_getD_getElem?, Array.getElem?_eq_getElem inside] at fresh
    exact Bool.eq_false_iff.2 fresh
  have positive : 0 < seen.count false := Array.count_pos_iff.2 (here ▸ Array.getElem_mem inside)
  rw [Array.setIfInBounds_def, dif_pos inside, Array.count_set, here]
  simp
  omega

theorem length_onward_le (states : Array State) (holds : Assertion → Bool) (i : Nat) :
    (onward states holds i).length ≤ 2 := by
  unfold onward
  split
  · exact Nat.le_refl 2
  · split
    · exact Nat.le_succ 1
    · exact Nat.zero_le 2
  · exact Nat.zero_le 2

/-- Unless a match ends on the way, everything that can be reached is marked in the end. -/
theorem Explored.follow (fuel : Nat) {seen : Array Bool} {stack : List Nat}
    {reads : List (CharSet × Nat)} (explored : Explored states holds seen stack reads)
    (enough : stack.length + 2 * seen.count false ≤ fuel)
    (goesOn : (follow states holds fuel stack seen reads).accepts = false) :
    ∃ seen', Explored states holds seen' [] (follow states holds fuel stack seen reads).reads ∧
      (∀ i : Nat, seen[i]? = some true → seen'[i]? = some true) ∧
      ∀ i ∈ stack, i < states.size → seen'[i]? = some true := by
  induction fuel generalizing stack seen reads with
  | zero =>
    obtain rfl : stack = [] := List.eq_nil_of_length_eq_zero (by omega)
    exact ⟨seen, explored.reverse, fun _ => id, List.forall_mem_nil _⟩
  | succ fuel ih =>
    cases stack with
    | nil => exact ⟨seen, explored.reverse, fun _ => id, List.forall_mem_nil _⟩
    | cons i stack =>
      rw [List.length_cons] at enough
      rw [follow_cons] at goesOn ⊢
      by_cases known : seen.getD i true = true
      · rw [if_pos known] at goesOn ⊢
        obtain ⟨dropped, mark⟩ := explored.drop known
        obtain ⟨seen', done, still, all⟩ := ih dropped (by omega) goesOn
        exact ⟨seen', done, still, List.forall_mem_cons.2 ⟨fun inside => still i (mark inside), all⟩⟩
      · rw [if_neg known] at goesOn ⊢
        by_cases ends : states[i]? = some State.accept
        · rw [if_pos ends] at goesOn
          cases goesOn
        · rw [if_neg ends] at goesOn ⊢
          have inside := lt_size_of_new known
          have fewer := count_mark inside known
          have short := length_onward_le states holds i
          obtain ⟨seen', done, still, all⟩ := ih (explored.mark inside ends)
            (by rw [List.length_append]; omega) goesOn
          have kept (k : Nat) (there : k = i ∨ seen[k]? = some true) : seen'[k]? = some true :=
            still k ((marked_iff inside k).2 there)
          exact ⟨seen', done, fun k there => kept k (.inr there),
            List.forall_mem_cons.2 ⟨fun _ => kept i (.inl rfl),
              fun k member => all k (List.mem_append_right _ member)⟩⟩

theorem Explored.marked_of_reached {seen : Array Bool} {reads : List (CharSet × Nat)}
    (explored : Explored states holds seen [] reads) {starts : List Nat}
    (all : ∀ i ∈ starts, i < states.size → seen[i]? = some true) {k : Nat}
    (reached : Reached states holds starts k) : seen[k]? = some true ∨ states.size ≤ k := by
  obtain ⟨i, member, path⟩ := reached
  induction path with
  | refl => exact (Nat.lt_or_ge i states.size).imp (all i member) id
  | tail _ step ih =>
    rcases ih with marked | outside
    · exact (explored.closed _ _ marked step).imp id (·.resolve_left List.not_mem_nil)
    · rw [onward, Array.getElem?_eq_none outside] at step
      cases step

/-- The ways to read on are those of the states that are reached without reading. A match that ends
here may cut some of them off. -/
theorem ways_spec (m : Automaton) (before after : Option Char) (starts : List Nat) :
    (∀ s j, (s, j) ∈ (m.ways before after starts).reads →
      ∃ k, Reached m.states (Assertion.holds before after) starts k ∧
        m.states[k]? = some (State.read s j)) ∧
    ((m.ways before after starts).accepts = true ↔
      ∃ k, Reached m.states (Assertion.holds before after) starts k ∧
        m.states[k]? = some State.accept) ∧
    ((m.ways before after starts).accepts = false →
      ∀ k s j, Reached m.states (Assertion.holds before after) starts k →
        m.states[k]? = some (State.read s j) → (s, j) ∈ (m.ways before after starts).reads) := by
  have unmarked : ∀ i : Nat, (Array.replicate m.states.size false)[i]? ≠ some true := by
    intro i there
    rw [Array.getElem?_replicate] at there
    split at there <;> cases there
  have explored : Explored m.states (Assertion.holds before after)
      (.replicate m.states.size false) starts [] :=
    ⟨Array.size_replicate, fun i there => absurd there (unmarked i),
      fun i _ _ there => absurd there (unmarked i), fun i _ there => absurd there (unmarked i)⟩
  obtain ⟨found, ends⟩ := @follow_sound m.states (Assertion.holds before after)
    (starts.length + 2 * m.states.size + 1) starts (.replicate m.states.size false) []
  have marked : (m.ways before after starts).accepts = false → ∃ seen,
      Explored m.states (Assertion.holds before after) seen [] (m.ways before after starts).reads ∧
        ∀ k, Reached m.states (Assertion.holds before after) starts k →
          seen[k]? = some true ∨ m.states.size ≤ k := by
    intro goesOn
    obtain ⟨seen, done, _, all⟩ := explored.follow _ (by
      rw [Array.count_replicate_self]
      exact Nat.le_succ _) goesOn
    exact ⟨seen, done, fun k => done.marked_of_reached all⟩
  refine ⟨fun s j member => (found s j member).resolve_left List.not_mem_nil, ⟨ends, ?_⟩, ?_⟩
  · rintro ⟨k, reached, here⟩
    by_contra goesOn
    obtain ⟨seen, done, all⟩ := marked (Bool.eq_false_iff.2 goesOn)
    rcases all k reached with there | outside
    · exact done.goesOn k there here
    · cases (Array.getElem?_eq_none outside).symm.trans here
  · intro goesOn k s j reached here
    obtain ⟨seen, done, all⟩ := marked goesOn
    rcases all k reached with there | outside
    · exact done.kept k s j there here
    · cases (Array.getElem?_eq_none outside).symm.trans here

/-- Whether reading may lead from one of some states at one place to an end at another. -/
def Leads (states : Array State) (starts : List Nat) (x y : Spot) : Prop :=
  ∃ i ∈ starts, ∃ n, Ends states n i x y

theorem ends_of_onward {n i j : Nat} {x y : Spot}
    (step : j ∈ onward states (Assertion.holds x.before x.rest.head?) i)
    (later : Ends states n j x y) : Ends states (n + 1) i x y := by
  rcases mem_onward_iff.1 step with ⟨k, here⟩ | ⟨k, here⟩ | ⟨a, here, met⟩
  · exact .first here later
  · exact .second here later
  · exact .check here met later

theorem ends_of_reached {starts : List Nat} {k n : Nat} {x y : Spot}
    (reached : Reached states (Assertion.holds x.before x.rest.head?) starts k)
    (later : Ends states n k x y) : Leads states starts x y := by
  obtain ⟨i, member, path⟩ := reached
  refine ⟨i, member, ?_⟩
  clear member
  induction path using Relation.ReflTransGen.head_induction_on with
  | refl => exact ⟨n, later⟩
  | head step _ ih =>
    obtain ⟨m, ends⟩ := ih
    exact ⟨m + 1, ends_of_onward step ends⟩

/-- Before a match ends or a character is read, states are only followed. -/
theorem Ends.reached {n i : Nat} {x y : Spot} (ends : Ends states n i x y) :
    ∃ k, Reached states (Assertion.holds x.before x.rest.head?) [i] k ∧
      (states[k]? = some .accept ∧ x = y ∨
        ∃ s j c rest, states[k]? = some (.read s j) ∧ x.rest = c :: rest ∧ s.contains c = true ∧
          ∃ m, Ends states m j ⟨some c, rest⟩ y) := by
  have self : ∀ {x : Spot} {i : Nat},
      Reached states (Assertion.holds x.before x.rest.head?) [i] i :=
    ⟨_, List.mem_cons_self, .refl⟩
  have ahead : ∀ {x : Spot} {i j k : Nat},
      j ∈ onward states (Assertion.holds x.before x.rest.head?) i →
      Reached states (Assertion.holds x.before x.rest.head?) [j] k →
      Reached states (Assertion.holds x.before x.rest.head?) [i] k := by
    rintro x i j k step ⟨_, member, path⟩
    obtain rfl := List.mem_singleton.1 member
    exact ⟨i, List.mem_cons_self, .head step path⟩
  induction ends with
  | accept here => exact ⟨_, self, .inl ⟨here, rfl⟩⟩
  | read here inside later => exact ⟨_, self, .inr ⟨_, _, _, _, here, rfl, inside, _, later⟩⟩
  | first here _ ih =>
    obtain ⟨k, reached, rest⟩ := ih
    exact ⟨k, ahead (mem_onward_iff.2 (.inl ⟨_, here⟩)) reached, rest⟩
  | second here _ ih =>
    obtain ⟨k, reached, rest⟩ := ih
    exact ⟨k, ahead (mem_onward_iff.2 (.inr (.inl ⟨_, here⟩))) reached, rest⟩
  | check here met _ ih =>
    obtain ⟨k, reached, rest⟩ := ih
    exact ⟨k, ahead (mem_onward_iff.2 (.inr (.inr ⟨_, here, met⟩))) reached, rest⟩

theorem Leads.reached {starts : List Nat} {x y : Spot} (leads : Leads states starts x y) :
    ∃ k, Reached states (Assertion.holds x.before x.rest.head?) starts k ∧
      (states[k]? = some .accept ∧ x = y ∨
        ∃ s j c rest, states[k]? = some (.read s j) ∧ x.rest = c :: rest ∧ s.contains c = true ∧
          ∃ m, Ends states m j ⟨some c, rest⟩ y) := by
  obtain ⟨i, member, n, ends⟩ := leads
  obtain ⟨k, ⟨_, only, path⟩, rest⟩ := ends.reached
  exact ⟨k, ⟨i, member, List.mem_singleton.1 only ▸ path⟩, rest⟩

/-- The states after a character. -/
theorem mem_after_iff {m : Automaton} {before : Option Char} {c : Char} {starts : List Nat} {j : Nat} :
    j ∈ after (m.ways before (some c) starts).reads c ↔
      ∃ s, (s, j) ∈ (m.ways before (some c) starts).reads ∧ s.contains c = true := by
  rw [after, List.mem_filterMap]
  constructor
  · rintro ⟨⟨s, k⟩, member, found⟩
    dsimp only at found
    split at found
    · next inside =>
      cases found
      exact ⟨s, member, inside⟩
    · cases found
  · rintro ⟨s, member, inside⟩
    exact ⟨(s, j), member, if_pos inside⟩

theorem run_cons (m : Automaton) (starts : List Nat) (before : Option Char) (used : Nat)
    (best : Option Nat) (c : Char) (rest : List Char) :
    m.run starts before used best (c :: rest) =
      let ways := m.ways before (some c) starts
      let best := if ways.accepts then some used else best
      if after ways.reads c = [] then best
      else m.run (after ways.reads c) (some c) (used + 1) best rest := by
  rw [run]
  dsimp only
  split
  · next ended => exact (if_pos ended).symm
  · next next left => exact (if_neg left).symm

/-- A match that is found is one, unless it was there before. -/
theorem run_sound {m : Automaton} {text : List Char} {starts : List Nat} {before : Option Char}
    {used n : Nat} {best : Option Nat} (found : m.run starts before used best text = some n) :
    best = some n ∨
      ∃ y, Leads m.states starts ⟨before, text⟩ y ∧ n + y.rest.length = used + text.length := by
  induction text generalizing starts before used best with
  | nil =>
    rw [run] at found
    split at found
    · next accepts =>
      cases found
      obtain ⟨k, reached, here⟩ := (m.ways_spec before none starts).2.1.1 accepts
      exact .inr ⟨_, ends_of_reached (x := ⟨before, []⟩) reached (.accept here), rfl⟩
    · exact .inl found
  | cons c rest ih =>
    obtain ⟨reads, accepts, -⟩ := m.ways_spec before (some c) starts
    have here (accept : (m.ways before (some c) starts).accepts = true) : ∃ y,
        Leads m.states starts ⟨before, c :: rest⟩ y ∧
          used + y.rest.length = used + (c :: rest).length := by
      obtain ⟨k, reached, here⟩ := accepts.1 accept
      exact ⟨_, ends_of_reached (x := ⟨before, c :: rest⟩) reached (.accept here), rfl⟩
    have kept : (if (m.ways before (some c) starts).accepts then some used else best) = some n →
        best = some n ∨ ∃ y, Leads m.states starts ⟨before, c :: rest⟩ y ∧
          n + y.rest.length = used + (c :: rest).length := by
      intro found
      split at found
      · next accept =>
        cases found
        exact .inr (here accept)
      · exact .inl found
    rw [run_cons] at found
    dsimp only at found
    split at found
    · exact kept found
    · rcases ih found with before | ⟨y, ⟨j, member, l, ends⟩, length⟩
      · exact kept before
      · obtain ⟨s, way, inside⟩ := mem_after_iff.1 member
        obtain ⟨k, reached, there⟩ := reads s j way
        refine .inr ⟨y, ends_of_reached (x := ⟨before, c :: rest⟩) reached
          (.read there inside ends), ?_⟩
        rw [length, List.length_cons]
        omega

/-- Where there is a match, one is found. -/
theorem run_complete {m : Automaton} {text : List Char} {starts : List Nat} {before : Option Char}
    {used : Nat} {best : Option Nat}
    (reached : best.isSome = true ∨ ∃ y, Leads m.states starts ⟨before, text⟩ y) :
    (m.run starts before used best text).isSome = true := by
  induction text generalizing starts before used best with
  | nil =>
    obtain ⟨-, accepts, -⟩ := m.ways_spec before none starts
    rw [run]
    split
    · rfl
    · next goesOn =>
      refine reached.resolve_right ?_
      rintro ⟨y, leads⟩
      obtain ⟨k, reached, ⟨here, _⟩ | ⟨_, _, _, _, _, nothing, _⟩⟩ := leads.reached
      · exact goesOn (accepts.2 ⟨k, reached, here⟩)
      · cases nothing
  | cons c rest ih =>
    obtain ⟨-, accepts, complete⟩ := m.ways_spec before (.some c) starts
    rw [run_cons]
    dsimp only
    by_cases accept : (m.ways before (.some c) starts).accepts = true
    · rw [if_pos accept]
      split
      · rfl
      · exact ih (.inl rfl)
    · rw [if_neg accept]
      rcases reached with best | ⟨y, leads⟩
      · split
        · exact best
        · exact ih (.inl best)
      · obtain ⟨k, reached, ⟨here, _⟩ | ⟨s, j, d, rest', here, same, inside, n, ends⟩⟩ := leads.reached
        · exact absurd (accepts.2 ⟨k, reached, here⟩) accept
        · cases same
          have way := complete (Bool.eq_false_iff.2 accept) k s j reached here
          have member := mem_after_iff.2 ⟨s, way, inside⟩
          rw [if_neg (List.ne_nil_of_mem member)]
          exact ih (.inr ⟨y, j, member, n, ends⟩)

/-- Where nothing leads on after a character, a match begins at the start of the text only. -/
theorem searchFrom_eq_run {m : Automaton}
    (never : ∀ c rest y, ¬ Leads m.states [m.start] ⟨some c, rest⟩ y) (only : Bool)
    (text : List Char) : m.searchFrom only none 0 text = m.run [m.start] none 0 none text := by
  have nowhere : ∀ (text : List Char) (c : Char) (skipped : Nat),
      m.run [m.start] (some c) skipped none text = none := by
    intro text c skipped
    cases found : m.run [m.start] (some c) skipped none text with
    | none => rfl
    | some n =>
      obtain ⟨y, leads, _⟩ := (run_sound found).resolve_left nofun
      exact absurd leads (never c text y)
  have later : ∀ (text : List Char) (c : Char) (skipped : Nat),
      m.searchFrom only (some c) skipped text = none := by
    intro text
    induction text with
    | nil =>
      intro c skipped
      rw [searchFrom, nowhere]
    | cons d rest ih =>
      intro c skipped
      rw [searchFrom, nowhere]
      dsimp only
      rw [ih]
      exact ite_self none
  rw [searchFrom.eq_def]
  cases m.run [m.start] none 0 none text with
  | some n => rfl
  | none =>
    cases text with
    | nil => rfl
    | cons c rest =>
      dsimp only
      rw [later]
      exact ite_self none

end Automaton

end AttrGrammar
