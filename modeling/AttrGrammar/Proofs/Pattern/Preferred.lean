import AttrGrammar.Proofs.Pattern.Searching
import AttrGrammar.Proofs.Pattern.Yields

/-!
Which match a search prefers.

A search follows a stack of states at each place of a text. What they end at, in order, begins with
the match that is preferred, and no step of the search changes with what it begins. Only where a
state is dropped because it was entered before is there something to say: no state comes back to
itself without reading, so all that is left of the earlier visit are ways that read, and if there is
an end after them, it comes before the ends that are dropped.
-/

namespace AttrGrammar

namespace Automaton

variable {states : Array State} {ends : Nat → Ranking} {i j : Nat} {x y : Spot} {ys zs : List Spot}

/-- Going on from one state to another without reading. -/
def Steps (states : Array State) (x : Spot) (i j : Nat) : Prop :=
  j ∈ onward states (Assertion.holds x.before x.rest.head?) i

theorem Yields.unique (first : Yields states i x ys) (second : Yields states i x zs) : ys = zs := by
  induction first generalizing zs with
  | accept here =>
    cases second with
    | accept => rfl
    | read there | check there | fork there => cases here.symm.trans there
  | read here _ ih =>
    cases second with
    | read there later =>
      cases here.symm.trans there
      exact List.flatMap_congr fun y member => ih y member (later y member)
    | accept there | check there | fork there => cases here.symm.trans there
  | check here _ ih =>
    cases second with
    | check there later =>
      cases here.symm.trans there
      exact List.flatMap_congr fun y member => ih y member (later y member)
    | accept there | read there | fork there => cases here.symm.trans there
  | fork here _ _ first second =>
    cases second with
    | fork there left right =>
      cases here.symm.trans there
      rw [first left, second right]
    | accept there | read there | check there => cases here.symm.trans there

/-- Whether places are those that reading prefers to end at. -/
def Tells (states : Array State) (ends : Nat → Ranking) : Prop :=
  ∀ i x ys, Yields states i x ys → ends i x = ys

theorem exists_tells (states : Array State) : ∃ ends, Tells states ends := by
  have each : ∀ i x, ∃ ys, ∀ zs, Yields states i x zs → ys = zs := by
    intro i x
    by_cases known : ∃ ys, Yields states i x ys
    · exact known.imp fun ys yields zs => yields.unique
    · exact ⟨[], fun zs yields => absurd ⟨zs, yields⟩ known⟩
  choose ends tells using each
  exact ⟨ends, tells⟩

/-- Reading leads along the text. -/
theorem Yields.length_le (yields : Yields states i x ys) :
    ∀ y ∈ ys, y.rest.length ≤ x.rest.length := by
  induction yields with
  | accept here => exact List.forall_mem_singleton.2 (Nat.le_refl _)
  | @read i j s x g here later ih =>
    intro y member
    obtain ⟨z, first, second⟩ := List.mem_flatMap.1 member
    have way : (Pattern.set s).reads x z := Pattern.ways_char s ▸ first
    exact (ih z first y second).trans ((Pattern.set s).reads_forward.length_le way)
  | check here later ih =>
    intro y member
    obtain ⟨z, first, second⟩ := List.mem_flatMap.1 member
    obtain ⟨_, rfl⟩ := Ranking.mem_check_iff.1 first
    exact ih z first y second
  | fork here _ _ first second =>
    intro y member
    exact (List.mem_append.1 member).elim (first y) (second y)

/-- No state comes back to itself without reading. -/
theorem Yields.acyclic (yields : Yields states i x ys) :
    ¬ Relation.TransGen (Steps states x) i i := by
  have around {i j : Nat} {x : Spot} (step : Steps states x i j)
      (path : Relation.ReflTransGen (Steps states x) j i) : Relation.TransGen (Steps states x) j j :=
    .tail' path step
  induction yields with
  | accept here | read here =>
    intro cycle
    obtain ⟨j, step, _⟩ := Relation.TransGen.head'_iff.1 cycle
    rw [Steps, onward, here] at step
    cases step
  | check here later ih =>
    intro cycle
    obtain ⟨j, step, path⟩ := Relation.TransGen.head'_iff.1 cycle
    have cycle := around step path
    rw [Steps, (next_of_check here).2] at step
    split at step
    · next met =>
      cases List.mem_singleton.1 step
      exact ih _ (Ranking.mem_check_iff.2 ⟨met, rfl⟩) cycle
    · cases step
  | fork here _ _ first second =>
    intro cycle
    obtain ⟨j, step, path⟩ := Relation.TransGen.head'_iff.1 cycle
    have cycle := around step path
    rw [Steps, (next_of_fork here).2] at step
    rcases List.mem_cons.1 step with rfl | step
    · exact first cycle
    · cases List.mem_singleton.1 step
      exact second cycle

/-- The ends after a way to read on. -/
def landing (ends : Nat → Ranking) (x : Spot) (way : CharSet × Nat) : List Spot :=
  (Ranking.char way.1 * ends way.2) x

/-- A state that accepts nothing ends where its ways to read on and the states after it do. -/
theorem Yields.goesOn (tells : Tells states ends) (yields : Yields states i x ys)
    (goesOn : states[i]? ≠ some .accept) :
    ys = (readsAt states i).flatMap (landing ends x) ++
        (onward states (Assertion.holds x.before x.rest.head?) i).flatMap (ends · x) ∧
      (∀ way ∈ readsAt states i, ∀ y ∈ Ranking.char way.1 x,
        Yields states way.2 y (ends way.2 y)) ∧
      ∀ j, Steps states x i j → Yields states j x (ends j x) := by
  unfold Steps
  cases yields with
  | accept here => exact absurd here goesOn
  | @read _ j s _ g here later =>
    obtain ⟨ways, after⟩ := next_of_read here
    rw [ways, after, List.flatMap_singleton, List.flatMap_nil, List.append_nil]
    refine ⟨?_, List.forall_mem_singleton.2 fun y member => ?_, List.forall_mem_nil _⟩
    · exact List.flatMap_congr fun y member => (tells j y _ (later y member)).symm
    · exact tells j y _ (later y member) ▸ later y member
  | @check _ j a _ g here later =>
    obtain ⟨ways, after⟩ := next_of_check here
    rw [ways, after, List.flatMap_nil, List.nil_append]
    by_cases met : a.holds x.before x.rest.head? = true
    · have there := later x (Ranking.mem_check_iff.2 ⟨met, rfl⟩)
      have same := tells j x _ there
      have stays : Ranking.check a x = [x] := if_pos met
      rw [if_pos met, Ranking.mul_apply, stays, List.flatMap_singleton, List.flatMap_singleton]
      exact ⟨same.symm, List.forall_mem_nil _, List.forall_mem_singleton.2 (same ▸ there)⟩
    · have fails : Ranking.check a x = [] := if_neg met
      rw [if_neg met, Ranking.mul_apply, fails]
      exact ⟨rfl, List.forall_mem_nil _, List.forall_mem_nil _⟩
  | @fork _ j k _ ys zs here first second =>
    obtain ⟨ways, after⟩ := next_of_fork here
    have left := tells j x _ first
    have right := tells k x _ second
    rw [ways, after]
    refine ⟨?_, List.forall_mem_nil _, ?_⟩
    · simp only [List.flatMap_nil, List.flatMap_cons, left, right, List.nil_append, List.append_nil]
    · exact List.forall_mem_cons.2 ⟨left ▸ first, List.forall_mem_singleton.2 (right ▸ second)⟩

/-- What a stack still ends at after what was found. -/
def remaining (ends : Nat → Ranking) (x : Spot) (stack : List Nat) (reads : List (CharSet × Nat)) :
    List Spot :=
  reads.reverse.flatMap (landing ends x) ++ stack.flatMap (ends · x)

/-- The states on a stack have ends. What was entered before has come back as ways to read on, or as
states in front of the others, which it leads to. -/
structure Pending (states : Array State) (ends : Nat → Ranking) (x : Spot) (seen : Array Bool)
    (stack : List Nat) (reads : List (CharSet × Nat)) : Prop where
  size : seen.size = states.size
  waits : ∀ i ∈ stack, Yields states i x (ends i x)
  ways : ∀ way ∈ reads, ∀ y ∈ Ranking.char way.1 x, Yields states way.2 y (ends way.2 y)
  entered : ∀ i : Nat, seen[i]? = some true → ∃ front, front <+: stack ∧
    (∀ k ∈ front, Relation.TransGen (Steps states x) i k) ∧
    (ends i x ≠ [] → remaining ends x front reads ≠ [])

theorem Yields.inside (yields : Yields states i x ys) : i < states.size := by
  cases yields with
  | accept here | read here | check here | fork here =>
    exact (Array.getElem?_eq_some_iff.1 here).1

variable {seen : Array Bool} {stack : List Nat} {reads : List (CharSet × Nat)}

/-- Ends that come after others are not the first. -/
theorem head?_remaining_cons (before : ends i x ≠ [] → remaining ends x [] reads ≠ []) :
    (remaining ends x (i :: stack) reads).head? = (remaining ends x stack reads).head? := by
  rw [remaining, remaining, List.flatMap_cons]
  by_cases nothing : ends i x = []
  · rw [nothing, List.nil_append]
  · have found := before nothing
    rw [remaining, List.flatMap_nil, List.append_nil] at found
    obtain ⟨first, more, found⟩ := List.exists_cons_of_ne_nil found
    simp only [found, List.cons_append, List.head?_cons]

/-- A new state gives way to its ways to read on and the states after it. -/
theorem remaining_onward (tells : Tells states ends) (yields : Yields states i x (ends i x))
    (goesOn : states[i]? ≠ some .accept) (stack : List Nat) :
    remaining ends x (onward states (Assertion.holds x.before x.rest.head?) i ++ stack)
      (readsAt states i ++ reads) = remaining ends x (i :: stack) reads := by
  obtain ⟨same, -⟩ := yields.goesOn tells goesOn
  have alone : (readsAt states i).reverse = readsAt states i := by
    unfold readsAt
    split <;> rfl
  rw [remaining, remaining, List.reverse_append, alone, List.flatMap_append, List.flatMap_append,
    List.flatMap_cons, same]
  simp only [List.append_assoc]

namespace Pending

/-- A state that was entered before can be dropped. -/
theorem drop (pending : Pending states ends x seen (i :: stack) reads)
    (known : seen.getD i true = true) :
    Pending states ends x seen stack reads ∧
      (remaining ends x (i :: stack) reads).head? = (remaining ends x stack reads).head? := by
  have yields := pending.waits i List.mem_cons_self
  have before : ends i x ≠ [] → remaining ends x [] reads ≠ [] := by
    obtain ⟨front, start, reached, back⟩ := pending.entered i
      (marked_of_known known (pending.size ▸ yields.inside))
    cases front with
    | nil => exact back
    | cons k front =>
      obtain ⟨rfl, -⟩ := List.cons_prefix_cons.1 start
      exact absurd (reached _ List.mem_cons_self) yields.acyclic
  refine ⟨{ pending with
    waits := fun k member => pending.waits k (List.mem_cons_of_mem i member)
    entered := fun k marked => ?_ }, head?_remaining_cons before⟩
  obtain ⟨front, start, reached, back⟩ := pending.entered k marked
  cases front with
  | nil => exact ⟨[], List.nil_prefix, List.forall_mem_nil _, back⟩
  | cons first front =>
    obtain ⟨rfl, begins⟩ := List.cons_prefix_cons.1 start
    refine ⟨front, begins, (List.forall_mem_cons.1 reached).2, fun leads => ?_⟩
    rw [ne_eq, ← List.head?_eq_none_iff, ← head?_remaining_cons before, List.head?_eq_none_iff]
    exact back leads

/-- A new state is marked, and the states after it wait in its place. -/
theorem mark (tells : Tells states ends) (pending : Pending states ends x seen (i :: stack) reads)
    (inside : i < seen.size) (goesOn : states[i]? ≠ some .accept) :
    Pending states ends x (seen.setIfInBounds i true)
      (onward states (Assertion.holds x.before x.rest.head?) i ++ stack)
      (readsAt states i ++ reads) := by
  have yields := pending.waits i List.mem_cons_self
  obtain ⟨same, settled, after⟩ := yields.goesOn tells goesOn
  refine ⟨?_, fun k member => ?_, fun way member => ?_, fun k marked => ?_⟩
  · rw [Array.size_setIfInBounds, pending.size]
  · rcases List.mem_append.1 member with new | old
    · exact after k new
    · exact pending.waits k (List.mem_cons_of_mem i old)
  · exact (List.mem_append.1 member).elim (settled way) (pending.ways way)
  · rcases (marked_iff inside k).1 marked with rfl | marked
    · refine ⟨_, List.prefix_append _ stack, fun j step => .single step, fun leads => ?_⟩
      rw [← List.append_nil (onward _ _ _), remaining_onward tells yields goesOn, remaining,
        List.flatMap_singleton]
      exact List.append_ne_nil_of_right_ne_nil _ leads
    · obtain ⟨front, start, reached, back⟩ := pending.entered k marked
      cases front with
      | nil =>
        refine ⟨[], List.nil_prefix, List.forall_mem_nil _, fun leads => ?_⟩
        have found := back leads
        rw [remaining, List.flatMap_nil, List.append_nil] at found ⊢
        rw [List.reverse_append, List.flatMap_append]
        exact List.append_ne_nil_of_left_ne_nil found _
      | cons first front =>
        obtain ⟨rfl, begins⟩ := List.cons_prefix_cons.1 start
        obtain ⟨here, later⟩ := List.forall_mem_cons.1 reached
        refine ⟨_, (List.prefix_append_right_inj _).2 begins, fun j member => ?_, fun leads => ?_⟩
        · rcases List.mem_append.1 member with step | member
          · exact here.tail step
          · exact later j member
        · rw [remaining_onward tells yields goesOn]
          exact back leads

/-- What is found begins with the first end of the stack. -/
theorem follow (tells : Tells states ends) (fuel : Nat) {seen : Array Bool} {stack : List Nat}
    {reads : List (CharSet × Nat)} (pending : Pending states ends x seen stack reads)
    (enough : stack.length + 2 * seen.count false ≤ fuel) :
    let ways := follow states (Assertion.holds x.before x.rest.head?) fuel stack seen reads
    (∀ way ∈ ways.reads, ∀ y ∈ Ranking.char way.1 x, Yields states way.2 y (ends way.2 y)) ∧
    (ways.reads.flatMap (landing ends x) ++ if ways.accepts then [x] else []).head? =
      (remaining ends x stack reads).head? := by
  have found (reads : List (CharSet × Nat)) (pending : ∀ way ∈ reads, ∀ y ∈ Ranking.char way.1 x,
      Yields states way.2 y (ends way.2 y)) : ∀ way ∈ reads.reverse, ∀ y ∈ Ranking.char way.1 x,
      Yields states way.2 y (ends way.2 y) := fun way member =>
    pending way (List.mem_reverse.1 member)
  induction fuel generalizing stack seen reads with
  | zero =>
    obtain rfl : stack = [] := List.eq_nil_of_length_eq_zero (by omega)
    exact ⟨found reads pending.ways, rfl⟩
  | succ fuel ih =>
    cases stack with
    | nil => exact ⟨found reads pending.ways, rfl⟩
    | cons i stack =>
      rw [List.length_cons] at enough
      rw [follow_cons]
      by_cases known : seen.getD i true = true
      · rw [if_pos known]
        obtain ⟨dropped, same⟩ := pending.drop known
        rw [same]
        exact ih dropped (by omega)
      · rw [if_neg known]
        have yields := pending.waits i List.mem_cons_self
        by_cases accepts : states[i]? = some State.accept
        · rw [if_pos accepts]
          have here := tells i x _ (.accept accepts)
          refine ⟨found reads pending.ways, ?_⟩
          rw [remaining, List.flatMap_cons, here]
          simp
        · rw [if_neg accepts]
          have inside := lt_size_of_new known
          have fewer := count_mark inside known
          have short := length_onward_le states (Assertion.holds x.before x.rest.head?) i
          rw [← remaining_onward tells yields accepts]
          exact ih (pending.mark tells inside accepts) (by rw [List.length_append]; omega)

end Pending

/-- The first end of some states is the first after a way to read on, or it is here. -/
theorem ways_first {m : Automaton} (tells : Tells m.states ends) {starts : List Nat}
    (each : ∀ i ∈ starts, Yields m.states i x (ends i x)) :
    let ways := m.ways x.before x.rest.head? starts
    (∀ way ∈ ways.reads, ∀ y ∈ Ranking.char way.1 x, Yields m.states way.2 y (ends way.2 y)) ∧
    (ways.reads.flatMap (landing ends x) ++ if ways.accepts then [x] else []).head? =
      (starts.flatMap (ends · x)).head? := by
  have pending : Pending m.states ends x (.replicate m.states.size false) starts [] := by
    refine ⟨Array.size_replicate, each, List.forall_mem_nil _, fun i marked => ?_⟩
    rw [Array.getElem?_replicate] at marked
    split at marked <;> cases marked
  refine pending.follow tells _ ?_
  rw [Array.count_replicate_self]
  exact Nat.le_succ _

/-- After a character, ways to read on end where the states they go on to do. -/
theorem flatMap_landing (reads : List (CharSet × Nat)) (b : Option Char) (c : Char)
    (rest : List Char) :
    reads.flatMap (landing ends ⟨b, c :: rest⟩) =
      (after reads c).flatMap (ends · ⟨some c, rest⟩) := by
  induction reads with
  | nil => rfl
  | cons way reads ih =>
    obtain ⟨s, j⟩ := way
    rw [List.flatMap_cons, ih, after_cons, landing, Ranking.mul_apply, Ranking.char_cons]
    split
    · rw [List.flatMap_singleton, List.flatMap_cons]
    · rw [List.flatMap_nil, List.nil_append]

theorem flatMap_landing_nil (reads : List (CharSet × Nat)) (b : Option Char) :
    reads.flatMap (landing ends ⟨b, []⟩) = [] :=
  List.flatMap_eq_nil_iff.2 fun _ _ => rfl

/-- A run finds the first end of its states. -/
theorem run_eq_first {m : Automaton} (tells : Tells m.states ends) {text : List Char}
    {starts : List Nat} {before : Option Char} {used : Nat} {best : Option Nat}
    (each : ∀ i ∈ starts, Yields m.states i ⟨before, text⟩ (ends i ⟨before, text⟩)) :
    m.run starts before used best text =
      ((starts.flatMap (ends · ⟨before, text⟩)).head?.map fun y =>
        used + (text.length - y.rest.length)).or best := by
  induction text generalizing starts before used best with
  | nil =>
    obtain ⟨-, first⟩ := ways_first tells each
    rw [← first, flatMap_landing_nil, run, List.nil_append]
    cases accepts : (m.ways before none starts).accepts <;> simp [accepts]
  | cons c rest ih =>
    obtain ⟨found, first⟩ := ways_first tells each
    have settled : ∀ j ∈ after (m.ways before (some c) starts).reads c,
        Yields m.states j ⟨some c, rest⟩ (ends j ⟨some c, rest⟩) := by
      intro j member
      obtain ⟨s, way, inside⟩ := mem_after_iff.1 member
      refine found (s, j) way _ ?_
      rw [Ranking.char_cons, if_pos inside]
      exact List.mem_singleton_self _
    have later (best : Option Nat) : (if after (m.ways before (some c) starts).reads c = [] then best
        else m.run (after (m.ways before (some c) starts).reads c) (some c) (used + 1) best rest) =
          (((after (m.ways before (some c) starts).reads c).flatMap
            (ends · ⟨some c, rest⟩)).head?.map fun y =>
              used + ((c :: rest).length - y.rest.length)).or best := by
      split
      · next nowhere => rw [nowhere]; rfl
      · rw [ih settled]
        refine congrArg (Option.or · best) (Option.map_congr fun y member => ?_)
        obtain ⟨j, listed, member⟩ := List.mem_flatMap.1 (List.mem_of_head? member)
        have shorter : y.rest.length ≤ rest.length := (settled j listed).length_le y member
        rw [List.length_cons]
        omega
    have here : (if (m.ways before (some c) starts).accepts then some used else best) =
        (((if (m.ways before (some c) starts).accepts then [Spot.mk before (c :: rest)]
          else []).head?.map fun y => used + ((c :: rest).length - y.rest.length)).or best) := by
      split <;> simp
    rw [← first, flatMap_landing, run_cons, List.head?_append, Option.map_or, Option.or_assoc]
    dsimp only [List.head?_cons]
    rw [later, here]
    rfl

/-- What a run of the automaton of a steady pattern measures is the place the pattern prefers. -/
theorem run_ofPattern {p : Pattern} (steady : p.steady = true) (before : Option Char)
    (text : List Char) : (ofPattern p).run [(ofPattern p).start] before 0 none text =
      (p.ranking ⟨before, text⟩).head?.map fun y => text.length - y.rest.length := by
  obtain ⟨ends, tells⟩ := exists_tells (ofPattern p).states
  have yields := yields_ofPattern steady ⟨before, text⟩
  have same := tells _ _ _ yields
  rw [run_eq_first tells (List.forall_mem_singleton.2 (same ▸ yields)), List.flatMap_singleton, same,
    Option.or_none]
  simp only [Nat.zero_add]

end Automaton

end AttrGrammar
