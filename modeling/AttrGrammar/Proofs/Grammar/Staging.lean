import AttrGrammar.Grammar.Follow
import Mathlib.Data.Fintype.Pigeonhole
import Mathlib.Data.List.Perm.Basic
import Mathlib.Data.Set.Finite.List
import Mathlib.Logic.Function.Iterate
import Mathlib.Logic.Relation

/-!
Staging: the order in which sets that flow into each other are finished.

In each round the names that wait for no pending name make a stage. The rounds end when no pending
name is ready. Each of the names that are left then waits for another one of them, and as they are
finitely many, every way through them runs into a circle. From what is finished no way does. The main
statement says how the stages and the names that are left divide the names of a table.
-/

namespace AttrGrammar

section

variable {α : Type} {r : α → α → Prop} {a : α}

/-- A circle can be reached. -/
def LeadsToCircle (r : α → α → Prop) (a : α) : Prop :=
  ∃ c, Relation.ReflTransGen r a c ∧ Relation.TransGen r c c

/-- The first step goes on towards the circle, or round it. -/
theorem leadsToCircle_iff : LeadsToCircle r a ↔ ∃ b, r a b ∧ LeadsToCircle r b := by
  constructor
  · rintro ⟨c, way, round⟩
    rcases way.cases_head with rfl | ⟨b, step, rest⟩
    · obtain ⟨b, step, rest⟩ := Relation.TransGen.head'_iff.1 round
      exact ⟨b, step, a, rest, round⟩
    · exact ⟨b, step, c, rest, round⟩
  · rintro ⟨b, step, c, rest, round⟩
    exact ⟨c, .head step rest, round⟩

/-- Where each member of a list has a step to a member, all of them lead to circles: a way that is
gone on long enough comes to the same member twice. -/
theorem leadsToCircle_of_list {xs : List α} (goes : ∀ a ∈ xs, ∃ b ∈ xs, r a b) :
    ∀ a ∈ xs, LeadsToCircle r a := by
  intro a member
  have goes : ∀ x : {x // x ∈ xs}, ∃ y : {x // x ∈ xs}, r x y := by
    rintro ⟨x, inside⟩
    obtain ⟨y, listed, step⟩ := goes x inside
    exact ⟨⟨y, listed⟩, step⟩
  choose onward step using goes
  have way : ∀ n x, Relation.ReflTransGen r x.1 (onward^[n] x).1 := by
    intro n
    induction n with
    | zero => exact fun x => .refl
    | succ n ih => exact fun x => .head (step x) (ih (onward x))
  have finite : Finite {x // x ∈ xs} := xs.finite_toSet.to_subtype
  have twice : ∃ m k, onward^[m] ⟨a, member⟩ = onward^[k] (onward (onward^[m] ⟨a, member⟩)) := by
    obtain ⟨m, n, other, same⟩ :=
      Finite.exists_ne_map_eq_of_infinite fun n => onward^[n] ⟨a, member⟩
    wlog less : m < n generalizing m n
    · exact this n m other.symm same.symm (by omega)
    obtain ⟨k, rfl⟩ := Nat.exists_eq_add_of_lt less
    refine ⟨m, k, same.trans ?_⟩
    rw [Nat.add_assoc, Nat.add_comm, Function.iterate_add_apply, Function.iterate_succ_apply]
  obtain ⟨m, k, same⟩ := twice
  have round := way k (onward (onward^[m] ⟨a, member⟩))
  rw [← same] at round
  exact ⟨_, way m ⟨a, member⟩, .head' (step _) round⟩

end

namespace Follow

/-- The rules whose sets flow into that of a name. -/
def sourcesOf (sources : Sources) (name : String) : List String := (sources.find? name).getD []

/-- The set of one name waits for that of another. -/
def WaitsFor (sources : Sources) (name source : String) : Prop := source ∈ sourcesOf sources name

section

variable {sources : Sources} {pending left : List String} {stages : List (List String)}
  {name s : String}

theorem mem_names_of_source (source : s ∈ sourcesOf sources name) : name ∈ sources.names := by
  rw [← Table.isSome_find?_iff]
  unfold sourcesOf at source
  cases found : sources.find? name with
  | some _ => rfl
  | none =>
    rw [found] at source
    cases source

/-- Whether a name waits for no pending one. -/
def isReady (sources : Sources) (pending : List String) (name : String) : Bool :=
  (sourcesOf sources name).all fun s => !pending.contains s

theorem isReady_iff :
    isReady sources pending name = true ↔ ∀ s ∈ sourcesOf sources name, s ∉ pending := by
  simp [isReady]

/-- Rounds that come to an end, with the stages that they take and the names that they leave. -/
inductive Rounds (sources : Sources) : List String → List (List String) → List String → Prop
  /-- Nothing is pending any more, or none of it is ready. -/
  | ended {pending : List String} (stuck : ∀ name ∈ pending, ¬ isReady sources pending name = true) :
      Rounds sources pending [] pending
  /-- What is ready makes a stage. -/
  | stage {pending left : List String} {stages : List (List String)}
      (ready : ∃ name ∈ pending, isReady sources pending name = true)
      (later : Rounds sources (pending.filter fun name => !isReady sources pending name) stages left) :
      Rounds sources pending (pending.filter (isReady sources pending) :: stages) left

/-- Where no name is ready, rounds end with what is pending. -/
theorem stagesFrom_of_stuck (stuck : ∀ name ∈ pending, ¬ isReady sources pending name = true)
    (fuel : Nat) : stagesFrom sources fuel pending = ([], pending) := by
  cases fuel with
  | zero => rfl
  | succ fuel =>
    rw [stagesFrom]
    split
    · next empty => rw [List.isEmpty_iff.1 empty]
    · have nothing : pending.filter (isReady sources pending) = [] := List.filter_eq_nil_iff.2 stuck
      dsimp only
      split
      · rfl
      · next stage taken => exact absurd nothing taken

/-- Otherwise a round takes what is ready, and what is not stays pending. -/
theorem stagesFrom_of_ready (ready : ∃ name ∈ pending, isReady sources pending name = true)
    (fuel : Nat) :
    stagesFrom sources (fuel + 1) pending =
      let later := stagesFrom sources fuel (pending.filter fun name => !isReady sources pending name)
      (pending.filter (isReady sources pending) :: later.1, later.2) := by
  obtain ⟨name, listed, ready⟩ := ready
  rw [stagesFrom]
  split
  · next empty =>
    rw [List.isEmpty_iff.1 empty] at listed
    cases listed
  · dsimp only
    split
    · next nothing => exact absurd ready (List.filter_eq_nil_iff.1 nothing name listed)
    · rfl

/-- Each round takes a name at least, so there are no more rounds than names. -/
theorem stagesFrom_rounds {fuel : Nat} (enough : pending.length ≤ fuel) :
    Rounds sources pending (stagesFrom sources fuel pending).1
      (stagesFrom sources fuel pending).2 := by
  induction fuel generalizing pending with
  | zero =>
    obtain rfl := List.eq_nil_of_length_eq_zero (Nat.le_zero.1 enough)
    exact .ended nofun
  | succ fuel ih =>
    by_cases next : ∃ name ∈ pending, isReady sources pending name = true
    · have fewer : (pending.filter fun name => !isReady sources pending name).length <
          pending.length := by
        obtain ⟨name, listed, ready⟩ := next
        exact List.length_filter_lt_length_iff_exists.2 ⟨name, listed, by simp [ready]⟩
      rw [stagesFrom_of_ready next]
      exact .stage next (ih (by omega))
    · rw [stagesFrom_of_stuck fun name listed ready => next ⟨name, listed, ready⟩]
      exact .ended fun name listed ready => next ⟨name, listed, ready⟩

/-- The stages of a table are those of rounds that come to an end. -/
theorem stages_rounds (sources : Sources) :
    Rounds sources sources.names (Follow.stages sources).1 (Follow.stages sources).2 :=
  stagesFrom_rounds (Nat.le_of_eq (List.length_map _))

namespace Rounds

/-- Nothing that was pending is lost, and nothing is taken twice. -/
theorem perm (rounds : Rounds sources pending stages left) :
    (stages.flatten ++ left).Perm pending := by
  induction rounds with
  | ended => exact .refl _
  | @stage pending left stages _ _ ih =>
    rw [List.flatten_cons, List.append_assoc]
    exact (ih.append_left _).trans (List.filter_append_perm _ pending)

/-- What a name of a stage waits for was not pending, or stands in a stage before. -/
theorem earlier (rounds : Rounds sources pending stages left) {before after : List (List String)}
    {stage : List String} (taken : stages = before ++ stage :: after) :
    ∀ name ∈ stage, ∀ s ∈ sourcesOf sources name, s ∉ pending ∨ s ∈ before.flatten := by
  induction rounds generalizing before with
  | ended => cases List.append_ne_nil_of_right_ne_nil before (List.cons_ne_nil stage after) taken.symm
  | @stage pending left stages _ _ ih =>
    intro name listed s source
    cases before with
    | nil =>
      cases taken
      have ready := (List.mem_filter.1 listed).2
      exact .inl (isReady_iff.1 ready s source)
    | cons first before =>
      cases taken
      rw [List.flatten_cons, List.mem_append]
      by_cases waits : s ∈ pending
      · by_cases ready : isReady sources pending s = true
        · exact .inr (.inl (List.mem_filter.2 ⟨waits, ready⟩))
        · refine .inr (.inr ((ih rfl name listed s source).resolve_left fun away => away ?_))
          exact List.mem_filter.2 ⟨waits, by simpa using ready⟩
      · exact .inl waits

/-- The names that are left are those that lead to circles, if all of these are pending at first. -/
theorem mem_left_iff (rounds : Rounds sources pending stages left)
    (inside : ∀ name, LeadsToCircle (WaitsFor sources) name → name ∈ pending) (name : String) :
    name ∈ left ↔ LeadsToCircle (WaitsFor sources) name := by
  induction rounds with
  | @ended pending unready =>
    refine ⟨leadsToCircle_of_list (fun name listed => ?_) name, inside name⟩
    have waits := mt isReady_iff.2 (unready name listed)
    push Not at waits
    obtain ⟨s, source, waiting⟩ := waits
    exact ⟨s, waiting, source⟩
  | @stage pending left stages _ _ ih =>
    -- A name that is ready waits for none that is pending, so for none that leads to a circle.
    refine ih fun name circle => List.mem_filter.2 ⟨inside name circle, ?_⟩
    rw [Bool.not_eq_true', Bool.eq_false_iff]
    intro ready
    obtain ⟨s, source, further⟩ := leadsToCircle_iff.1 circle
    exact isReady_iff.1 ready s source (inside s further)

end Rounds

/-- Stages, and the names that are left over, as a division of the names of a table. -/
structure Divides (sources : Sources) (stages : List (List String)) (left : List String) : Prop where
  /-- The rounds come to an end with them. -/
  rounds : Rounds sources sources.names stages left
  /-- Every name stands in one place. -/
  once : (stages.flatten ++ left).Nodup ∧ ∀ name, name ∈ stages.flatten ++ left ↔ name ∈ sources.names
  /-- What a name of a stage waits for is no name of the table, or stands in a stage before. -/
  earlier : ∀ before stage after, stages = before ++ stage :: after →
    ∀ name ∈ stage, ∀ s, WaitsFor sources name s → s ∉ sources.names ∨ s ∈ before.flatten
  /-- The names that are left over are those from which a circle can be reached. -/
  circles : ∀ name, name ∈ left ↔ LeadsToCircle (WaitsFor sources) name

/-- Staging comes to an end for all tables. It puts every name into a stage after those that the name
waits for, or leaves it because it leads to a circle. -/
theorem divides_stages (sources : Sources) :
    Divides sources (Follow.stages sources).1 (Follow.stages sources).2 := by
  have rounds := stages_rounds sources
  have inside : ∀ name, LeadsToCircle (WaitsFor sources) name → name ∈ sources.names := by
    intro name circle
    obtain ⟨s, source, -⟩ := leadsToCircle_iff.1 circle
    exact mem_names_of_source source
  exact {
    rounds
    once := ⟨rounds.perm.nodup_iff.2 sources.distinct, fun name => rounds.perm.mem_iff⟩
    earlier := fun _ _ _ taken => rounds.earlier taken
    circles := rounds.mem_left_iff inside }

/-- A name that leads to a circle is left over with it. -/
example : Follow.stages ⟨[("a", ["b"]), ("b", ["a"]), ("c", ["x"]), ("d", ["c"]), ("e", ["a", "d"])],
    by decide⟩ = ([["c"], ["d"]], ["a", "b", "e"]) := by decide

end

end Follow

end AttrGrammar
