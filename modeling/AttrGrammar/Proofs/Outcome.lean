/-! Computations that give a value or an error, one after the other. -/

namespace AttrGrammar

variable {ε α β : Type}

/-- A computation that succeeds after a first step went through that step. -/
theorem except_bind_eq_ok {x : Except ε α} {f : α → Except ε β} {b : β} :
    x >>= f = .ok b ↔ ∃ a, x = .ok a ∧ f a = .ok b := by
  cases x with
  | ok a =>
    constructor
    · intro done
      exact ⟨a, rfl, done⟩
    · rintro ⟨a', same, done⟩
      cases same
      exact done
  | error e =>
    constructor
    · intro done
      cases done
    · rintro ⟨a, same, _⟩
      cases same

/-- A computation that fails does so in its first step or after it. -/
theorem except_bind_eq_error {x : Except ε α} {f : α → Except ε β} {e : ε} :
    x >>= f = .error e ↔ x = .error e ∨ ∃ a, x = .ok a ∧ f a = .error e := by
  cases x with
  | ok a =>
    constructor
    · intro failed
      exact Or.inr ⟨a, rfl, failed⟩
    · rintro (failed | ⟨a', same, failed⟩)
      · cases failed
      · cases same
        exact failed
  | error e' =>
    constructor
    · intro failed
      cases failed
      exact Or.inl rfl
    · rintro (failed | ⟨a, same, _⟩)
      · cases failed
        rfl
      · cases same

theorem except_ok_bind (a : α) (f : α → Except ε β) : (.ok a : Except ε α) >>= f = f a := rfl

theorem except_bind_ok (x : Except ε α) : (x >>= fun a => .ok a) = x := bind_pure x

theorem except_map_eq_bind (x : Except ε α) (f : α → β) : x.map f = x >>= fun a => .ok (f a) := by
  cases x <;> rfl

/-- Naming errors anew does not make a computation succeed. -/
theorem ok_of_mapError {ε' : Type} {x : Except ε α} {f : ε → ε'} {a : α}
    (done : x.mapError f = .ok a) : x = .ok a := by
  cases x with
  | ok found =>
    cases done
    rfl
  | error e => cases done

/-- A computation whose value passes a test. -/
theorem exists_ok_of_any {x : Except ε α} {test : α → Bool} (passed : x.toOption.any test = true) :
    ∃ a, x = .ok a ∧ test a = true := by
  cases x with
  | error e => cases passed
  | ok a => exact ⟨a, rfl, passed⟩

/-- Where all computations of a list succeed, each value comes from one of them. -/
theorem mapM_eq_ok {f : α → Except ε β} {xs : List α} {ys : List β}
    (mapped : xs.mapM f = .ok ys) : ys.length = xs.length ∧ ∀ y ∈ ys, ∃ x ∈ xs, f x = .ok y := by
  induction xs generalizing ys with
  | nil =>
    cases mapped
    exact ⟨rfl, fun _ member => (List.not_mem_nil member).elim⟩
  | cons x xs ih =>
    rw [List.mapM_cons] at mapped
    obtain ⟨y, first, mapped⟩ := except_bind_eq_ok.1 mapped
    obtain ⟨others, later, mapped⟩ := except_bind_eq_ok.1 mapped
    cases mapped
    obtain ⟨size, each⟩ := ih later
    refine ⟨congrArg (· + 1) size, fun z member => ?_⟩
    rcases List.mem_cons.1 member with rfl | among
    · exact ⟨x, List.mem_cons_self, first⟩
    · obtain ⟨x', listed, found⟩ := each z among
      exact ⟨x', List.mem_cons_of_mem _ listed, found⟩

/-- Where all computations of a list succeed, each of them gives one of the values. -/
theorem exists_of_mapM_eq_ok {f : α → Except ε β} {xs : List α} {ys : List β}
    (mapped : xs.mapM f = .ok ys) {x : α} (member : x ∈ xs) : ∃ y ∈ ys, f x = .ok y := by
  induction xs generalizing ys with
  | nil => cases member
  | cons x' xs ih =>
    rw [List.mapM_cons] at mapped
    obtain ⟨y, first, mapped⟩ := except_bind_eq_ok.1 mapped
    obtain ⟨others, later, mapped⟩ := except_bind_eq_ok.1 mapped
    cases mapped
    rcases List.mem_cons.1 member with rfl | among
    · exact ⟨y, List.mem_cons_self, first⟩
    · obtain ⟨z, listed, found⟩ := ih later among
      exact ⟨z, List.mem_cons_of_mem y listed, found⟩

end AttrGrammar
