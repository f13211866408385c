import AttrGrammar.Folding

/-!
How a fold goes through tokens.

A concatenation looks for the next stretch that is named after its terms, an alternation reads a run
to its end. Where neither makes a fold, there is no stretch and no run left.
-/

namespace AttrGrammar.Fold

variable {combine : Combiner} {name : String} {terms : List String} {belongs : Token → Bool}

theorem beginsWith_iff {tokens : List Token} :
    beginsWith terms tokens = true ↔ ∃ part rest, tokens = part ++ rest ∧ part.map (·.name) = terms := by
  induction terms generalizing tokens with
  | nil =>
    constructor
    · intro _
      exact ⟨[], tokens, rfl, rfl⟩
    · intro _
      cases tokens <;> rfl
  | cons term terms ih =>
    cases tokens with
    | nil =>
      constructor
      · intro begins
        cases begins
      · rintro ⟨part, rest, same, names⟩
        cases part with
        | nil => cases names
        | cons t part => cases same
    | cons token tokens =>
      rw [beginsWith, Bool.and_eq_true, beq_iff_eq, ih]
      constructor
      · rintro ⟨rfl, part, rest, rfl, rfl⟩
        exact ⟨token :: part, rest, rfl, rfl⟩
      · rintro ⟨part, rest, same, names⟩
        cases part with
        | nil => cases names
        | cons t part =>
          cases same
          cases names
          exact ⟨rfl, part, rest, rfl, rfl⟩

/-- The first token begins a stretch to fold, or stays. -/
theorem foldStretches_cases (visible : terms ≠ []) (token : Token) (rest : List Token) :
    (∃ part others, token :: rest = part ++ others ∧ part.map (·.name) = terms ∧
        foldStretches combine name terms (token :: rest) =
          (combine name part :: (foldStretches combine name terms others).1,
            (foldStretches combine name terms others).2 + 1)) ∨
      beginsWith terms (token :: rest) = false ∧
        foldStretches combine name terms (token :: rest) =
          (token :: (foldStretches combine name terms rest).1,
            (foldStretches combine name terms rest).2) := by
  cases begins : beginsWith terms (token :: rest) with
  | false =>
    refine Or.inr ⟨rfl, ?_⟩
    rw [foldStretches, begins]
    rfl
  | true =>
    obtain ⟨part, others, same, names⟩ := beginsWith_iff.1 begins
    refine Or.inl ⟨part, others, same, names, ?_⟩
    have size : part.length = terms.length := by
      rw [← names, List.length_map]
    cases part with
    | nil => exact absurd names.symm visible
    | cons first part =>
      obtain ⟨rfl, rfl⟩ := List.cons.inj same
      have last : terms.length - 1 = part.length := by
        rw [← size, List.length_cons, Nat.add_sub_cancel]
      rw [foldStretches, if_pos begins, last, List.append_eq, List.take_left, List.drop_left]

/-- What follows a stretch is shorter. -/
theorem length_lt_of_names (visible : terms ≠ []) {part others tokens : List Token}
    (same : tokens = part ++ others) (names : part.map (·.name) = terms) :
    others.length < tokens.length := by
  have positive : 0 < part.length := by
    rw [← List.length_map (f := (·.name)), names]
    exact List.length_pos_iff.2 visible
  rw [same, List.length_append]
  omega

/-- A stretch at the start is folded. -/
theorem foldStretches_part (visible : terms ≠ []) {part : List Token} (names : part.map (·.name) = terms)
    (rest : List Token) : (foldStretches combine name terms (part ++ rest)).1 =
      combine name part :: (foldStretches combine name terms rest).1 := by
  cases part with
  | nil => exact absurd names.symm visible
  | cons token part =>
    rcases @foldStretches_cases combine name terms visible token (part ++ rest) with
      ⟨part', others, same, names', folded⟩ | ⟨noStart, _⟩
    · have size : (token :: part).length = part'.length := by
        rw [← List.length_map (f := (·.name)), names, ← names', List.length_map]
      have same : (token :: part) ++ rest = part' ++ others := same
      obtain ⟨rfl, rfl⟩ := List.append_inj same size
      rw [List.cons_append, folded]
    · have begins : beginsWith terms (token :: (part ++ rest)) = true :=
        beginsWith_iff.2 ⟨token :: part, rest, rfl, names⟩
      rw [noStart] at begins
      cases begins

/-- A token that begins no stretch stays. -/
theorem foldStretches_other {token : Token} {rest : List Token}
    (other : beginsWith terms (token :: rest) = false) :
    (foldStretches combine name terms (token :: rest)).1 =
      token :: (foldStretches combine name terms rest).1 := by
  rw [foldStretches, other]
  rfl

/-- Where no stretch is folded, there is none. -/
theorem foldStretches_stuck (visible : terms ≠ []) : ∀ {tokens : List Token},
    (foldStretches combine name terms tokens).2 = 0 →
      (foldStretches combine name terms tokens).1 = tokens ∧
        ∀ xs part ys, tokens = xs ++ (part ++ ys) → part.map (·.name) ≠ terms
  | [], _ => by
    refine ⟨by rw [foldStretches], fun xs part ys same names => ?_⟩
    have empty : part = [] := by
      cases xs <;> cases part <;> first | rfl | cases same
    rw [empty] at names
    exact visible names.symm
  | token :: rest, stuck => by
    rcases @foldStretches_cases combine name terms visible token rest with
      ⟨part, others, same, names, folded⟩ | ⟨noStart, folded⟩
    · rw [folded] at stuck
      cases stuck
    · rw [folded] at stuck ⊢
      obtain ⟨unchanged, absent⟩ := foldStretches_stuck visible stuck
      refine ⟨congrArg (token :: ·) unchanged, fun xs part ys same names => ?_⟩
      cases xs with
      | nil =>
        have begins : beginsWith terms (token :: rest) = true :=
          beginsWith_iff.2 ⟨part, ys, same, names⟩
        rw [noStart] at begins
        cases begins
      | cons x xs =>
        obtain ⟨_, same⟩ := List.cons.inj same
        exact absent xs part ys same names

/-- A run that ends at a token becomes one token. -/
theorem foldRuns_part {token : Token} {rest part run : List Token} (other : belongs token = false)
    (inside : ∀ t ∈ part, belongs t = true) :
    (foldRuns combine name belongs run (part ++ token :: rest)).1 =
      (closeRun combine name (run ++ part)).1 ++
        token :: (foldRuns combine name belongs [] rest).1 := by
  induction part generalizing run with
  | nil => rw [List.nil_append, foldRuns, if_neg (by simp [other]), List.append_nil]
  | cons t part ih =>
    have later := @ih (run ++ [t]) fun u member => inside u (List.mem_cons_of_mem t member)
    rw [List.append_assoc, List.singleton_append] at later
    rw [List.cons_append, foldRuns, if_pos (inside t List.mem_cons_self), later]

/-- Every run is one token that has its name already. -/
def Loose (name : String) (belongs : Token → Bool) : List Token → Prop
  | [] => True
  | t :: rest =>
    (belongs t = true → t.name = name ∧ ∀ u, rest.head? = some u → belongs u = false) ∧
      Loose name belongs rest

theorem closeRun_stuck {run : List Token} (stuck : (closeRun combine name run).2 = 0) :
    (closeRun combine name run).1 = run ∧ (run = [] ∨ ∃ only, run = [only] ∧ only.name = name) := by
  unfold closeRun at *
  split at stuck
  · exact ⟨rfl, Or.inl rfl⟩
  · next only =>
    split at stuck
    · next named =>
      refine ⟨?_, Or.inr ⟨only, rfl, named⟩⟩
      simp [named]
    · cases stuck
  · cases stuck

/-- Where no run is folded, there is none to fold. -/
theorem foldRuns_stuck : ∀ {tokens run : List Token}, (∀ t ∈ run, belongs t = true) →
    (foldRuns combine name belongs run tokens).2 = 0 →
      (foldRuns combine name belongs run tokens).1 = run ++ tokens ∧
        Loose name belongs (run ++ tokens)
  | [], run, _, stuck => by
    obtain ⟨unchanged, shape⟩ := closeRun_stuck stuck
    rw [List.append_nil]
    refine ⟨unchanged, ?_⟩
    rcases shape with rfl | ⟨only, rfl, named⟩
    · trivial
    · exact ⟨fun _ => ⟨named, by simp⟩, trivial⟩
  | token :: rest, run, inside, stuck => by
    by_cases member : belongs token = true
    · rw [foldRuns, if_pos member] at stuck ⊢
      have extended : ∀ t ∈ run ++ [token], belongs t = true := by
        intro t found
        rcases List.mem_append.1 found with found | found
        · exact inside t found
        · rw [List.mem_singleton.1 found]
          exact member
      have all := foldRuns_stuck extended stuck
      rw [List.append_assoc] at all
      exact all
    · rw [foldRuns, if_neg member] at stuck ⊢
      have both : (closeRun combine name run).2 = 0 ∧
          (foldRuns combine name belongs [] rest).2 = 0 := by
        change (closeRun combine name run).2 + (foldRuns combine name belongs [] rest).2 = 0 at stuck
        omega
      obtain ⟨unchanged, shape⟩ := closeRun_stuck both.1
      obtain ⟨same, loose⟩ := foldRuns_stuck (List.forall_mem_nil _) both.2
      have after : Loose name belongs (token :: rest) := ⟨fun found => absurd found member, loose⟩
      refine ⟨?_, ?_⟩
      · show (closeRun combine name run).1 ++ token :: (foldRuns combine name belongs [] rest).1 = _
        rw [unchanged, same]
        rfl
      · rcases shape with rfl | ⟨only, rfl, named⟩
        · exact after
        · refine ⟨fun _ => ⟨named, fun u head => ?_⟩, after⟩
          cases head
          simpa using member

end AttrGrammar.Fold
