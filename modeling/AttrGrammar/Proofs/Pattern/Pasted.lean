import AttrGrammar.Proofs.Pattern.Enclosed

/-!
Patterns pasted into other patterns.

A text that reads as a pattern is an atom once it stands in a group, whatever comes after the group:
its flags end with the group. So texts of groups in a row, between bars or before an operator read as
a sequence, a choice or a repetition of what stands in the groups.
-/

namespace AttrGrammar

namespace Pattern.Syntax

/-- Whether a text is a pattern with these branches that does not end in a comment. -/
structure IsPattern (text : List Char) (inner : List (Piece Pattern)) : Prop where
  closed : (lex {} text).stop = .ok false
  ran : ∃ top, Stack.run {} (lex {} text).tokens = .ok { top } ∧ top.all = inner

theorem IsPattern.unique {text : List Char} {inner other : List (Piece Pattern)}
    (h : IsPattern text inner) (h' : IsPattern text other) : inner = other := by
  obtain ⟨top, ran, rfl⟩ := h.ran
  obtain ⟨top', ran', rfl⟩ := h'.ran
  cases ran.symm.trans ran'
  rfl

/-- Whether a text has some tokens where no flag is set, and sets none for what comes behind it. -/
def Lexes (text : List Char) (ts : List Token) : Prop :=
  ∀ sc : Scope, sc.Like {} → ∀ more, ∃ sc' : Scope, sc'.Like {} ∧
    lex sc (text ++ more) = (lex sc' more).prepend ts

namespace Lexes

variable {text other : List Char} {ts us : List Token}

theorem nil : Lexes [] [] := fun sc like _ => ⟨sc, like, rfl⟩

theorem append (first : Lexes text ts) (second : Lexes other us) :
    Lexes (text ++ other) (ts ++ us) := by
  intro sc like more
  obtain ⟨sc', like', read⟩ := first sc like (other ++ more)
  obtain ⟨sc'', like'', read'⟩ := second sc' like' more
  refine ⟨sc'', like'', ?_⟩
  rw [List.append_assoc, read, read']
  simp only [Lexed.prepend, List.append_assoc]

/-- A token that is read the same whatever comes behind it. -/
theorem of_token {c : Char} {t : Token} (read : ∀ more, tokenOf {} c (text ++ more) = .ok (t, more))
    (after : ∀ sc : Scope, sc.Like {} → (sc.after t).Like {}) : Lexes (c :: text) [t] := by
  intro sc like more
  have flags : sc.flags = {} := like.flags
  have here : skip sc.flags (c :: (text ++ more)) = c :: (text ++ more) := by
    rw [flags]
    rfl
  refine ⟨sc.after t, after sc like, ?_⟩
  rw [List.cons_append, lex_of_token here (flags ▸ read more)]
  rfl

/-- The tokens of a text alone. -/
theorem alone (lexes : Lexes text ts) : ∃ sc : Scope, lex {} text = ⟨ts, sc, .ok false⟩ := by
  obtain ⟨sc, _, read⟩ := lexes {} (.refl _) []
  rw [List.append_nil, lex_nil] at read
  refine ⟨sc, read.trans ?_⟩
  rw [Lexed.prepend, List.append_nil]

theorem isPattern (lexes : Lexes text ts) {top : Frame} (ran : Stack.run {} ts = .ok { top }) :
    IsPattern text top.all := by
  obtain ⟨sc, read⟩ := lexes.alone
  refine ⟨?_, top, ?_, rfl⟩
  · rw [read]
  · rw [read]
    exact ran

end Lexes

theorem Scope.Like.opens {sc : Scope} (like : sc.Like {}) (o : Opening) :
    (sc.after (.opens o {})).Like {} where
  flags := rfl
  saved i := by
    cases i with
    | zero => exact like.flags
    | succ i => exact like.saved i

namespace Stack

/-- The outermost group. -/
def base (s : Stack) : Frame := s.below.getLastD s.top

theorem base_captures_of_step {s s' : Stack} {t : Token} (stepped : s.step t = .ok s') :
    s'.base.captures = s.base.captures := by
  obtain ⟨top, below⟩ := s
  have replaced {new : Frame} (same : new.captures = top.captures) :
      (base { top := new, below }).captures = (base { top, below }).captures := by
    cases below with
    | nil => exact same
    | cons next below => rfl
  cases t with
  | part | flags | bar =>
    cases stepped
    exact replaced rfl
  | opens =>
    cases stepped
    cases below with
    | nil => rfl
    | cons next below => rfl
  | closes =>
    cases below with
    | nil => cases stepped
    | cons next below =>
      cases stepped
      cases below with
      | nil => rfl
      | cons f below => rfl
  | repeats low high greedy =>
    simp only [step] at stepped
    split at stepped
    · cases stepped
      exact replaced rfl
    · cases stepped

theorem captures_of_run {ts : List Token} {s s' : Stack} (ran : s.run ts = .ok s') :
    s'.base.captures = s.base.captures := by
  induction ts generalizing s with
  | nil =>
    cases ran
    rfl
  | cons t ts ih =>
    rw [run_cons] at ran
    cases stepped : s.step t with
    | error e =>
      rw [stepped] at ran
      cases ran
    | ok next =>
      rw [stepped] at ran
      exact (ih ran).trans (base_captures_of_step stepped)

end Stack

/-- A text in a group that captures nothing. -/
def inGroup (text : List Char) : List Char := '(' :: '?' :: ':' :: (text ++ [')'])

/-- Whether a text is a part of a pattern, whatever comes after it. -/
def IsAtom (text : List Char) (p : Piece Pattern) : Prop :=
  ∃ ts, Lexes text ts ∧ ∀ s : Stack, s.run ts = .ok { s with top := s.top.add (.part p) }

theorem lexes_inGroup {text : List Char} {inner : List (Piece Pattern)} (h : IsPattern text inner) :
    Lexes (inGroup text) (.opens .plain {} :: ((lex {} text).tokens ++ [.closes])) := by
  intro sc like more
  obtain ⟨top, ran, -⟩ := h.ran
  have flags : sc.flags = {} := like.flags
  have whole : inGroup text ++ more = '(' :: '?' :: ':' :: (text ++ ')' :: more) := by
    simp only [inGroup, List.cons_append, List.append_assoc, List.nil_append]
  have here : skip sc.flags (inGroup text ++ more) = '(' :: '?' :: ':' :: (text ++ ')' :: more) := by
    rw [whole, flags]
    rfl
  have opens : tokenOf sc.flags '(' ('?' :: ':' :: (text ++ ')' :: more)) =
      .ok (.opens .plain {}, text ++ ')' :: more) := by
    rw [flags]
    rfl
  obtain ⟨tokens, stop, scope⟩ := (like.opens .plain).lex text
  -- the flags of the text end with the group
  have outside : (lex {} text).scope.saved = [] := by
    have length : 0 = ((lex {} text).tokens.foldl Scope.after {}).saved.length :=
      Stack.run_length ran rfl
    rw [← scope_lex] at length
    exact List.eq_nil_of_length_eq_zero length.symm
  have behind : (lex {} text).scope.after .closes = {} := by
    rw [Scope.after, outside]
    rfl
  refine ⟨_, behind ▸ scope.after .closes, ?_⟩
  rw [lex_of_token here opens, lex_append_of_closed (stop.trans h.closed), lex_paren, tokens]
  simp only [Lexed.prepend, Lexed.cons, List.cons_append, List.append_assoc, List.nil_append]

theorem isAtom_inGroup {text : List Char} {inner : List (Piece Pattern)} (h : IsPattern text inner) :
    IsAtom (inGroup text)
      { value := .choice (inner.map (·.value)), depth := depthOf inner + 1 } := by
  refine ⟨_, lexes_inGroup h, fun s => ?_⟩
  obtain ⟨top, ran, rfl⟩ := h.ran
  have plain : top.captures = false := Stack.captures_of_run ran
  have inside : (Stack.within {} (s.top :: s.below)).run (lex {} text).tokens =
      .ok { top, below := s.top :: s.below } := by
    rcases Stack.run_within {} (s.top :: s.below) (lex {} text).tokens with unopened | same
    · cases unopened.symm.trans ran
    · rw [same, ran]
      rfl
  rw [Stack.run_cons_of_ok rfl]
  refine (Stack.run_append_of_ok inside _).trans ?_
  rw [Stack.run_cons_of_ok rfl, Stack.run_nil, Frame.closed, plain]
  rfl

/-- Atoms in a row put their parts into the group that is read. -/
theorem exists_lexes_row {atoms : List (List Char × Piece Pattern)}
    (each : ∀ a ∈ atoms, IsAtom a.1 a.2) :
    ∃ ts, Lexes (atoms.flatMap Prod.fst) ts ∧ ∀ s : Stack, s.run ts =
      .ok { s with top := { s.top with
        items := (atoms.map fun a => .part a.2).reverse ++ s.top.items } } := by
  induction atoms with
  | nil => exact ⟨[], .nil, fun _ => rfl⟩
  | cons a atoms ih =>
    obtain ⟨⟨ts, lexes, ran⟩, later⟩ := List.forall_mem_cons.1 each
    obtain ⟨us, lexes', ran'⟩ := ih later
    refine ⟨ts ++ us, lexes.append lexes', fun s => ?_⟩
    rw [Stack.run_append_of_ok (ran s), ran']
    simp only [Frame.add, List.map_cons, List.reverse_cons, List.append_assoc, List.cons_append,
      List.nil_append]

/-- Atoms in a row are a pattern of one branch. -/
theorem isPattern_row {atoms : List (List Char × Piece Pattern)}
    (each : ∀ a ∈ atoms, IsAtom a.1 a.2) :
    IsPattern (atoms.flatMap Prod.fst) [branchOf (atoms.map Prod.snd)] := by
  obtain ⟨ts, lexes, ran⟩ := exists_lexes_row each
  have pattern := lexes.isPattern (ran {})
  have branches : Frame.all { items := (atoms.map fun a => Item.part a.2).reverse ++ [] } =
      [branchOf (atoms.map Prod.snd)] := by
    rw [Frame.all, Frame.branch, List.append_nil, List.reverse_reverse, List.map_map]
    rfl
  rwa [branches] at pattern

/-- An atom and the operator behind it. -/
theorem isPattern_repeated {text : List Char} {p : Piece Pattern} (atom : IsAtom text p)
    {operator : Char} {low : Nat} {high : Option Nat}
    (repeats : tokenOf {} operator [] = .ok (.repeats low high true, [])) :
    IsPattern (text ++ [operator]) [branchOf [repeated p low high true]] := by
  obtain ⟨ts, lexes, ran⟩ := atom
  obtain ⟨sc, like, read⟩ := lexes {} (.refl _) [operator]
  have flags : sc.flags = {} := like.flags
  have here : skip sc.flags [operator] = [operator] := by
    rw [flags]
    rfl
  have last : lex sc [operator] = (lex _ []).cons (.repeats low high true) :=
    lex_of_token here (flags ▸ repeats)
  rw [last, lex_nil] at read
  refine ⟨?_, { items := [.part (repeated p low high true)] }, ?_, rfl⟩
  · rw [read]
    rfl
  · rw [read]
    exact (Stack.run_append_of_ok (ran {}) _).trans rfl

/-- Atoms with bars between them are the branches of a group. -/
theorem exists_lexes_bars {atoms : List (List Char × Piece Pattern)}
    (each : ∀ a ∈ atoms, IsAtom a.1 a.2) (nonempty : atoms ≠ []) :
    ∃ ts, Lexes (['|'].intercalate (atoms.map Prod.fst)) ts ∧ ∀ s : Stack, s.top.items = [] →
      ∃ top, s.run ts = .ok { s with top } ∧
        top.all = s.top.branches ++ atoms.map fun a => branchOf [a.2] := by
  induction atoms with
  | nil => exact absurd rfl nonempty
  | cons a atoms ih =>
    obtain ⟨⟨ts, lexes, ran⟩, later⟩ := List.forall_mem_cons.1 each
    have alone {s : Stack} (fresh : s.top.items = []) :
        (s.top.add (.part a.2)).all = s.top.branches ++ [branchOf [a.2]] := by
      rw [Frame.all, Frame.branch, Frame.add, fresh]
      rfl
    cases atoms with
    | nil =>
      rw [List.map_singleton, List.map_singleton, List.intercalate_singleton]
      exact ⟨ts, lexes, fun s fresh => ⟨_, ran s, alone fresh⟩⟩
    | cons b atoms =>
      obtain ⟨us, lexes', ran'⟩ := ih later (List.cons_ne_nil b atoms)
      have bar : Lexes ['|'] [.bar] := .of_token (fun _ => rfl) fun _ like => like
      refine ⟨ts ++ ([.bar] ++ us), ?_, fun s fresh => ?_⟩
      · rw [List.map_cons, List.map_cons, List.intercalate_cons_cons, ← List.map_cons,
          List.append_assoc]
        exact lexes.append (bar.append lexes')
      · obtain ⟨top, ran', all⟩ := ran' { s with top := { s.top with
          branches := (s.top.add (.part a.2)).all, items := [] } } rfl
        refine ⟨top, (Stack.run_append_of_ok (ran s) _).trans ran', all.trans ?_⟩
        rw [alone fresh, List.map_cons, List.append_assoc]
        rfl

/-- Atoms with bars between them are a pattern with a branch for each. -/
theorem isPattern_bars {atoms : List (List Char × Piece Pattern)}
    (each : ∀ a ∈ atoms, IsAtom a.1 a.2) (nonempty : atoms ≠ []) :
    IsPattern (['|'].intercalate (atoms.map Prod.fst)) (atoms.map fun a => branchOf [a.2]) := by
  obtain ⟨ts, lexes, ran⟩ := exists_lexes_bars each nonempty
  obtain ⟨top, ran, all⟩ := ran {} rfl
  have pattern := lexes.isPattern ran
  rwa [all] at pattern

end Pattern.Syntax

end AttrGrammar
