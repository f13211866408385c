import AttrGrammar.Proofs.Parsing.Termination

/-!
Courses that the next token decides.

In a predictive grammar a course depends on the tokens that it passes and on the next one only. What it
reads was derived, and where it stops, what is missing can still be derived, if every rule derives
something. The main statement is for descents that are cut off at any depth.
-/

namespace AttrGrammar

open Parsing

namespace Place

/-- The place some tokens further on. -/
def skip (p : Place) (k : Nat) : Place := ⟨p.index + k, p.rest.drop k⟩

/-- Two places with one index whose first `n` tokens are the same. -/
def Agrees (n : Nat) (p q : Place) : Prop := p.index = q.index ∧ p.rest.take n = q.rest.take n

variable {p q : Place} {k m n : Nat}

theorem skip_zero (p : Place) : p.skip 0 = p := rfl

theorem skip_skip (p : Place) (k m : Nat) : (p.skip k).skip m = p.skip (k + m) := by
  rw [skip, skip, skip, List.drop_drop, Nat.add_assoc]

theorem skip_inj : p.skip k = p.skip m ↔ k = m :=
  ⟨fun same => Nat.add_left_cancel (congrArg Place.index same), fun same => same ▸ rfl⟩

theorem eq_skip_iff : p = p.skip k ↔ k = 0 := by
  rw [← skip_inj, skip_zero, eq_comm]

theorem Agrees.mono (agrees : Agrees m p q) (fewer : n ≤ m) : Agrees n p q := by
  refine ⟨agrees.1, ?_⟩
  have cut := congrArg (List.take n) agrees.2
  rwa [List.take_take, List.take_take, Nat.min_eq_left fewer] at cut

theorem Agrees.skip (agrees : Agrees (k + n) p q) : Agrees n (p.skip k) (q.skip k) := by
  refine ⟨congrArg (· + k) agrees.1, ?_⟩
  have cut := congrArg (List.drop k) agrees.2
  rwa [List.drop_take, List.drop_take, Nat.add_sub_cancel_left] at cut

/-- The next token of places that agree on it, if there is one. -/
theorem Agrees.next (agrees : Agrees (n + 1) p q) : p.rest = [] ∧ q.rest = [] ∨
    ∃ token rest rest', p.rest = token :: rest ∧ q.rest = token :: rest' := by
  obtain ⟨_, same⟩ := agrees
  cases here : p.rest with
  | nil =>
    cases there : q.rest with
    | nil => exact Or.inl ⟨rfl, rfl⟩
    | cons => simp [here, there] at same
  | cons token rest =>
    cases there : q.rest with
    | nil => simp [here, there] at same
    | cons other rest' =>
      rw [here, there, List.take_succ_cons, List.take_succ_cons] at same
      obtain ⟨rfl, _⟩ := List.cons.inj same
      exact Or.inr ⟨token, rest, rest', rfl, rfl⟩

theorem Agrees.lookahead (agrees : Agrees (n + 1) p q) : p.lookahead = q.lookahead := by
  rcases agrees.next with ⟨here, there⟩ | ⟨token, rest, rest', here, there⟩
  all_goals
    rw [Place.lookahead, Place.lookahead, here, there]

/-- The choice of an alternative depends on the next token only. -/
theorem Agrees.choose (agrees : Agrees (n + 1) p q) (rule : Rule) (terms : List Rule) :
    Parsing.choose rule terms p = Parsing.choose rule terms q := by
  rw [Parsing.choose, Parsing.choose, agrees.lookahead]
  rcases agrees.next with ⟨here, there⟩ | ⟨token, rest, rest', here, there⟩
  all_goals
    rw [here, there]

end Place

namespace Parsing

open Place (Agrees)

variable {g : Grammar} {rank : String → Nat}

/-- An error at which reading stops after `k` tokens. These begin what one of the sequences of terms
derives, and the error says that the input has ended just if it has. -/
structure StopsAfter (g : Grammar) (sequences : List String → Prop) (p : Place) (e : ParseError)
    (k : Nat) : Prop where
  within : k ≤ p.rest.length
  index : e.index = p.index + k
  viable : ∃ sequence f more, sequences sequence ∧ g.Derives sequence f (p.rest.take k ++ more)
  ended : e.fault ≠ .leftRecursion → (e.isExhausted = true ↔ k = p.rest.length)

/-- A course that follows some sequences of terms, each of its steps decided by the next token. -/
structure Precise (g : Grammar) (sequences : List String → Prop)
    (course : Place → Except ParseError Place) : Prop where
  productive : ∃ sequence f tokens, sequences sequence ∧ g.Derives sequence f tokens
  reaches : ∀ {p next}, course p = .ok next → ∃ k, k ≤ p.rest.length ∧ next = p.skip k ∧
    ∃ sequence f, sequences sequence ∧ g.Derives sequence f (p.rest.take k)
  stops : ∀ {p e}, course p = .error e → ∃ k, StopsAfter g sequences p e k
  ok : ∀ {p q k}, course p = .ok (p.skip k) → Agrees (k + 1) p q → course q = .ok (q.skip k)
  error : ∀ {p q e k}, course p = .error e → e.index = p.index + k → Agrees (k + 1) p q →
    course q = .error e

namespace Precise

variable {sequences others : List String → Prop} {course more : Place → Except ParseError Place}

/-- What follows some sequences follows others too that derive the same tokens. -/
theorem widen (precise : Precise g sequences course)
    (also : ∀ {sequence f tokens}, sequences sequence → g.Derives sequence f tokens →
      ∃ other h, others other ∧ g.Derives other h tokens) : Precise g others course where
  productive := by
    obtain ⟨_, _, tokens, listed, derives⟩ := precise.productive
    obtain ⟨other, h, listed, derives⟩ := also listed derives
    exact ⟨other, h, tokens, listed, derives⟩
  reaches done := by
    obtain ⟨k, enough, at_, _, _, listed, derives⟩ := precise.reaches done
    exact ⟨k, enough, at_, also listed derives⟩
  stops failed := by
    obtain ⟨k, within, index, ⟨_, _, more, listed, derives⟩, ended⟩ := precise.stops failed
    obtain ⟨other, h, listed, derives⟩ := also listed derives
    exact ⟨k, within, index, ⟨other, h, more, listed, derives⟩, ended⟩
  ok := precise.ok
  error := precise.error

/-- Staying where one is, where a sequence derives nothing. -/
theorem stay {sequence : List String} {f : Forest Label} (allowed : sequences sequence)
    (derives : g.Derives sequence f []) : Precise g sequences .ok where
  productive := ⟨sequence, f, [], allowed, derives⟩
  reaches done := by
    cases done
    exact ⟨0, Nat.zero_le _, rfl, sequence, f, allowed, derives⟩
  stops failed := by cases failed
  ok done _ := by
    rw [Place.eq_skip_iff.1 (Except.ok.inj done), Place.skip_zero]
  error failed := by cases failed

/-- One course after the other. -/
theorem andThen (first : Precise g sequences course) (later : Precise g others more) :
    Precise g (fun s => ∃ a b, sequences a ∧ others b ∧ s = a ++ b) (fun p => course p >>= more) where
  productive := by
    obtain ⟨a, f, used, front, derives⟩ := first.productive
    obtain ⟨b, h, tokens, back, derives'⟩ := later.productive
    exact ⟨_, _, _, ⟨a, b, front, back, rfl⟩, derives.append derives'⟩
  reaches done := by
    obtain ⟨_, begun, done⟩ := except_bind_eq_ok.1 done
    obtain ⟨k, enough, rfl, a, f, front, derives⟩ := first.reaches begun
    obtain ⟨m, enough', rfl, b, h, back, derives'⟩ := later.reaches done
    refine ⟨k + m, ?_, Place.skip_skip _ k m, _, f ++ h, ⟨a, b, front, back, rfl⟩, ?_⟩
    · rw [Place.skip, List.length_drop] at enough'
      omega
    · rw [List.take_add]
      exact derives.append derives'
  stops failed := by
    rcases except_bind_eq_error.1 failed with failed | ⟨_, begun, failed⟩
    · obtain ⟨k, stops⟩ := first.stops failed
      obtain ⟨a, f, rest, front, derives⟩ := stops.viable
      obtain ⟨b, h, tokens, back, derives'⟩ := later.productive
      refine ⟨k, stops.within, stops.index, ⟨_, f ++ h, rest ++ tokens, ⟨a, b, front, back, rfl⟩, ?_⟩,
        stops.ended⟩
      rw [← List.append_assoc]
      exact derives.append derives'
    · obtain ⟨k, enough, rfl, a, f, front, derives⟩ := first.reaches begun
      obtain ⟨m, stops⟩ := later.stops failed
      obtain ⟨b, h, rest, back, derives'⟩ := stops.viable
      have within := stops.within
      rw [Place.skip, List.length_drop] at within
      refine ⟨k + m, by omega, ?_, ⟨_, f ++ h, rest, ⟨a, b, front, back, rfl⟩, ?_⟩, fun real => ?_⟩
      · rw [stops.index, Place.skip, Nat.add_assoc]
      · rw [List.take_add, List.append_assoc]
        exact derives.append derives'
      · rw [stops.ended real, Place.skip, List.length_drop]
        omega
  ok {p q k} done agrees := by
    obtain ⟨_, begun, done⟩ := except_bind_eq_ok.1 done
    obtain ⟨m, _, rfl, _⟩ := first.reaches begun
    obtain ⟨n, _, same, _⟩ := later.reaches done
    rw [Place.skip_skip, Place.skip_inj] at same
    subst same
    have here := first.ok begun (agrees.mono (by omega))
    rw [← Place.skip_skip] at done ⊢
    rw [here]
    exact later.ok done (Agrees.skip (by rwa [← Nat.add_assoc]))
  error {p q e k} failed index agrees := by
    rcases except_bind_eq_error.1 failed with failed | ⟨_, begun, failed⟩
    · exact except_bind_eq_error.2 (Or.inl (first.error failed index agrees))
    · obtain ⟨m, _, rfl, _⟩ := first.reaches begun
      obtain ⟨n, stops⟩ := later.stops failed
      have place := stops.index
      rw [index, Place.skip, Nat.add_assoc, Nat.add_left_cancel_iff] at place
      subst place
      have here := first.ok begun (agrees.mono (by omega))
      exact except_bind_eq_error.2
        (Or.inr ⟨_, here, later.error failed stops.index (Agrees.skip (by rwa [← Nat.add_assoc]))⟩)

end Precise

/-- A guide that is precise for all rules of a grammar. -/
def Sure (g : Grammar) (guide : Course.Guide) : Prop :=
  ∀ rule, g.find? rule.name = some rule → Precise g (· = [rule.name]) (guide rule)

variable {guide : Course.Guide}

/-- Stopping before the next token. -/
theorem StopsAfter.zero {sequences : List String → Prop} {p : Place} {e : ParseError}
    (productive : ∃ sequence f tokens, sequences sequence ∧ g.Derives sequence f tokens)
    (index : e.index = p.index)
    (ended : e.fault ≠ .leftRecursion → (e.isExhausted = true ↔ p.rest = [])) :
    StopsAfter g sequences p e 0 where
  within := Nat.zero_le _
  index := index
  viable := productive
  ended real := by rw [ended real, ← List.length_eq_zero_iff, eq_comm]

theorem terminal_nil {rule : Rule} (visible : rule.name ≠ nullable) {p : Place}
    (ended : p.rest = []) :
    Course.terminal rule p = Course.stop rule.name (.exhaustedInput [rule.name]) p := by
  rw [Course.terminal, if_neg visible, ended]

theorem terminal_cons {rule : Rule} (visible : rule.name ≠ nullable) {p : Place} {token : Token}
    {rest : List Token} (here : p.rest = token :: rest) :
    Course.terminal rule p = if token.name = rule.name then .ok (p.skip 1)
      else Course.stop rule.name (.terminalMismatch rule.name token.name) p := by
  rw [Course.terminal, if_neg visible, Place.skip, here]
  rfl

/-- A terminal reads one token of its name. -/
theorem terminal_eq_ok {rule : Rule} (visible : rule.name ≠ nullable) {p next : Place} :
    Course.terminal rule p = .ok next ↔
      ∃ token rest, p.rest = token :: rest ∧ token.name = rule.name ∧ next = p.skip 1 := by
  cases here : p.rest with
  | nil =>
    rw [terminal_nil visible here, Course.stop]
    refine ⟨fun done => (by cases done), ?_⟩
    rintro ⟨_, _, same, _⟩
    cases same
  | cons token rest =>
    rw [terminal_cons visible here]
    split
    · next named =>
      refine ⟨fun done => ⟨token, rest, rfl, named, (Except.ok.inj done).symm⟩, ?_⟩
      rintro ⟨_, _, _, _, rfl⟩
      rfl
    · next other =>
      refine ⟨fun done => (by cases done), ?_⟩
      rintro ⟨_, _, same, named, _⟩
      cases same
      exact absurd named other

theorem precise_terminal {rule : Rule} (known : g.find? rule.name = some rule)
    (terminal : rule.isTerminal = true) : Precise g (· = [rule.name]) (Course.terminal rule) := by
  by_cases silent : rule.name = nullable
  · have still : Course.terminal rule = .ok := by
      funext p
      rw [Course.terminal, if_pos silent]
    have nothing : g.Derives [rule.name] .nil [] := by
      rw [silent] at known ⊢
      exact .nothing known terminal .nil
    rw [still]
    exact .stay rfl nothing
  · have reads : ∀ token : Token, token.name = rule.name → g.Derives [rule.name] _ [token] :=
      fun token named => .token known terminal silent named .nil
    have productive : ∃ sequence f tokens, sequence = [rule.name] ∧ g.Derives sequence f tokens :=
      ⟨_, _, _, rfl, reads ⟨rule.name, "", {}⟩ rfl⟩
    refine ⟨productive, ?_, ?_, ?_, ?_⟩
    · intro p next done
      obtain ⟨token, rest, here, named, rfl⟩ := (terminal_eq_ok silent).1 done
      rw [here]
      exact ⟨1, Nat.le_add_left _ _, rfl, _, _, rfl, reads token named⟩
    · intro p e failed
      cases here : p.rest with
      | nil =>
        rw [terminal_nil silent here] at failed
        cases failed
        exact ⟨0, .zero productive rfl fun _ => iff_of_true rfl here⟩
      | cons token rest =>
        rw [terminal_cons silent here] at failed
        split at failed
        · cases failed
        · cases failed
          exact ⟨0, .zero productive rfl fun _ => iff_of_false nofun (by rw [here]; nofun)⟩
    · intro p q k done agrees
      obtain ⟨token, rest, here, named, one⟩ := (terminal_eq_ok silent).1 done
      obtain rfl := Place.skip_inj.1 one
      rcases agrees.next with ⟨finished, _⟩ | ⟨_, _, rest', here', there⟩
      · cases here.symm.trans finished
      · cases here.symm.trans here'
        exact (terminal_eq_ok silent).2 ⟨token, rest', there, named, rfl⟩
    · intro p q e k failed _ agrees
      rw [← failed]
      rcases agrees.next with ⟨here, there⟩ | ⟨token, rest, rest', here, there⟩
      · rw [terminal_nil silent here, terminal_nil silent there, Course.stop, Course.stop, agrees.1]
      · rw [terminal_cons silent here] at failed
        rw [terminal_cons silent here, terminal_cons silent there]
        split at failed
        · cases failed
        · next other => rw [if_neg other, if_neg other, Course.stop, Course.stop, agrees.1]

theorem precise_sequence (sure : Sure g guide) {terms : List String}
    (known : ∀ term ∈ terms, ∃ r, g.find? term = some r) :
    Precise g (· = terms) (Course.sequence g guide terms) := by
  induction terms with
  | nil => exact .stay rfl .nil
  | cons term rest ih =>
    obtain ⟨r, found⟩ := known term List.mem_cons_self
    have named := g.find?_name found
    have later := ih fun t member => known t (List.mem_cons_of_mem _ member)
    have both := (sure r (named ▸ found)).andThen later
    have course : Course.sequence g guide (term :: rest) =
        fun p => guide r p >>= Course.sequence g guide rest := by
      funext p
      rw [Course.sequence, Course.lookUp_ok found, except_ok_bind]
    rw [course]
    refine both.widen fun {_ f _} listed derives => ⟨term :: rest, f, rfl, ?_⟩
    obtain ⟨_, _, rfl, rfl, rfl⟩ := listed
    rwa [named] at derives

/-- Where no two members of a list have a property, none or one has it. -/
theorem filter_eq_nil_or_singleton {α : Type} (holds : α → Bool) {xs : List α}
    (apart : xs.Pairwise fun a b => ¬ (holds a = true ∧ holds b = true)) :
    xs.filter holds = [] ∨ ∃ x, xs.filter holds = [x] := by
  by_cases found : ∃ x ∈ xs, holds x = true
  · obtain ⟨x, member, here⟩ := found
    exact Or.inr ⟨x, filter_eq_singleton holds apart member here⟩
  · exact Or.inl (List.filter_eq_nil_iff.2 fun x member here => found ⟨x, member, here⟩)

/-- Where no alternative is chosen, the next token is wrong or there is none. -/
theorem choose_error (predictive : g.Predictive rank) {name : String} {rule : Rule}
    {terms : List String} (found : g.find? name = some rule) (body : rule.body = .alternation terms)
    {p : Place} {fault : ParseFault}
    (choice : choose rule (terms.filterMap g.find?) p = .error fault) :
    (ParseError.isExhausted { rule := rule.name, fault, index := p.index }) = true ↔ p.rest = [] := by
  have one : (terms.filterMap g.find?).Pairwise fun a b =>
      ¬ (a.first.contains p.lookahead = true ∧ b.first.contains p.lookahead = true) :=
    (pairwise_rules (predictive.apart found body)).imp fun apart both =>
      apart.1 _ (NameSet.contains_iff.1 both.1) (NameSet.contains_iff.1 both.2)
  unfold choose at choice
  rcases filter_eq_nil_or_singleton (fun r : Rule => r.first.contains p.lookahead) one with
    nothing | ⟨only, chosen⟩
  · rw [nothing] at choice
    dsimp only at choice
    split at choice
    · cases choice
    · split at choice
      · next here =>
        cases choice
        exact iff_of_false Bool.false_ne_true (by rw [here]; exact List.cons_ne_nil _ _)
      · next here =>
        cases choice
        exact iff_of_true rfl here
  · rw [chosen] at choice
    cases choice

theorem precise_alternation (predictive : g.Predictive rank) (sure : Sure g guide) {name : String}
    {rule : Rule} {terms : List String} (found : g.find? name = some rule)
    (body : rule.body = .alternation terms)
    (productive : ∃ sequence f tokens, rule.body.Allows sequence ∧ g.Derives sequence f tokens) :
    Precise g rule.body.Allows (Course.alternation g guide rule terms) := by
  have all : ∀ term ∈ terms, ∃ r, g.find? term = some r := by
    intro term member
    exact predictive.known found term (by rwa [Rule.terms, body])
  have chosen : ∀ {p r}, choose rule (terms.filterMap g.find?) p = .ok r →
      Precise g rule.body.Allows (guide r) := by
    intro p r choice
    obtain ⟨term, member, known⟩ := List.mem_filterMap.1 (mem_of_choose choice)
    have named := g.find?_name known
    refine (sure r (named ▸ known)).widen fun {_ f _} only derives => ⟨[term], f, ?_, ?_⟩
    · rw [body]
      exact ⟨term, member, rfl⟩
    · rwa [only, named] at derives
  refine ⟨productive, ?_, ?_, ?_, ?_⟩
  · intro p next done
    cases choice : choose rule (terms.filterMap g.find?) p with
    | ok r =>
      rw [Course.alternation_ok all choice] at done
      exact (chosen choice).reaches done
    | error fault =>
      rw [Course.alternation_error all choice] at done
      cases done
  · intro p e failed
    cases choice : choose rule (terms.filterMap g.find?) p with
    | ok r =>
      rw [Course.alternation_ok all choice] at failed
      exact (chosen choice).stops failed
    | error fault =>
      rw [Course.alternation_error all choice] at failed
      cases failed
      exact ⟨0, .zero productive rfl fun _ => choose_error predictive found body choice⟩
  · intro p q k done agrees
    cases choice : choose rule (terms.filterMap g.find?) p with
    | ok r =>
      rw [Course.alternation_ok all choice] at done
      rw [Course.alternation_ok all ((agrees.choose rule _).symm.trans choice)]
      exact (chosen choice).ok done agrees
    | error fault =>
      rw [Course.alternation_error all choice] at done
      cases done
  · intro p q e k failed index agrees
    cases choice : choose rule (terms.filterMap g.find?) p with
    | ok r =>
      rw [Course.alternation_ok all choice] at failed
      rw [Course.alternation_ok all ((agrees.choose rule _).symm.trans choice)]
      exact (chosen choice).error failed index agrees
    | error fault =>
      rw [Course.alternation_error all choice] at failed
      rw [Course.alternation_error all ((agrees.choose rule _).symm.trans choice), ← failed,
        Course.stop, Course.stop, agrees.1]

/-- A term that was tried where its rule can be left failed before its first token. -/
theorem trial_fails_here (predictive : g.Predictive rank) (sure : Sure g guide) {name term : String}
    {rule r : Rule} (found : g.find? name = some rule)
    (body : rule.body = .option term ∨ rule.body = .repetition term)
    (known : g.find? term = some r) {p : Place} {e : ParseError} (failed : guide r p = .error e)
    (follows : rule.follow.contains p.lookahead = true) : e.index = p.index + 0 := by
  have named := g.find?_name known
  obtain ⟨k, stops⟩ := (sure r (named ▸ known)).stops failed
  cases k with
  | zero => exact stops.index
  | succ k =>
    obtain ⟨_, f, more, rfl, derives⟩ := stops.viable
    have within := stops.within
    cases here : p.rest with
    | nil =>
      rw [here] at within
      exact absurd within (Nat.not_succ_le_zero k)
    | cons token rest =>
      rw [here, List.take_succ_cons, List.cons_append] at derives
      have visible := derives.visible token List.mem_cons_self
      have begins := derives.begins predictive.toAnalysed rfl
      rw [named] at begins
      have first : token.name ∈ g.firstSet term :=
        begins.resolve_right fun beyond => NameSet.not_mem_empty beyond.2
      rw [Place.lookahead, here, NameSet.contains_iff] at follows
      exact absurd follows (predictive.leaving found body _ first visible)

theorem leave_eq_ok {rule : Rule} {e : ParseError} {p next : Place}
    (left : Course.leave rule e p = .ok next) :
    rule.follow.contains p.lookahead = true ∧ next = p := by
  unfold Course.leave at left
  split at left
  · next follows => exact ⟨follows, (Except.ok.inj left).symm⟩
  · cases left

/-- Leaving a rule, and not leaving it, depends on the next token only. -/
theorem leave_congr {rule : Rule} {e : ParseError} {p q : Place} {n : Nat}
    (agrees : Agrees (n + 1) p q) :
    (Course.leave rule e p = .ok p → Course.leave rule e q = .ok q) ∧
      ∀ e', Course.leave rule e p = .error e' → Course.leave rule e q = .error e' := by
  unfold Course.leave
  rw [agrees.lookahead]
  split
  · exact ⟨fun _ => rfl, nofun⟩
  · exact ⟨nofun, fun _ => id⟩

theorem precise_option (predictive : g.Predictive rank) (sure : Sure g guide) {name term : String}
    {rule : Rule} (found : g.find? name = some rule) (body : rule.body = .option term) :
    Precise g rule.body.Allows (Course.option g guide rule term) := by
  obtain ⟨r, known⟩ := predictive.known found term (by rw [Rule.terms, body]; exact List.mem_cons_self)
  have named := g.find?_name known
  have precise : Precise g rule.body.Allows (guide r) :=
    (sure r (named ▸ known)).widen fun {_ f _} only derives =>
      ⟨[term], f, body ▸ Or.inr rfl, by rwa [only, named] at derives⟩
  have here : ∀ {p e}, guide r p = .error e → rule.follow.contains p.lookahead = true →
      e.index = p.index + 0 := trial_fails_here predictive sure found (Or.inl body) known
  have nothing : rule.body.Allows [] := body ▸ Or.inl rfl
  refine ⟨⟨[], .nil, [], nothing, .nil⟩, ?_, ?_, ?_, ?_⟩
  · intro p next done
    cases tried : guide r p with
    | ok next =>
      rw [Course.option_ok known tried] at done
      cases done
      exact precise.reaches tried
    | error e =>
      rw [Course.option_error known tried] at done
      obtain ⟨_, rfl⟩ := leave_eq_ok done
      exact ⟨0, Nat.zero_le _, rfl, [], .nil, nothing, .nil⟩
  · intro p e failed
    cases tried : guide r p with
    | ok next =>
      rw [Course.option_ok known tried] at failed
      cases failed
    | error e =>
      rw [Course.option_error known tried] at failed
      cases Course.leave_error failed
      exact precise.stops tried
  · intro p q k done agrees
    cases tried : guide r p with
    | ok next =>
      rw [Course.option_ok known tried] at done
      cases done
      rw [Course.option_ok known (precise.ok tried agrees)]
    | error e =>
      rw [Course.option_error known tried] at done
      obtain ⟨follows, same⟩ := leave_eq_ok done
      cases Place.eq_skip_iff.1 same.symm
      rw [Course.option_error known (precise.error tried (here tried follows) agrees)]
      exact (leave_congr agrees).1 done
  · intro p q e k failed index agrees
    cases tried : guide r p with
    | ok next =>
      rw [Course.option_ok known tried] at failed
      cases failed
    | error e =>
      rw [Course.option_error known tried] at failed
      cases Course.leave_error failed
      rw [Course.option_error known (precise.error tried index agrees)]
      exact (leave_congr agrees).2 e failed

namespace Course

variable {rule term : Rule} {n i : Nat} {p : Place} {token : Token} {rest : List Token}

theorem rounds_nil (here : p.rest = []) : rounds guide rule term (n + 1) p = .ok p := by
  rw [rounds, here]
  rfl

theorem rounds_still (here : p.rest = token :: rest) (tried : guide term p = .ok (p.skip 0)) :
    rounds guide rule term (n + 1) p = .ok p := by
  rw [rounds, here, tried]
  exact if_pos rfl

theorem rounds_moved (here : p.rest = token :: rest) (tried : guide term p = .ok (p.skip (i + 1))) :
    rounds guide rule term (n + 1) p = rounds guide rule term n (p.skip (i + 1)) := by
  have moved : (p.skip (i + 1)).index ≠ p.index :=
    Nat.ne_of_gt (Nat.lt_add_of_pos_right (Nat.succ_pos i))
  rw [rounds, here, tried]
  exact if_neg moved

theorem rounds_left {e : ParseError} (here : p.rest = token :: rest)
    (tried : guide term p = .error e) :
    rounds guide rule term (n + 1) p = leave rule e p := by
  rw [rounds, here, tried]
  rfl

end Course

section Rounds

variable (predictive : g.Predictive rank) (sure : Sure g guide) {name term : String} {rule r : Rule}
  (found : g.find? name = some rule) (body : rule.body = .repetition term)
  (known : g.find? term = some r)

include sure known

/-- The rounds read as many terms. -/
theorem rounds_reaches {n : Nat} {p next : Place}
    (done : Course.rounds guide rule r n p = .ok next) :
    ∃ k, k ≤ p.rest.length ∧ next = p.skip k ∧
      ∃ m f, g.Derives (List.replicate m term) f (p.rest.take k) := by
  have named := g.find?_name known
  induction n generalizing p with
  | zero =>
    cases done
    exact ⟨0, Nat.zero_le _, rfl, 0, .nil, .nil⟩
  | succ n ih =>
    unfold Course.rounds at done
    split at done
    · cases done
      exact ⟨0, Nat.zero_le _, rfl, 0, .nil, .nil⟩
    · split at done
      · next q tried =>
        split at done
        · cases done
          exact ⟨0, Nat.zero_le _, rfl, 0, .nil, .nil⟩
        · obtain ⟨k, enough, rfl, _, f, rfl, derives⟩ := (sure r (named ▸ known)).reaches tried
          obtain ⟨k', enough', rfl, m, h, others⟩ := ih done
          refine ⟨k + k', ?_, Place.skip_skip p k k', m + 1, f ++ h, ?_⟩
          · rw [Place.skip, List.length_drop] at enough'
            omega
          · rw [List.take_add, List.replicate_succ]
            rw [named] at derives
            exact derives.append others
      · obtain ⟨_, rfl⟩ := leave_eq_ok done
        exact ⟨0, Nat.zero_le _, rfl, 0, .nil, .nil⟩

/-- Where the rounds fail, a term fails after those that were read. -/
theorem rounds_stops {n : Nat} {p : Place} {e : ParseError}
    (failed : Course.rounds guide rule r n p = .error e) :
    ∃ k, StopsAfter g (fun s => ∃ m, s = List.replicate m term) p e k := by
  have named := g.find?_name known
  induction n generalizing p with
  | zero => cases failed
  | succ n ih =>
    unfold Course.rounds at failed
    split at failed
    · cases failed
    · split at failed
      · next q tried =>
        split at failed
        · cases failed
        · obtain ⟨k, enough, rfl, _, f, rfl, derives⟩ := (sure r (named ▸ known)).reaches tried
          obtain ⟨k', stops⟩ := ih failed
          obtain ⟨_, h, more, ⟨m, rfl⟩, others⟩ := stops.viable
          have within := stops.within
          rw [Place.skip, List.length_drop] at within
          refine ⟨k + k', by omega, ?_, ⟨_, f ++ h, more, ⟨m + 1, rfl⟩, ?_⟩, fun real => ?_⟩
          · rw [stops.index, Place.skip, Nat.add_assoc]
          · rw [List.take_add, List.append_assoc, List.replicate_succ]
            rw [named] at derives
            exact derives.append others
          · rw [stops.ended real, Place.skip, List.length_drop]
            omega
      · next e' tried =>
        cases Course.leave_error failed
        obtain ⟨k, stops⟩ := (sure r (named ▸ known)).stops tried
        obtain ⟨_, f, more, rfl, derives⟩ := stops.viable
        rw [named] at derives
        exact ⟨k, stops.within, stops.index, ⟨_, f, more, ⟨1, rfl⟩, derives⟩, stops.ended⟩

include predictive found body

/-- The rounds depend on the tokens that are read and the next one, by induction on how many there
may be. -/
theorem rounds_local {n m k : Nat} {p q : Place} (agrees : Agrees (k + 1) p q)
    (enough : q.rest.length < m) :
    (Course.rounds guide rule r n p = .ok (p.skip k) → p.rest.length < n →
        Course.rounds guide rule r m q = .ok (q.skip k)) ∧
      ∀ e, Course.rounds guide rule r n p = .error e → e.index = p.index + k →
        Course.rounds guide rule r m q = .error e := by
  have named := g.find?_name known
  have precise := sure r (named ▸ known)
  induction n generalizing p q m k with
  | zero => exact ⟨fun _ below => absurd below (Nat.not_lt_zero _), nofun⟩
  | succ n ih =>
    obtain ⟨m, rfl⟩ := Nat.exists_eq_succ_of_ne_zero (Nat.ne_zero_of_lt enough)
    rcases agrees.next with ⟨here, there⟩ | ⟨token, rest, rest', here, there⟩
    · rw [Course.rounds_nil here, Course.rounds_nil there]
      refine ⟨fun done _ => ?_, nofun⟩
      rw [Place.eq_skip_iff.1 (Except.ok.inj done), Place.skip_zero]
    · cases tried : guide r p with
      | ok next =>
        obtain ⟨i, -, rfl, -⟩ := precise.reaches tried
        cases i with
        | zero =>
          rw [Course.rounds_still here tried]
          refine ⟨fun done _ => ?_, nofun⟩
          cases Place.eq_skip_iff.1 (Except.ok.inj done)
          exact Course.rounds_still there (precise.ok tried agrees)
        | succ i =>
          have fewer : ∀ {s : Place} {tail n}, s.rest = token :: tail → s.rest.length < n + 1 →
              (s.skip (i + 1)).rest.length < n := by
            intro s tail n split bound
            rw [split, List.length_cons] at bound
            rw [Place.skip, split, List.length_drop, List.length_cons]
            omega
          have goOn : ∀ {j}, k = i + 1 + j →
              Course.rounds guide rule r (m + 1) q = Course.rounds guide rule r m (q.skip (i + 1)) ∧
                Agrees (j + 1) (p.skip (i + 1)) (q.skip (i + 1)) := by
            rintro j rfl
            exact ⟨Course.rounds_moved there (precise.ok tried (agrees.mono (by omega))),
              Agrees.skip (by rwa [← Nat.add_assoc])⟩
          rw [Course.rounds_moved here tried]
          constructor
          · intro done many
            obtain ⟨j, _, total, _⟩ := rounds_reaches sure known done
            rw [Place.skip_skip, Place.skip_inj] at total
            obtain ⟨round, later⟩ := goOn total
            rw [total, ← Place.skip_skip p (i + 1) j] at done
            rw [total, ← Place.skip_skip q (i + 1) j, round]
            exact (ih later (fewer there enough)).1 done (fewer here many)
          · intro e failed index
            obtain ⟨j, stops⟩ := rounds_stops sure known failed
            have total := stops.index
            rw [index, Place.skip, Nat.add_assoc, Nat.add_left_cancel_iff] at total
            obtain ⟨round, later⟩ := goOn total
            rw [round]
            exact (ih later (fewer there enough)).2 e failed stops.index
      | error e =>
        rw [Course.rounds_left here tried]
        constructor
        · intro done _
          obtain ⟨follows, same⟩ := leave_eq_ok done
          cases Place.eq_skip_iff.1 same.symm
          have place := trial_fails_here predictive sure found (Or.inr body) known tried follows
          rw [Course.rounds_left there (precise.error tried place agrees)]
          exact (leave_congr agrees).1 done
        · intro e' failed index
          cases Course.leave_error failed
          rw [Course.rounds_left there (precise.error tried index agrees)]
          exact (leave_congr agrees).2 e failed

theorem precise_repetition : Precise g rule.body.Allows
    (fun p => Course.rounds guide rule r (p.rest.length + 1) p) where
  productive := ⟨[], .nil, [], body ▸ ⟨0, rfl⟩, .nil⟩
  reaches done := by
    obtain ⟨k, enough, at_, m, f, derives⟩ := rounds_reaches sure known done
    exact ⟨k, enough, at_, _, f, body ▸ ⟨m, rfl⟩, derives⟩
  stops failed := by
    obtain ⟨k, stops⟩ := rounds_stops sure known failed
    obtain ⟨_, f, more, ⟨m, rfl⟩, derives⟩ := stops.viable
    exact ⟨k, stops.within, stops.index, ⟨_, f, more, body ▸ ⟨m, rfl⟩, derives⟩, stops.ended⟩
  ok done agrees := by
    exact (rounds_local predictive sure found body known agrees (Nat.lt_succ_self _)).1 done
      (Nat.lt_succ_self _)
  error failed index agrees := by
    exact (rounds_local predictive sure found body known agrees (Nat.lt_succ_self _)).2 _ failed index

end Rounds

theorem precise_body (predictive : g.Predictive rank) (sure : Sure g guide) {rule : Rule}
    (known : g.find? rule.name = some rule) (production : rule.isTerminal = false)
    (productive : ∃ sequence f tokens, rule.body.Allows sequence ∧ g.Derives sequence f tokens) :
    Precise g rule.body.Allows (Course.body g guide rule) := by
  have terms := predictive.known known
  rw [Rule.terms] at terms
  cases shape : rule.body with
  | terminal | attrTerminal =>
    rw [Rule.isTerminal, Rule.kind, shape] at production
    cases production
  | concatenation names | attrProduction names =>
    have course : Course.body g guide rule = Course.sequence g guide names := by
      funext p
      rw [Course.body, shape]
    rw [shape] at terms
    rw [course]
    exact precise_sequence sure terms
  | alternation names =>
    have course : Course.body g guide rule = Course.alternation g guide rule names := by
      funext p
      rw [Course.body, shape]
    rw [course, ← shape]
    exact precise_alternation predictive sure known shape productive
  | repetition term =>
    rw [shape] at terms
    obtain ⟨r, found⟩ := terms term List.mem_cons_self
    have course : Course.body g guide rule =
        fun p => Course.rounds guide rule r (p.rest.length + 1) p := by
      funext p
      rw [Course.body, shape]
      exact congrArg (· >>= fun term => Course.rounds guide rule term (p.rest.length + 1) p)
        (Course.lookUp_ok found p)
    rw [course, ← shape]
    exact precise_repetition predictive sure known shape found
  | option term =>
    have course : Course.body g guide rule = Course.option g guide rule term := by
      funext p
      rw [Course.body, shape]
    rw [course, ← shape]
    exact precise_option predictive sure known shape

/-- Giving up stops before the next token. -/
theorem precise_giveUp {rule : Rule} (productive : ∃ f tokens, g.Derives [rule.name] f tokens) :
    Precise g (· = [rule.name]) (Course.giveUp rule) := by
  obtain ⟨f, tokens, derives⟩ := productive
  have productive : ∃ sequence f tokens, sequence = [rule.name] ∧ g.Derives sequence f tokens :=
    ⟨_, f, tokens, rfl, derives⟩
  refine ⟨productive, nofun, fun {p e} failed => ?_, nofun, fun {p q e k} failed _ agrees => ?_⟩
  · cases failed
    exact ⟨0, .zero productive rfl fun real => absurd rfl real⟩
  · rw [← failed]
    dsimp only [Course.giveUp, Course.stop]
    rw [agrees.1]

/-- All rules are precise, by induction on how deep they nest. -/
theorem sure_descendTo (predictive : g.Predictive rank) (productive : g.Productive) (depth : Nat) :
    Sure g (Course.descendTo g Course.giveUp depth) := by
  induction depth with
  | zero => exact fun rule known => precise_giveUp (productive.rule known)
  | succ depth ih =>
    intro rule known
    have course : Course.descendTo g Course.giveUp (depth + 1) rule =
        fun p => if rule.isTerminal then Course.terminal rule p
          else Course.body g (Course.descendTo g Course.giveUp depth) rule p := rfl
    rw [course]
    cases terminal : rule.isTerminal with
    | true => exact precise_terminal known terminal
    | false =>
      have inside : ∀ {tokens}, (∃ f, g.Derives [rule.name] f tokens) ↔ _ :=
        Grammar.exists_derives_iff known terminal
      obtain ⟨f, tokens, derives⟩ := productive.rule known
      obtain ⟨sequence, children, allowed, body⟩ := inside.1 ⟨f, derives⟩
      have precise := precise_body predictive ih known terminal
        ⟨sequence, children, tokens, allowed, body⟩
      refine precise.widen fun {sequence children _} allowed derives => ?_
      obtain ⟨f, whole⟩ := inside.2 ⟨sequence, children, allowed, derives⟩
      exact ⟨[rule.name], f, rfl, whole⟩

end Parsing

end AttrGrammar
