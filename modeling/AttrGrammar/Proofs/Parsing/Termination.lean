import AttrGrammar.Proofs.Grammar.Language
import AttrGrammar.Proofs.Parsing.Course

/-!
Parsing comes to an end.

In a grammar without left recursion every step down leads to less: there are fewer tokens left, or as
many and the rule has a lower rank. So descent never gets below a depth that the number of tokens and
rules bounds, and what would read there makes no difference. A repetition reads a token in each round.
The main statement adds what is known of the outcome.
-/

namespace AttrGrammar

namespace Parsing

variable {g : Grammar} {rank : String → Nat}

theorem bind_error {ε σ α β : Type} {x : EStateM ε σ α} {f : α → EStateM ε σ β} {s between : σ} {e : ε}
    (first : x s = .error e between) : (x >>= f) s = .error e between := by
  change (match x s with
    | .ok a between => f a between
    | .error e between => .error e between) = _
  rw [first]

/-- A reader that goes where derivations lead, on any tree. -/
def Travels (g : Grammar) (read : Reader) : Prop :=
  ∀ (rule : Rule) (p next : Place) (t after : ParseTree), g.find? rule.name = some rule →
    read rule p t = .ok next after → Reaches g [rule.name] p next

theorem travels_parseRule (g : Grammar) (depth : Nat) : Travels g (parseRule g depth) := by
  intro rule p next t after known done
  have course := heeds_parseRule g depth rule p t
  rw [done] at course
  exact honest_giveUp g depth rule p next known course.symm

/-- Two readers do the same where going on costs less than a bound. -/
def AgreeBelow (g : Grammar) (rank : String → Nat) (bound : Nat) (read other : Reader) : Prop :=
  ∀ (rule : Rule) (p : Place) (t : ParseTree), g.find? rule.name = some rule →
    g.rules.length * p.rest.length + rank rule.name < bound → read rule p t = other rule p t

section Congruence

variable {read other : Reader} {bound : Nat} (ranked : g.Ranked rank) (travels : Travels g read)
  (agree : AgreeBelow g rank bound read other)

include agree

include ranked travels in
/-- The terms of a sequence are read alike, by induction on those that are left. -/
theorem parseSequence_congr {name : String} {rule : Rule} (found : g.find? name = some rule)
    {terms before : List String} (allowed : rule.body.Allows (before ++ terms)) {p : Place}
    (affords : Affords g rank name before p.rest.length bound) (t : ParseTree) :
    parseSequence g read terms p t = parseSequence g other terms p t := by
  induction terms generalizing before p t with
  | nil => rfl
  | cons term rest ih =>
    obtain ⟨r, known⟩ := ranked.known found term
      (allowed.mem_terms term (List.mem_append_right before List.mem_cons_self))
    have named := g.find?_name known
    have same := agree r p t (named ▸ known) (named ▸ affords.term ranked found allowed known)
    rw [parseSequence, parseSequence, bind_ok (resolve_ok known p t), bind_ok (resolve_ok known p t)]
    cases first : read r p t with
    | ok q between =>
      obtain ⟨f, used, derived, split, _⟩ := travels r p q t between (named ▸ known) first
      rw [split] at affords
      rw [bind_ok first, bind_ok (same.symm.trans first)]
      exact ih (by rwa [List.append_assoc]) (affords.rest ranked (named ▸ derived)) between
    | error e between => rw [bind_error first, bind_error (same.symm.trans first)]

include ranked in
theorem parseAlternation_congr {name : String} {rule : Rule} {terms : List String}
    (found : g.find? name = some rule) (body : rule.body = .alternation terms) {p : Place}
    (affords : Affords g rank name [] p.rest.length bound) (t : ParseTree) :
    parseAlternation g read rule terms p t = parseAlternation g other rule terms p t := by
  have all : ∀ term ∈ terms, ∃ r, g.find? term = some r := by
    intro term member
    exact ranked.known found term (by rwa [Rule.terms, body])
  rw [parseAlternation, parseAlternation, bind_ok (candidates_ok all p t),
    bind_ok (candidates_ok all p t)]
  cases choice : choose rule (terms.filterMap g.find?) p with
  | ok r =>
    obtain ⟨term, member, known⟩ := List.mem_filterMap.1 (mem_of_choose choice)
    have named := g.find?_name known
    have allowed : rule.body.Allows ([] ++ term :: []) := by
      rw [body]
      exact ⟨term, member, rfl⟩
    exact agree r p t (named ▸ known) (named ▸ affords.term ranked found allowed known)
  | error fault => rfl

include travels in
/-- The rounds of a repetition are read alike. -/
theorem parseRounds_congr (rule : Rule) {term : Rule} (known : g.find? term.name = some term)
    (n : Nat) {p : Place} (cheap : g.rules.length * p.rest.length + rank term.name < bound)
    (t : ParseTree) :
    parseRounds read rule term n p t = parseRounds other rule term n p t := by
  induction n generalizing p t with
  | zero => rfl
  | succ n ih =>
    have same := agree term p {} known cheap
    unfold parseRounds
    split
    · rfl
    · rw [EStateM.run, EStateM.run, ← same]
      cases tried : read term p {} with
      | ok q scratch =>
        obtain ⟨f, used, _, split, _⟩ := travels term p q {} scratch known tried
        have fewer : q.rest.length ≤ p.rest.length := by
          rw [split, List.length_append]
          exact Nat.le_add_left _ _
        have scaled := Nat.mul_le_mul_left g.rules.length fewer
        have graft : (modify (fun t => t.merge scratch) : ParseM PUnit) t =
            .ok ⟨⟩ (t.merge scratch) := rfl
        dsimp only
        split
        · rfl
        · rw [bind_ok graft, bind_ok graft]
          exact ih (by omega) (t.merge scratch)
      | error e scratch => rfl

include ranked travels in
theorem parseBody_congr {name : String} {rule : Rule} (found : g.find? name = some rule) {p : Place}
    (affords : Affords g rank name [] p.rest.length bound) (t : ParseTree) :
    parseBody g read rule p t = parseBody g other rule p t := by
  have first : ∀ {term}, rule.body.terms = [term] → rule.body.Allows ([] ++ term :: []) →
      ∃ r, g.find? term = some r ∧ g.find? r.name = some r ∧
        g.rules.length * p.rest.length + rank r.name < bound := by
    intro term only allowed
    obtain ⟨r, known⟩ := ranked.known found term (by rw [Rule.terms, only]; exact List.mem_cons_self)
    have named := g.find?_name known
    exact ⟨r, known, named ▸ known, named ▸ affords.term ranked found allowed known⟩
  unfold parseBody
  cases body : rule.body with
  | terminal | attrTerminal => rfl
  | concatenation terms | attrProduction terms =>
    have whole : rule.body.Allows ([] ++ terms) := by
      rw [body]
      rfl
    exact parseSequence_congr ranked travels agree found whole affords t
  | alternation terms => exact parseAlternation_congr ranked agree found body affords t
  | repetition term =>
    obtain ⟨r, known, self, cheap⟩ := first (by rw [body]; rfl) (by rw [body]; exact ⟨1, rfl⟩)
    dsimp only
    rw [parseRepetition, parseRepetition, bind_ok (resolve_ok known p t),
      bind_ok (resolve_ok known p t)]
    exact parseRounds_congr travels agree rule self _ cheap t
  | option term =>
    obtain ⟨r, known, self, cheap⟩ := first (by rw [body]; rfl) (by rw [body]; exact Or.inr rfl)
    dsimp only
    rw [parseOption, parseOption, bind_ok (resolve_ok known p t), bind_ok (resolve_ok known p t),
      EStateM.run, EStateM.run, agree r p {} self cheap]

end Congruence

/-- Going down one step costs less than a rule costs where it stands. -/
theorem descend_congr (ranked : g.Ranked rank) {read other : Reader} (travels : Travels g read)
    {rule : Rule} (known : g.find? rule.name = some rule) {p : Place}
    (agree : AgreeBelow g rank (g.rules.length * p.rest.length + rank rule.name) read other)
    (t : ParseTree) : descend g read rule p t = descend g other rule p t := by
  have affords : Affords g rank rule.name [] p.rest.length
      (g.rules.length * p.rest.length + rank rule.name) :=
    Or.inl ⟨by simp [Grammar.Vanishes], Nat.le_refl _⟩
  have body := parseBody_congr ranked travels agree known affords (t.enter rule.name rule.kind).2
  have enter : (modify (fun t => (t.enter rule.name rule.kind).2) : ParseM PUnit) t =
      .ok ⟨⟩ (t.enter rule.name rule.kind).2 := rfl
  unfold descend
  split
  · rfl
  · rw [bind_ok enter, bind_ok enter]
    cases done : parseBody g read rule p (t.enter rule.name rule.kind).2 with
    | ok next filled => rw [bind_ok done, bind_ok (body.symm.trans done)]
    | error e filled => rw [bind_error done, bind_error (body.symm.trans done)]

/-- What stands at the bottom makes no difference to a descent that is deep enough. -/
theorem descendTo_eq (ranked : g.Ranked rank) (bottom : Reader) {rule : Rule}
    (known : g.find? rule.name = some rule) {p : Place} {depth depth' : Nat}
    (deep : g.rules.length * p.rest.length + rank rule.name < depth)
    (deep' : g.rules.length * p.rest.length + rank rule.name < depth') (t : ParseTree) :
    parseRule g depth rule p t = descendTo g bottom depth' rule p t := by
  induction depth generalizing rule p depth' t with
  | zero => exact absurd deep (Nat.not_lt_zero _)
  | succ depth ih =>
    obtain ⟨depth', rfl⟩ := Nat.exists_eq_succ_of_ne_zero (Nat.ne_zero_of_lt deep')
    refine descend_congr ranked (travels_parseRule g depth) known ?_ t
    intro r q s self cheap
    exact ih self (Nat.lt_of_lt_of_le cheap (Nat.le_of_lt_succ deep))
      (Nat.lt_of_lt_of_le cheap (Nat.le_of_lt_succ deep')) s

/-- Going on at any place costs less than one token more than there are. -/
theorem cost_lt (ranked : g.Ranked rank) {name : String} {rule : Rule}
    (known : g.find? name = some rule) (left : Nat) :
    g.rules.length * left + rank name < g.rules.length * (left + 1) := by
  have below := ranked.bounded known
  rw [Nat.mul_succ]
  omega

/-- A repetition does not go through more rounds than there are tokens. -/
theorem parseRounds_eq {read : Reader} (travels : Travels g read) (rule : Rule) {term : Rule}
    (known : g.find? term.name = some term) {n m : Nat} {p : Place} (enough : p.rest.length < n)
    (enough' : p.rest.length < m) (t : ParseTree) :
    parseRounds read rule term n p t = parseRounds read rule term m p t := by
  induction n generalizing m p t with
  | zero => exact absurd enough (Nat.not_lt_zero _)
  | succ n ih =>
    obtain ⟨m, rfl⟩ := Nat.exists_eq_succ_of_ne_zero (Nat.ne_zero_of_lt enough')
    unfold parseRounds
    split
    · rfl
    · rw [EStateM.run]
      cases tried : read term p {} with
      | ok q scratch =>
        obtain ⟨f, used, _, split, index⟩ := travels term p q {} scratch known tried
        have graft : (modify (fun t => t.merge scratch) : ParseM PUnit) t =
            .ok ⟨⟩ (t.merge scratch) := rfl
        dsimp only
        split
        · rfl
        · have total : p.rest.length = used.length + q.rest.length := by
            rw [split, List.length_append]
          rw [bind_ok graft, bind_ok graft]
          exact ih (by omega) (by omega) (t.merge scratch)
      | error e scratch => rfl

/-- A fault that lies in the tokens: the rules are known, and none calls itself in vain. -/
def LiesInTokens (fault : ParseFault) : Prop :=
  fault ≠ .leftRecursion ∧ ∀ name, fault ≠ .unknownRule name

theorem liesInTokens_choose {rule : Rule} {terms : List Rule} {p : Place} {fault : ParseFault}
    (choice : choose rule terms p = .error fault) : LiesInTokens fault := by
  unfold choose at choice
  split at choice
  · cases choice
  · split at choice
    · cases choice
    · split at choice <;> cases choice <;> exact ⟨nofun, nofun⟩
  · cases choice
    exact ⟨nofun, nofun⟩

namespace Course

/-- Where a guide fails, the fault lies in the tokens. -/
def Blameless (g : Grammar) (guide : Guide) : Prop :=
  ∀ (rule : Rule) (p : Place) (e : ParseError), g.find? rule.name = some rule →
    guide rule p = .error e → LiesInTokens e.fault

theorem lookUp_ok {name : String} {rule : Rule} (found : g.find? name = some rule) (p : Place) :
    lookUp g name p = .ok rule := by
  rw [lookUp, found]

theorem alternatives_ok {terms : List String} (known : ∀ term ∈ terms, ∃ r, g.find? term = some r)
    (p : Place) : alternatives g p terms = .ok (terms.filterMap g.find?) := by
  induction terms with
  | nil => rfl
  | cons term rest ih =>
    obtain ⟨r, found⟩ := known term List.mem_cons_self
    rw [alternatives, lookUp_ok found, except_ok_bind,
      ih fun t member => known t (List.mem_cons_of_mem _ member), List.filterMap_cons_some found]
    rfl

theorem alternation_ok {terms : List String} (known : ∀ term ∈ terms, ∃ r, g.find? term = some r)
    {guide : Guide} {rule r : Rule} {p : Place}
    (choice : choose rule (terms.filterMap g.find?) p = .ok r) :
    alternation g guide rule terms p = guide r p := by
  rw [alternation, alternatives_ok known, except_ok_bind, choice]

theorem alternation_error {terms : List String} (known : ∀ term ∈ terms, ∃ r, g.find? term = some r)
    {guide : Guide} {rule : Rule} {p : Place} {fault : ParseFault}
    (choice : choose rule (terms.filterMap g.find?) p = .error fault) :
    alternation g guide rule terms p = stop rule.name fault p := by
  rw [alternation, alternatives_ok known, except_ok_bind, choice]

theorem option_ok {term : String} {r : Rule} (known : g.find? term = some r) {guide : Guide}
    {rule : Rule} {p next : Place} (tried : guide r p = .ok next) :
    option g guide rule term p = .ok next := by
  rw [option, lookUp_ok known, except_ok_bind, tried]

theorem option_error {term : String} {r : Rule} (known : g.find? term = some r) {guide : Guide}
    {rule : Rule} {p : Place} {e : ParseError} (tried : guide r p = .error e) :
    option g guide rule term p = leave rule e p := by
  rw [option, lookUp_ok known, except_ok_bind, tried]

theorem terminal_fault {rule : Rule} {p : Place} {e : ParseError}
    (failed : terminal rule p = .error e) : LiesInTokens e.fault := by
  unfold terminal at failed
  split at failed
  · cases failed
  · split at failed
    · split at failed <;> cases failed
      exact ⟨nofun, nofun⟩
    · cases failed
      exact ⟨nofun, nofun⟩

theorem leave_error {rule : Rule} {e e' : ParseError} {p : Place}
    (failed : leave rule e p = .error e') : e' = e := by
  unfold leave at failed
  split at failed <;> cases failed
  rfl

variable {guide : Guide} (blameless : Blameless g guide)

include blameless

theorem sequence_fault {terms : List String} (known : ∀ term ∈ terms, ∃ r, g.find? term = some r)
    {p : Place} {e : ParseError} (failed : sequence g guide terms p = .error e) :
    LiesInTokens e.fault := by
  induction terms generalizing p with
  | nil => cases failed
  | cons term rest ih =>
    obtain ⟨r, found⟩ := known term List.mem_cons_self
    rw [sequence, lookUp_ok found, except_ok_bind] at failed
    rcases except_bind_eq_error.1 failed with here | ⟨q, _, later⟩
    · exact blameless r p e (g.find?_name found ▸ found) here
    · exact ih (fun t member => known t (List.mem_cons_of_mem _ member)) later

theorem rounds_fault (rule : Rule) {term : Rule} (known : g.find? term.name = some term) {n : Nat}
    {p : Place} {e : ParseError} (failed : rounds guide rule term n p = .error e) :
    LiesInTokens e.fault := by
  induction n generalizing p with
  | zero => cases failed
  | succ n ih =>
    unfold rounds at failed
    split at failed
    · cases failed
    · split at failed
      · split at failed
        · cases failed
        · exact ih failed
      · next e' tried =>
        rw [leave_error failed]
        exact blameless term p e' known tried

theorem body_fault (terms : ∀ {name rule}, g.find? name = some rule →
    ∀ term ∈ rule.terms, ∃ r, g.find? term = some r) {rule : Rule}
    (known : g.find? rule.name = some rule) {p : Place} {e : ParseError}
    (failed : body g guide rule p = .error e) : LiesInTokens e.fault := by
  have terms := terms known
  rw [Rule.terms] at terms
  unfold body at failed
  cases shape : rule.body with
  | terminal | attrTerminal =>
    rw [shape] at failed
    exact terminal_fault failed
  | concatenation | attrProduction =>
    rw [shape] at failed terms
    exact sequence_fault blameless terms failed
  | alternation names =>
    rw [shape] at failed terms
    dsimp only [RuleBody.terms] at failed terms
    cases choice : choose rule (names.filterMap g.find?) p with
    | ok r =>
      obtain ⟨term, _, found⟩ := List.mem_filterMap.1 (mem_of_choose choice)
      rw [alternation_ok terms choice] at failed
      exact blameless r p e (g.find?_name found ▸ found) failed
    | error fault =>
      rw [alternation_error terms choice] at failed
      cases failed
      exact liesInTokens_choose choice
  | repetition term =>
    rw [shape] at failed terms
    obtain ⟨r, found⟩ := terms term List.mem_cons_self
    dsimp only at failed
    rw [lookUp_ok found, except_ok_bind] at failed
    exact rounds_fault blameless rule (g.find?_name found ▸ found) failed
  | option term =>
    rw [shape] at failed terms
    obtain ⟨r, found⟩ := terms term List.mem_cons_self
    dsimp only at failed
    cases tried : guide r p with
    | ok next =>
      rw [option_ok found tried] at failed
      cases failed
    | error e' =>
      rw [option_error found tried] at failed
      rw [leave_error failed]
      exact blameless r p e' (g.find?_name found ▸ found) tried

end Course

/-- A descent that does not fail at the bottom fails at the tokens only. -/
theorem blameless_descendTo (terms : ∀ {name rule}, g.find? name = some rule →
    ∀ term ∈ rule.terms, ∃ r, g.find? term = some r) (depth : Nat) :
    Course.Blameless g (Course.descendTo g (fun _ p => .ok p) depth) := by
  induction depth with
  | zero =>
    intro rule p e _ failed
    cases failed
  | succ depth ih =>
    intro rule p e known failed
    rw [Course.descendTo, Course.descend] at failed
    split at failed
    · exact Course.terminal_fault failed
    · exact Course.body_fault ih terms known failed

/-- Where a rule fails in a grammar without left recursion, the fault lies in the tokens. -/
theorem parseRule_fault (ranked : g.Ranked rank) {rule : Rule} (known : g.find? rule.name = some rule)
    {p : Place} {depth : Nat} (deep : g.rules.length * p.rest.length + rank rule.name < depth)
    {t after : ParseTree} {e : ParseError} (failed : parseRule g depth rule p t = .error e after) :
    LiesInTokens e.fault := by
  have still : Heeds (fun _ p => .ok p) (fun _ p => pure p) := fun _ p => takes_pure p
  have course := heeds_descendTo (g := g) still depth rule p t
  rw [← descendTo_eq ranked _ known deep deep t, failed] at course
  exact blameless_descendTo ranked.known depth rule p e known course.symm

end Parsing

namespace Grammar

open Parsing

/-- Reading with a rule comes to an end. Descent does not get below a depth that the numbers of rules
and tokens bound, since it makes no difference what would read there; and no repetition in it goes
through more rounds than there are tokens left. -/
structure Ends (g : Grammar) (rule : Rule) (tokens : List Token) (tree : ParseTree) : Prop where
  descent : ∀ bottom depth, g.rules.length * (tokens.length + 1) ≤ depth →
    descendTo g bottom depth rule (.start tokens) tree = g.parse rule tokens tree
  rounds : ∀ depth repeated term n p t, g.find? term.name = some term → p.rest.length < n →
    parseRounds (parseRule g depth) repeated term n p t =
      parseRounds (parseRule g depth) repeated term (p.rest.length + 1) p t

/-- Parsing with a rule of a grammar without left recursion comes to an end, finds every rule that it
looks up, and reads no token only if the rule can read nothing. -/
theorem parse_ends (calls : List Draft.Call) {title : String} {top : Option String} {g : Grammar}
    (built : (Draft.after calls).build title top = .ok g)
    (straight : ∀ name, ¬ LeftRecursive g.rules name) {name : String} {rule : Rule}
    (found : g.find? name = some rule) (tokens : List Token) (tree : ParseTree) :
    g.Ends rule tokens tree ∧
      (∀ e after, g.parse rule tokens tree = .error e after →
        e.fault ≠ .leftRecursion ∧ ∀ n, e.fault ≠ .unknownRule n) ∧
      ∀ place after, g.parse rule tokens tree = .ok place after → place.index = 0 →
        nullable ∈ rule.first := by
  have ranked := (Draft.build_solved (Draft.after_consistent calls) built).ranked straight
  have known : g.find? rule.name = some rule := g.find?_name found ▸ found
  have cheap := cost_lt ranked known tokens.length
  refine ⟨⟨fun bottom depth deep => ?_, ?_⟩, fun e after failed => ?_, fun place after read unread => ?_⟩
  · exact (descendTo_eq ranked bottom known (p := .start tokens) (Nat.lt_succ_of_lt cheap)
      (Nat.lt_of_lt_of_le cheap deep) tree).symm
  · intro depth repeated term n p t self enough
    exact parseRounds_eq (travels_parseRule g depth) repeated self enough (Nat.lt_succ_self _) t
  · exact parseRule_fault ranked known (p := .start tokens) (Nat.lt_succ_of_lt cheap) failed
  · obtain ⟨f, used, derived, _, index⟩ := travels_parseRule g _ rule _ place tree after known read
    rw [unread, Place.start, Nat.zero_add] at index
    rw [← firstSet_eq known]
    exact derived.vanishes ranked.toAnalysed (List.eq_nil_of_length_eq_zero index.symm) rule.name
      List.mem_cons_self

/-- The rest of a list, where a comma follows a comma. -/
theorem parse_ends_list :
    ∃ g rule, (Draft.after listCalls).build "list" (some "list") = .ok g ∧
      (∀ name, ¬ LeftRecursive g.rules name) ∧ g.find? "more" = some rule ∧
      g.Ends rule [⟨"comma", ",", {}⟩, ⟨"comma", ",", {}⟩] {} ∧
      (∀ e after, g.parse rule [⟨"comma", ",", {}⟩, ⟨"comma", ",", {}⟩] {} = .error e after →
        e.fault ≠ .leftRecursion ∧ ∀ n, e.fault ≠ .unknownRule n) ∧
      ∀ place after, g.parse rule [⟨"comma", ",", {}⟩, ⟨"comma", ",", {}⟩] {} = .ok place after →
        place.index = 0 → nullable ∈ rule.first := by
  obtain ⟨g, built, _, predictive, _, ⟨rule, found, _⟩, _⟩ := exists_list
  exact ⟨g, rule, built, predictive.straight, found, parse_ends listCalls built predictive.straight found
    [⟨"comma", ",", {}⟩, ⟨"comma", ",", {}⟩] {}⟩

end Grammar

end AttrGrammar
