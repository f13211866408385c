import AttrGrammar.Proofs.Parsing.Analysed
import AttrGrammar.Proofs.Parsing.Soundness

/-!
Predictive grammars: the parser reads all that they derive.

The stored FIRST and FOLLOW sets of a predictive grammar are closed under their equations, one token
of lookahead settles every alternation, option and repetition, and no rule reaches itself without
reading a token. The main statement says that the top rule of such a grammar reads a list of tokens
if and only if it derives them.
-/

namespace AttrGrammar

open Parsing

namespace Grammar

/-- Two alternatives of a rule with the given FOLLOW set are told apart by the next token. -/
def Apart (g : Grammar) (follow : NameSet) (a b : String) : Prop :=
  (∀ next ∈ g.firstSet a, next ∉ g.firstSet b) ∧
    (nullable ∈ g.firstSet a → ∀ next ∈ g.firstSet b, next ∉ follow) ∧
    (nullable ∈ g.firstSet b → ∀ next ∈ g.firstSet a, next ∉ follow)

/-- One token of lookahead tells the alternatives of every alternation apart, and tells whether an
option or a repetition goes on. -/
structure OneToken (g : Grammar) : Prop where
  apart : ∀ {name rule terms}, g.find? name = some rule → rule.body = .alternation terms →
    terms.Pairwise (g.Apart rule.follow)
  leaving : ∀ {name rule term}, g.find? name = some rule →
    rule.body = .option term ∨ rule.body = .repetition term →
    ∀ next ∈ g.firstSet term, next ≠ nullable → next ∉ rule.follow

/-- The rank of a rule is above the ranks of the terms that it can reach before it reads a token. -/
structure Ranked (g : Grammar) (rank : String → Nat) : Prop extends g.Analysed where
  bounded : ∀ {name rule}, g.find? name = some rule → rank name < g.rules.length
  falling : ∀ {name rule before term after}, g.find? name = some rule →
    rule.body.Allows (before ++ term :: after) → g.Vanishes before → rank term < rank name

/-- One token of lookahead is enough. The rank of a rule is above the ranks of the terms that it can
reach before it reads a token. -/
structure Predictive (g : Grammar) (rank : String → Nat) : Prop extends g.Analysed, g.OneToken where
  bounded : ∀ {name rule}, g.find? name = some rule → rank name < g.rules.length
  falling : ∀ {name rule before term after}, g.find? name = some rule →
    rule.body.Allows (before ++ term :: after) → g.Vanishes before → rank term < rank name

theorem Predictive.ranked {g : Grammar} {rank : String → Nat} (predictive : g.Predictive rank) :
    g.Ranked rank where
  toAnalysed := predictive.toAnalysed
  bounded := predictive.bounded
  falling := predictive.falling

end Grammar

namespace Parsing

variable {g : Grammar} {rank : String → Nat}

/-- A reader reads what the rules of a grammar derive, up to a bound on the cost. Going on reading
costs one step for each rank, and as many steps as there are rules for each token. -/
def Accepts (g : Grammar) (rank : String → Nat) (read : Reader) (bound : Nat) : Prop :=
  ∀ {rule : Rule} {f : Forest Label} {used rest : List Token} (i : Nat) (t : ParseTree),
    g.find? rule.name = some rule → g.Derives [rule.name] f used → ahead rest ∈ rule.follow →
    ahead rest ≠ nullable →
    g.rules.length * (used ++ rest).length + rank rule.name < bound →
    ∃ after, read rule ⟨i, used ++ rest⟩ t = .ok ⟨i + used.length, rest⟩ after

/-- There is enough left for a sequence after `before` in a rule: for the rank of the rule while
nothing was read, or for one token more than are left. -/
def Affords (g : Grammar) (rank : String → Nat) (name : String) (before : List String)
    (left bound : Nat) : Prop :=
  g.Vanishes before ∧ g.rules.length * left + rank name ≤ bound ∨
    g.rules.length * (left + 1) ≤ bound

theorem bind_ok {ε σ α β : Type} {x : EStateM ε σ α} {f : α → EStateM ε σ β} {s between : σ} {a : α}
    (first : x s = .ok a between) : (x >>= f) s = f a between := by
  change (match x s with
    | .ok a between => f a between
    | .error e between => .error e between) = f a between
  rw [first]

theorem resolve_ok {name : String} {rule : Rule} (found : g.find? name = some rule) (p : Place)
    (t : ParseTree) : resolve g name p t = .ok rule t :=
  resolve_eq_ok.2 ⟨found, rfl⟩

/-- One term of a sequence costs less than the sequence. -/
theorem Affords.term (ranked : g.Ranked rank) {name : String} {rule r : Rule}
    {before after : List String} {term : String} {left bound : Nat}
    (found : g.find? name = some rule) (allowed : rule.body.Allows (before ++ term :: after))
    (known : g.find? term = some r) (affords : Affords g rank name before left bound) :
    g.rules.length * left + rank term < bound := by
  rcases affords with ⟨vanishes, enough⟩ | enough
  · have falls := ranked.falling found allowed vanishes
    omega
  · have below := ranked.bounded known
    rw [Nat.mul_succ] at enough
    omega

/-- After a term there is enough for the terms that are left. -/
theorem Affords.rest (ranked : g.Ranked rank) {name : String} {before : List String}
    {term : String} {f : Forest Label} {here later : List Token} {bound : Nat}
    (derives : g.Derives [term] f here)
    (affords : Affords g rank name before (here ++ later).length bound) :
    Affords g rank name (before ++ [term]) later.length bound := by
  have total : (here ++ later).length = here.length + later.length := List.length_append
  rw [total] at affords
  cases here with
  | nil =>
    rw [List.length_nil, Nat.zero_add] at affords
    rcases affords with ⟨vanishes, enough⟩ | enough
    · refine Or.inl ⟨fun t member => ?_, enough⟩
      rcases List.mem_append.1 member with earlier | last
      · exact vanishes t earlier
      · exact derives.vanishes ranked.toAnalysed rfl t last
    · exact Or.inr enough
  | cons token others =>
    right
    have fewer : later.length + 1 ≤ (token :: others).length + later.length := by
      rw [List.length_cons]
      omega
    have scaled := Nat.mul_le_mul_left g.rules.length fewer
    rcases affords with ⟨_, enough⟩ | enough
    · omega
    · rw [Nat.mul_succ] at enough
      omega

/-- What comes after a term of a rule can follow the term. -/
theorem ahead_mem_follow (predictive : g.Predictive rank) {name : String} {rule r : Rule}
    {before terms : List String} {term : String} {f : Forest Label} {used rest : List Token}
    (found : g.find? name = some rule) (allowed : rule.body.Allows (before ++ term :: terms))
    (known : g.find? term = some r) (derives : g.Derives terms f used)
    (follows : ahead rest ∈ rule.follow) (real : ahead rest ≠ nullable) :
    ahead (used ++ rest) ∈ r.follow := by
  rw [← Grammar.followSet_eq known]
  exact predictive.follow found allowed (derives.ahead_ne real) (derives.meets predictive.toAnalysed follows)

/-- The terms of a sequence are read in turn, by induction on those that are left. -/
theorem parseSequence_accepts (predictive : g.Predictive rank) {read : Reader} {bound : Nat}
    (accepts : Accepts g rank read bound) {name : String} {rule : Rule}
    (found : g.find? name = some rule) {terms before : List String}
    (allowed : rule.body.Allows (before ++ terms)) {f : Forest Label} {used rest : List Token}
    (derives : g.Derives terms f used) (follows : ahead rest ∈ rule.follow)
    (real : ahead rest ≠ nullable)
    (affords : Affords g rank name before (used ++ rest).length bound) (i : Nat) (t : ParseTree) :
    ∃ after, parseSequence g read terms ⟨i, used ++ rest⟩ t =
      .ok ⟨i + used.length, rest⟩ after := by
  induction terms generalizing before f used i t with
  | nil =>
    cases derives
    exact ⟨t, rfl⟩
  | cons term terms ih =>
    obtain ⟨front, back, here, later, rfl, rfl, first, others⟩ := derives.uncons
    obtain ⟨r, known⟩ := predictive.known found term
      (allowed.mem_terms term (List.mem_append_right before List.mem_cons_self))
    have named := g.find?_name known
    rw [List.append_assoc] at affords ⊢
    obtain ⟨between, read⟩ := accepts i t (named ▸ known) (named ▸ first)
      (ahead_mem_follow predictive found allowed known others follows real)
      (others.ahead_ne real) (named ▸ affords.term predictive.ranked found allowed known)
    have again : rule.body.Allows ((before ++ [term]) ++ terms) := by
      rwa [List.append_assoc]
    obtain ⟨after, finished⟩ := ih again others (affords.rest predictive.ranked first)
      (i + here.length) between
    refine ⟨after, ?_⟩
    rw [parseSequence, bind_ok (resolve_ok known _ t), bind_ok read, finished,
      List.length_append, Nat.add_assoc]

theorem candidates_ok {terms : List String} (known : ∀ term ∈ terms, ∃ r, g.find? term = some r)
    (p : Place) (t : ParseTree) :
    candidates g p terms t = .ok (terms.filterMap g.find?) t := by
  induction terms with
  | nil => rfl
  | cons term rest ih =>
    obtain ⟨r, found⟩ := known term List.mem_cons_self
    have others := ih fun t member => known t (List.mem_cons_of_mem _ member)
    rw [candidates, bind_ok (resolve_ok found p t), bind_ok others,
      List.filterMap_cons_some found]
    rfl

/-- Where no two members of a list have a property, one that has it is the only one. -/
theorem filter_eq_singleton {α : Type} (holds : α → Bool) {xs : List α} {x : α}
    (apart : xs.Pairwise fun a b => ¬ (holds a = true ∧ holds b = true)) (member : x ∈ xs)
    (here : holds x = true) : xs.filter holds = [x] := by
  induction xs with
  | nil => cases member
  | cons y rest ih =>
    obtain ⟨first, later⟩ := List.pairwise_cons.1 apart
    rcases List.mem_cons.1 member with rfl | member
    · have others : rest.filter holds = [] :=
        List.filter_eq_nil_iff.2 fun a inside also => first a inside ⟨here, also⟩
      rw [List.filter_cons_of_pos here, others]
    · rw [List.filter_cons_of_neg fun also => first x member ⟨also, here⟩, ih later member]

/-- The rules of the terms of an alternation are told apart like the terms. -/
theorem pairwise_rules {follow : NameSet} {terms : List String}
    (apart : terms.Pairwise (g.Apart follow)) :
    (terms.filterMap g.find?).Pairwise fun a b =>
      (∀ next ∈ a.first, next ∉ b.first) ∧
        (nullable ∈ a.first → ∀ next ∈ b.first, next ∉ follow) ∧
        (nullable ∈ b.first → ∀ next ∈ a.first, next ∉ follow) := by
  refine List.Pairwise.filterMap g.find? ?_ apart
  intro first second apart a here b there
  have eqFirst := Grammar.firstSet_eq here
  have eqSecond := Grammar.firstSet_eq there
  rw [Grammar.Apart, eqFirst, eqSecond] at apart
  exact apart

/-- The alternative that derives the next tokens is the one that is taken. -/
theorem choose_ok (predictive : g.Predictive rank) {name : String} {rule r : Rule}
    {terms : List String} {term : String} {f : Forest Label} {used rest : List Token}
    (found : g.find? name = some rule) (body : rule.body = .alternation terms)
    (member : term ∈ terms) (known : g.find? term = some r) (derives : g.Derives [term] f used)
    (follows : ahead rest ∈ rule.follow) (i : Nat) :
    choose rule (terms.filterMap g.find?) ⟨i, used ++ rest⟩ = .ok r := by
  have apart := pairwise_rules (predictive.apart found body)
  have listed : r ∈ terms.filterMap g.find? := List.mem_filterMap.2 ⟨term, member, known⟩
  change choose rule _ ⟨i, used ++ rest⟩ = _
  have seen : (Place.mk i (used ++ rest)).lookahead = ahead (used ++ rest) := rfl
  unfold choose
  rw [seen]
  by_cases begins : ahead (used ++ rest) ∈ r.first
  · rw [filter_eq_singleton _ (x := r) ?_ listed (by simpa using begins)]
    refine apart.imp fun {a b} apart both => ?_
    simp only [NameSet.contains_iff] at both
    exact apart.1 _ both.1 both.2
  · have meets := derives.meets predictive.toAnalysed follows
    simp only [Grammar.Meets, Grammar.firstSet_eq known] at meets
    obtain ⟨silent, next⟩ := meets.resolve_left begins
    have others : (terms.filterMap g.find?).filter
        (fun other => other.first.contains (ahead (used ++ rest))) = [] := by
      refine List.filter_eq_nil_iff.2 fun other inside also => ?_
      have also : ahead (used ++ rest) ∈ other.first := by simpa using also
      have differs : r ≠ other := fun same => begins (same ▸ also)
      exact List.Pairwise.forall_of_forall_of_flip
        (R := fun a b => a ≠ b → nullable ∈ a.first → ∀ next ∈ b.first, next ∉ rule.follow)
        (fun x _ other => absurd rfl other) (apart.imp fun {a b} apart _ => apart.2.1)
        (apart.imp fun {a b} apart _ => apart.2.2) listed inside differs silent _ also next
    have only := filter_eq_singleton (·.isNullable) (x := r)
      (apart.imp fun {a b} apart both => by
        simp only [Rule.isNullable, NameSet.contains_iff] at both
        exact apart.1 _ both.1 both.2) listed (by simpa [Rule.isNullable] using silent)
    rw [others, only]

theorem parseAlternation_accepts (predictive : g.Predictive rank) {read : Reader} {bound : Nat}
    (accepts : Accepts g rank read bound) {name : String} {rule : Rule} {terms : List String}
    (found : g.find? name = some rule) (body : rule.body = .alternation terms) {term : String}
    (member : term ∈ terms) {f : Forest Label} {used rest : List Token}
    (derives : g.Derives [term] f used) (follows : ahead rest ∈ rule.follow)
    (real : ahead rest ≠ nullable)
    (affords : Affords g rank name [] (used ++ rest).length bound) (i : Nat) (t : ParseTree) :
    ∃ after, parseAlternation g read rule terms ⟨i, used ++ rest⟩ t =
      .ok ⟨i + used.length, rest⟩ after := by
  have allowed : rule.body.Allows ([] ++ term :: []) := by
    rw [body]
    exact ⟨term, member, rfl⟩
  have all : ∀ term ∈ terms, ∃ r, g.find? term = some r := by
    intro term member
    exact predictive.known found term (by rwa [Rule.terms, body])
  obtain ⟨r, known⟩ := all term member
  have named := g.find?_name known
  obtain ⟨after, read⟩ := accepts i t (named ▸ known) (named ▸ derives)
    (ahead_mem_follow predictive found allowed known .nil follows real) real
    (named ▸ affords.term predictive.ranked found allowed known)
  refine ⟨after, ?_⟩
  rw [parseAlternation, bind_ok (candidates_ok all _ t),
    choose_ok predictive found body member known derives follows i]
  exact read

/-- A term that is tried where its rule can be left reads nothing. -/
theorem trial_reads_nothing (predictive : g.Predictive rank) {read : Reader}
    (sound : Sound g read) {name term : String} {rule r : Rule} (found : g.find? name = some rule)
    (body : rule.body = .option term ∨ rule.body = .repetition term)
    (known : g.find? term = some r) {i : Nat} {rest : List Token} {next : Place}
    {scratch : ParseTree} (follows : ahead rest ∈ rule.follow)
    (tried : read r ⟨i, rest⟩ {} = .ok next scratch) : next = ⟨i, rest⟩ := by
  have named := g.find?_name known
  obtain ⟨f, used, derived, ⟨split, index⟩, _⟩ :=
    sound r ⟨i, rest⟩ next {} scratch (named ▸ known) ParseTree.growing_empty tried
  dsimp only at split index
  cases used with
  | nil =>
    obtain ⟨j, others⟩ := next
    cases split
    cases index
    rfl
  | cons token later =>
    have visible := derived.visible token List.mem_cons_self
    have begins := derived.begins predictive.toAnalysed rfl
    rw [named] at begins
    have here : token.name ∈ g.firstSet term :=
      begins.resolve_right fun beyond => NameSet.not_mem_empty beyond.2
    rw [split] at follows
    exact absurd follows (predictive.leaving found body _ here visible)

theorem parseOption_accepts (predictive : g.Predictive rank) {read : Reader} {bound : Nat}
    (accepts : Accepts g rank read bound) (sound : Sound g read) {name term : String} {rule : Rule}
    (found : g.find? name = some rule) (body : rule.body = .option term)
    {sequence : List String} (allowed : sequence = [] ∨ sequence = [term]) {f : Forest Label}
    {used rest : List Token} (derives : g.Derives sequence f used)
    (follows : ahead rest ∈ rule.follow) (real : ahead rest ≠ nullable)
    (affords : Affords g rank name [] (used ++ rest).length bound) (i : Nat) (t : ParseTree) :
    ∃ after, parseOption g read rule term ⟨i, used ++ rest⟩ t =
      .ok ⟨i + used.length, rest⟩ after := by
  have once : rule.body.Allows ([] ++ term :: []) := by
    rw [body]
    exact Or.inr rfl
  obtain ⟨r, known⟩ := predictive.known found term (by rw [Rule.terms, body]; exact List.mem_cons_self)
  rw [parseOption, bind_ok (resolve_ok known _ t)]
  rcases allowed with rfl | rfl
  · cases derives
    rw [List.nil_append]
    cases tried : read r ⟨i, rest⟩ {} with
    | ok next scratch =>
      cases trial_reads_nothing predictive sound found (Or.inl body) known follows tried
      refine ⟨t.merge scratch, ?_⟩
      rw [EStateM.run, tried]
      rfl
    | error e scratch =>
      refine ⟨t, ?_⟩
      have leave : rule.follow.contains (Place.mk i rest).lookahead = true :=
        NameSet.contains_iff.2 follows
      rw [EStateM.run, tried]
      dsimp only
      rw [if_pos leave]
      rfl
  · have named := g.find?_name known
    obtain ⟨scratch, read⟩ := accepts i {} (named ▸ known) (named ▸ derives)
      (ahead_mem_follow predictive found once known .nil follows real) real
      (named ▸ affords.term predictive.ranked found once known)
    rw [List.nil_append] at read
    refine ⟨t.merge scratch, ?_⟩
    rw [EStateM.run, read]
    rfl

/-- A repetition that can be left is left where it stands. -/
theorem parseRounds_left (predictive : g.Predictive rank) {read : Reader} (sound : Sound g read)
    {name term : String} {rule r : Rule} (found : g.find? name = some rule)
    (body : rule.body = .repetition term) (known : g.find? term = some r) {rest : List Token}
    (follows : ahead rest ∈ rule.follow) (rounds i : Nat) (t : ParseTree) :
    parseRounds read rule r (rounds + 1) ⟨i, rest⟩ t = .ok ⟨i, rest⟩ t := by
  unfold parseRounds
  by_cases ended : rest.isEmpty = true
  · rw [if_pos ended]
    rfl
  · rw [if_neg ended]
    cases tried : read r ⟨i, rest⟩ {} with
    | ok next scratch =>
      cases trial_reads_nothing predictive sound found (Or.inr body) known follows tried
      rw [EStateM.run, tried]
      dsimp only
      rw [if_pos rfl]
      rfl
    | error e scratch =>
      have leave : rule.follow.contains (Place.mk i rest).lookahead = true :=
        NameSet.contains_iff.2 follows
      rw [EStateM.run, tried]
      dsimp only
      rw [if_pos leave]
      rfl

/-- A round that reads something is followed by the next one. -/
theorem parseRounds_moved {read : Reader} {rule r : Rule} {i : Nat} {tokens : List Token}
    {next : Place} {scratch : ParseTree} (tried : read r ⟨i, tokens⟩ {} = .ok next scratch)
    (nonempty : tokens ≠ []) (moved : next.index ≠ i) (rounds : Nat) (t : ParseTree) :
    parseRounds read rule r (rounds + 1) ⟨i, tokens⟩ t =
      parseRounds read rule r rounds next (t.merge scratch) := by
  have graft : (modify (fun t => t.merge scratch) : ParseM PUnit) t =
      .ok ⟨⟩ (t.merge scratch) := rfl
  rw [parseRounds, if_neg (by simpa using nonempty), EStateM.run, tried]
  dsimp only
  rw [if_neg moved, bind_ok graft]

/-- The rounds of a repetition are read in turn. A round that reads nothing is passed over. -/
theorem parseRounds_accepts (predictive : g.Predictive rank) {read : Reader} {bound : Nat}
    (accepts : Accepts g rank read bound) (sound : Sound g read) {name term : String}
    {rule r : Rule} (found : g.find? name = some rule) (body : rule.body = .repetition term)
    (known : g.find? term = some r) {n rounds : Nat} {f : Forest Label} {used rest : List Token}
    (derives : g.Derives (List.replicate n term) f used) (follows : ahead rest ∈ rule.follow)
    (real : ahead rest ≠ nullable)
    (enough : g.rules.length * (used ++ rest).length + rank name ≤ bound)
    (left : (used ++ rest).length < rounds) (i : Nat) (t : ParseTree) :
    ∃ after, parseRounds read rule r rounds ⟨i, used ++ rest⟩ t =
      .ok ⟨i + used.length, rest⟩ after := by
  induction n generalizing f used rounds i t with
  | zero =>
    cases derives
    rw [List.nil_append] at left ⊢
    obtain ⟨more, rfl⟩ := Nat.exists_eq_succ_of_ne_zero (Nat.ne_zero_of_lt left)
    exact ⟨t, parseRounds_left predictive sound found body known follows more i t⟩
  | succ n ih =>
    obtain ⟨front, back, here, later, rfl, rfl, first, others⟩ := derives.uncons
    rw [List.append_assoc] at enough left ⊢
    rw [List.length_append] at enough left
    cases here with
    | nil =>
      rw [List.length_nil, Nat.zero_add] at enough left
      exact ih others enough left i t
    | cons token tail =>
      have allowed : rule.body.Allows ([] ++ term :: List.replicate n term) := by
        rw [body]
        exact ⟨n + 1, rfl⟩
      have named := g.find?_name known
      have fall := predictive.falling found allowed (by simp [Grammar.Vanishes])
      have shorter : g.rules.length * (later ++ rest).length ≤
          g.rules.length * ((token :: tail).length + (later ++ rest).length) :=
        Nat.mul_le_mul_left _ (Nat.le_add_left _ _)
      obtain ⟨scratch, read⟩ := accepts i {} (named ▸ known) (named ▸ first)
        (ahead_mem_follow predictive found allowed known others follows real)
        (others.ahead_ne real) (by rw [named, List.length_append]; omega)
      obtain ⟨more, rfl⟩ := Nat.exists_eq_succ_of_ne_zero (Nat.ne_zero_of_lt left)
      have fewer : (later ++ rest).length < more := by
        rw [List.length_cons] at left
        omega
      obtain ⟨after, finished⟩ := ih others (by omega) fewer (i + (token :: tail).length)
        (t.merge scratch)
      refine ⟨after, ?_⟩
      rw [List.cons_append] at read ⊢
      have moved : i + (token :: tail).length ≠ i := by
        rw [List.length_cons]
        omega
      rw [parseRounds_moved read (List.cons_ne_nil _ _) moved, finished, List.length_append,
        Nat.add_assoc]

theorem parseBody_accepts (predictive : g.Predictive rank) {read : Reader} {bound : Nat}
    (accepts : Accepts g rank read bound) (sound : Sound g read) {name : String} {rule : Rule}
    (found : g.find? name = some rule) {sequence : List String}
    (allowed : rule.body.Allows sequence) {f : Forest Label} {used rest : List Token}
    (derives : g.Derives sequence f used) (follows : ahead rest ∈ rule.follow)
    (real : ahead rest ≠ nullable)
    (enough : g.rules.length * (used ++ rest).length + rank name ≤ bound) (i : Nat)
    (t : ParseTree) :
    ∃ after, parseBody g read rule ⟨i, used ++ rest⟩ t = .ok ⟨i + used.length, rest⟩ after := by
  have affords : Affords g rank name [] (used ++ rest).length bound :=
    Or.inl ⟨by simp [Grammar.Vanishes], enough⟩
  unfold parseBody
  cases body : rule.body with
  | terminal m =>
    rw [body] at allowed
    exact allowed.elim
  | attrTerminal =>
    rw [body] at allowed
    exact allowed.elim
  | concatenation terms | attrProduction terms =>
    have same : sequence = terms := by
      rwa [body] at allowed
    subst same
    have whole : rule.body.Allows ([] ++ sequence) := allowed
    exact parseSequence_accepts predictive accepts found whole derives follows real affords i t
  | alternation terms =>
    rw [body] at allowed
    obtain ⟨term, member, rfl⟩ := allowed
    exact parseAlternation_accepts predictive accepts found body member derives follows real
      affords i t
  | repetition term =>
    rw [body] at allowed
    obtain ⟨n, rfl⟩ := allowed
    obtain ⟨r, known⟩ := predictive.known found term
      (by rw [Rule.terms, body]; exact List.mem_cons_self)
    dsimp only
    rw [parseRepetition, bind_ok (resolve_ok known _ t)]
    exact parseRounds_accepts predictive accepts sound found body known derives follows real
      enough (Nat.lt_succ_self _) i t
  | option term =>
    rw [body] at allowed
    exact parseOption_accepts predictive accepts sound found body allowed derives follows real
      affords i t

/-- A rule is read where its tokens stand, by induction on how deep rules nest. -/
theorem parseRule_accepts (predictive : g.Predictive rank) (fuel : Nat) :
    Accepts g rank (parseRule g fuel) fuel := by
  induction fuel with
  | zero =>
    intro rule f used rest i t _ _ _ _ enough
    exact absurd enough (Nat.not_lt_zero _)
  | succ fuel ih =>
    intro rule f used rest i t known derives follows real enough
    unfold parseRule
    generalize named : rule.name = name at known derives enough
    cases derives with
    | nothing found terminal others =>
      cases found.symm.trans known
      cases others
      rw [if_pos terminal, parseTerminal, if_pos named]
      exact ⟨t, rfl⟩
    | @token _ _ token _ _ _ found terminal visible called others =>
      cases found.symm.trans known
      cases others
      refine ⟨(t.leaf token rule.kind).2, ?_⟩
      rw [if_pos terminal, parseTerminal, if_neg (named ▸ visible)]
      dsimp only [List.cons_append]
      rw [if_pos (called.trans named.symm)]
      rfl
    | node found production allowed body others =>
      cases found.symm.trans known
      cases others
      rw [List.append_nil] at enough ⊢
      obtain ⟨filled, read⟩ := parseBody_accepts predictive ih (parseRule_sound g fuel) known
        allowed body follows real (Nat.le_of_lt_succ enough) i (t.enter name rule.kind).2
      have enter : (modify (fun t => (t.enter name rule.kind).2) : ParseM PUnit) t =
          .ok ⟨⟩ (t.enter name rule.kind).2 := rfl
      refine ⟨filled.close.2, ?_⟩
      rw [if_neg (by simp [production]), bind_ok enter, bind_ok read]
      rfl

end Parsing

namespace Grammar

variable {g : Grammar} {rank : String → Nat}

/-- A predictive grammar reads all tokens of a list if and only if its top rule derives them, given
that the end of the input can follow that rule. -/
theorem Predictive.buildTree_iff (predictive : g.Predictive rank) {top : Rule}
    (found : g.find? g.top = some top) (ends : endOfInput ∈ top.follow) (tokens : List Token) :
    (∃ tree, g.buildTree tokens = .ok tree) ↔ ∃ trees, g.Derives [g.top] trees tokens := by
  constructor
  · rintro ⟨tree, built⟩
    obtain ⟨top, place, known, parsed, rest⟩ := buildTree_eq_ok built
    obtain ⟨trees, used, derived, ⟨all, _⟩, _⟩ := parse_reads known parsed
    rw [rest, List.append_nil] at all
    cases all
    exact ⟨trees, derived⟩
  · rintro ⟨trees, derived⟩
    have named := g.find?_name found
    have below := predictive.bounded found
    have cost : g.rules.length * tokens.length + rank g.top <
        g.rules.length * (tokens.length + 1) + 1 := by
      rw [Nat.mul_succ]
      omega
    have ended : ahead [] ∈ top.follow := ends
    obtain ⟨tree, read⟩ := parseRule_accepts predictive
      (g.rules.length * (tokens.length + 1) + 1) 0 {} (named ▸ found) (named ▸ derived) ended
      (by decide) (by rwa [List.append_nil, named])
    rw [List.append_nil] at read
    refine ⟨tree, ?_⟩
    rw [buildTree, found]
    dsimp only
    rw [parse, EStateM.run, Place.start, read]

end Grammar

end AttrGrammar
