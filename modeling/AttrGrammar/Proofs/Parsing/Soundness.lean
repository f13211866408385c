import AttrGrammar.Grammar.Draft
import AttrGrammar.Parsing.Descent
import AttrGrammar.Proofs.Parsing.Derivation
import AttrGrammar.Proofs.Tree.Graft

/-!
The parser records derivations.

A rule that is read at a place reads tokens that it derives, and grafts the trees of that
derivation under the active node; what an option or a repetition tried in vain leaves no trace. The
main statement is for a new tree: it holds the nodes of the derivation and no others, parents before
children.
-/

namespace AttrGrammar

open Forest Parsing

/-- A run that succeeds after a first step went through that step. -/
theorem bind_eq_ok {ε σ α β : Type} {x : EStateM ε σ α} {f : α → EStateM ε σ β} {s s' : σ} {b : β} :
    (x >>= f) s = .ok b s' ↔ ∃ a between, x s = .ok a between ∧ f a between = .ok b s' := by
  change (match x s with
    | .ok a between => f a between
    | .error e between => .error e between) = .ok b s' ↔ _
  cases x s with
  | ok a between =>
    constructor
    · intro done
      exact ⟨a, between, rfl, done⟩
    · rintro ⟨a', between', same, done⟩
      cases same
      exact done
  | error e between => simp

/-- One place lies some tokens after another. -/
def Place.Advances (p next : Place) (used : List Token) : Prop :=
  p.rest = used ++ next.rest ∧ next.index = p.index + used.length

theorem Place.advances_refl (p : Place) : p.Advances p [] := ⟨rfl, rfl⟩

theorem Place.Advances.trans {p q r : Place} {first second : List Token}
    (before : p.Advances q first) (after : q.Advances r second) :
    p.Advances r (first ++ second) := by
  obtain ⟨restBefore, indexBefore⟩ := before
  obtain ⟨restAfter, indexAfter⟩ := after
  constructor
  · rw [restBefore, restAfter, List.append_assoc]
  · rw [indexAfter, indexBefore, List.length_append, Nat.add_assoc]

namespace Parsing

variable {g : Grammar}

/-- Going from one place to another, a tree gained the trees that a sequence of terms derives. -/
def Reads (g : Grammar) (sequence : List String) (p : Place) (t : ParseTree) (next : Place)
    (after : ParseTree) : Prop :=
  ∃ f used, g.Derives sequence f used ∧ p.Advances next used ∧ after = t.graft f

/-- A reader that records derivations of the rules of the grammar. -/
def Sound (g : Grammar) (read : Reader) : Prop :=
  ∀ (rule : Rule) (p next : Place) (t after : ParseTree), g.find? rule.name = some rule →
    t.Growing → read rule p t = .ok next after → Reads g [rule.name] p t next after

/-- A tree with an active node, under which trees go side by side. -/
def Inside (t : ParseTree) : Prop := ∃ p, t.active = some p ∧ p < t.nodes.size

theorem Inside.growing {t : ParseTree} (inside : Inside t) : t.Growing := Or.inr inside

theorem Inside.graft {t : ParseTree} (inside : Inside t) (f : Forest Label) :
    Inside (t.graft f) := by
  obtain ⟨p, active, within⟩ := inside
  refine ⟨p, ?_, ?_⟩
  · rw [ParseTree.active_graft, active]
  · rw [ParseTree.size_nodes_graft]
    exact Nat.lt_add_right _ within

theorem Reads.refl {t : ParseTree} (growing : t.Growing) (p : Place) : Reads g [] p t p t :=
  ⟨.nil, [], .nil, p.advances_refl, (ParseTree.graft_nil growing).symm⟩

theorem Reads.trans {t between after : ParseTree} {p q next : Place} {first second : List String}
    (inside : Inside t) (front : Reads g first p t q between)
    (back : Reads g second q between next after) : Reads g (first ++ second) p t next after := by
  obtain ⟨f, used, derived, advanced, rfl⟩ := front
  obtain ⟨h, more, derivedBack, advancedBack, rfl⟩ := back
  obtain ⟨n, active, within⟩ := inside
  exact ⟨f ++ h, used ++ more, derived.append derivedBack, advanced.trans advancedBack,
    ParseTree.graft_graft active within f h⟩

theorem Reads.inside {t after : ParseTree} {p next : Place} {sequence : List String}
    (inside : Inside t) (reads : Reads g sequence p t next after) : Inside after := by
  obtain ⟨f, _, _, _, rfl⟩ := reads
  exact inside.graft f

/-- What was read into a new tree may be grafted. -/
theorem Reads.merge {t scratch : ParseTree} {p next : Place} {name : String} (inside : Inside t)
    (reads : Reads g [name] p {} next scratch) : Reads g [name] p t next (t.merge scratch) := by
  obtain ⟨f, used, derived, advanced, rfl⟩ := reads
  refine ⟨f, used, derived, advanced, ?_⟩
  rcases derived.single with rfl | ⟨label, children, rfl⟩
  · rw [ParseTree.graft_nil inside.growing, ParseTree.graft_nil ParseTree.growing_empty]
    rfl
  · exact ParseTree.merge_graft inside.growing label children

theorem resolve_eq_ok {name : String} {p : Place} {t after : ParseTree} {rule : Rule} :
    resolve g name p t = .ok rule after ↔ g.find? name = some rule ∧ after = t := by
  unfold resolve
  cases g.find? name with
  | none =>
    constructor
    · intro done
      cases done
    · rintro ⟨found, _⟩
      cases found
  | some found =>
    simp only [pure, EStateM.pure, EStateM.Result.ok.injEq, Option.some.injEq]
    exact and_congr_right fun _ => eq_comm

theorem parseTerminal_reads {rule : Rule} {p next : Place} {t after : ParseTree}
    (known : g.find? rule.name = some rule) (terminal : rule.isTerminal = true)
    (growing : t.Growing) (done : parseTerminal rule p t = .ok next after) :
    Reads g [rule.name] p t next after := by
  unfold parseTerminal at done
  by_cases silent : rule.name = nullable
  · rw [if_pos silent] at done
    cases done
    refine ⟨.nil, [], ?_, Place.advances_refl _, (ParseTree.graft_nil growing).symm⟩
    rw [silent] at known ⊢
    exact .nothing known terminal .nil
  · rw [if_neg silent] at done
    cases remaining : p.rest with
    | nil =>
      rw [remaining] at done
      cases done
    | cons token rest =>
      rw [remaining] at done
      dsimp only at done
      by_cases named : token.name = rule.name
      · rw [if_pos named] at done
        cases done
        refine ⟨.tree (.ofToken token rule.kind) .nil, [token],
          .token known terminal silent named .nil, ⟨remaining, rfl⟩, ?_⟩
        exact ParseTree.leaf_eq_graft t token rule.kind
      · rw [if_neg named] at done
        cases done

theorem parseSequence_reads {read : Reader} (sound : Sound g read) {terms : List String}
    {p next : Place} {t after : ParseTree} (inside : Inside t)
    (done : parseSequence g read terms p t = .ok next after) : Reads g terms p t next after := by
  induction terms generalizing p t with
  | nil =>
    cases done
    exact Reads.refl inside.growing next
  | cons term rest ih =>
    obtain ⟨rule, _, resolved, begun⟩ := bind_eq_ok.1 done
    obtain ⟨known, rfl⟩ := resolve_eq_ok.1 resolved
    obtain ⟨q, between, first, finished⟩ := bind_eq_ok.1 begun
    have name := g.find?_name known
    rw [← name] at known ⊢
    have head := sound rule p q _ between known inside.growing first
    exact head.trans inside (ih (head.inside inside) finished)

/-- The alternatives are the rules of the terms. -/
theorem candidates_known {p : Place} {terms : List String} {t after : ParseTree}
    {rules : List Rule} (done : candidates g p terms t = .ok rules after) :
    after = t ∧ ∀ rule ∈ rules, rule.name ∈ terms ∧ g.find? rule.name = some rule := by
  induction terms generalizing rules t after with
  | nil =>
    cases done
    exact ⟨rfl, by simp⟩
  | cons term rest ih =>
    obtain ⟨rule, _, resolved, begun⟩ := bind_eq_ok.1 done
    obtain ⟨known, rfl⟩ := resolve_eq_ok.1 resolved
    obtain ⟨others, _, more, finished⟩ := bind_eq_ok.1 begun
    obtain ⟨rfl, all⟩ := ih more
    cases finished
    refine ⟨rfl, fun candidate member => ?_⟩
    have name := g.find?_name known
    rcases List.mem_cons.1 member with rfl | later
    · exact ⟨name ▸ List.mem_cons_self, name ▸ known⟩
    · obtain ⟨listed, found⟩ := all candidate later
      exact ⟨List.mem_cons_of_mem _ listed, found⟩

/-- The alternative that is taken is one of them. -/
theorem mem_of_choose {rule chosen : Rule} {rules : List Rule} {p : Place}
    (choice : choose rule rules p = .ok chosen) : chosen ∈ rules := by
  unfold choose at choice
  split at choice
  · next only single =>
    cases choice
    exact (List.mem_filter.1 (single ▸ List.mem_singleton_self _)).1
  · split at choice
    · next only single =>
      cases choice
      exact (List.mem_filter.1 (single ▸ List.mem_singleton_self _)).1
    · split at choice <;> cases choice
  · cases choice

theorem parseAlternation_reads {read : Reader} (sound : Sound g read) {rule : Rule}
    {terms : List String} {p next : Place} {t after : ParseTree} (inside : Inside t)
    (done : parseAlternation g read rule terms p t = .ok next after) :
    ∃ term ∈ terms, Reads g [term] p t next after := by
  obtain ⟨rules, _, listed, chosen⟩ := bind_eq_ok.1 done
  obtain ⟨rfl, all⟩ := candidates_known listed
  cases choice : choose rule rules p with
  | ok term =>
    rw [choice] at chosen
    obtain ⟨member, known⟩ := all term (mem_of_choose choice)
    exact ⟨term.name, member, sound term p next _ after known inside.growing chosen⟩
  | error fault =>
    rw [choice] at chosen
    cases chosen

theorem parseOption_reads {read : Reader} (sound : Sound g read) {rule : Rule} {name : String}
    {p next : Place} {t after : ParseTree} (inside : Inside t)
    (done : parseOption g read rule name p t = .ok next after) :
    Reads g [] p t next after ∨ Reads g [name] p t next after := by
  obtain ⟨term, _, resolved, trial⟩ := bind_eq_ok.1 done
  obtain ⟨known, rfl⟩ := resolve_eq_ok.1 resolved
  have found := g.find?_name known
  rw [← found] at known ⊢
  cases tried : (read term p).run {} with
  | ok q scratch =>
    rw [tried] at trial
    cases trial
    exact Or.inr (Reads.merge inside
      (sound term p next {} scratch known ParseTree.growing_empty tried))
  | error e scratch =>
    rw [tried] at trial
    dsimp only at trial
    split at trial
    · cases trial
      exact Or.inl (Reads.refl inside.growing _)
    · cases trial

theorem parseRounds_reads {read : Reader} (sound : Sound g read) {rule term : Rule}
    (known : g.find? term.name = some term) {rounds : Nat} {p next : Place} {t after : ParseTree}
    (inside : Inside t) (done : parseRounds read rule term rounds p t = .ok next after) :
    ∃ n, Reads g (List.replicate n term.name) p t next after := by
  induction rounds generalizing p t with
  | zero =>
    cases done
    exact ⟨0, Reads.refl inside.growing next⟩
  | succ rounds ih =>
    unfold parseRounds at done
    split at done
    · cases done
      exact ⟨0, Reads.refl inside.growing next⟩
    · cases tried : (read term p).run {} with
      | ok q scratch =>
        rw [tried] at done
        dsimp only at done
        split at done
        · cases done
          exact ⟨0, Reads.refl inside.growing next⟩
        · obtain ⟨_, merged, step, others⟩ := bind_eq_ok.1 done
          cases step
          have first := Reads.merge inside
            (sound term p q {} scratch known ParseTree.growing_empty tried)
          obtain ⟨n, more⟩ := ih (first.inside inside) others
          exact ⟨n + 1, first.trans inside more⟩
      | error e scratch =>
        rw [tried] at done
        dsimp only at done
        split at done
        · cases done
          exact ⟨0, Reads.refl inside.growing next⟩
        · cases done

theorem not_terminal_of_body {rule : Rule} (production : rule.isTerminal = false) :
    (∀ m, rule.body ≠ .terminal m) ∧ rule.body ≠ .attrTerminal := by
  constructor
  · intro m body
    rw [Rule.isTerminal, Rule.kind, body] at production
    cases production
  · intro body
    rw [Rule.isTerminal, Rule.kind, body] at production
    cases production

/-- What a right-hand side reads, it allows. -/
theorem parseBody_reads {read : Reader} (sound : Sound g read) {rule : Rule}
    (production : rule.isTerminal = false) {p next : Place} {t after : ParseTree}
    (inside : Inside t) (done : parseBody g read rule p t = .ok next after) :
    ∃ sequence, rule.body.Allows sequence ∧ Reads g sequence p t next after := by
  unfold parseBody at done
  cases body : rule.body with
  | terminal m => exact absurd body ((not_terminal_of_body production).1 m)
  | attrTerminal => exact absurd body (not_terminal_of_body production).2
  | concatenation terms =>
    rw [body] at done
    exact ⟨terms, rfl, parseSequence_reads sound inside done⟩
  | attrProduction terms =>
    rw [body] at done
    exact ⟨terms, rfl, parseSequence_reads sound inside done⟩
  | alternation terms =>
    rw [body] at done
    obtain ⟨term, member, reads⟩ := parseAlternation_reads sound inside done
    exact ⟨[term], ⟨term, member, rfl⟩, reads⟩
  | repetition term =>
    rw [body] at done
    obtain ⟨known, _, resolved, rounds⟩ := bind_eq_ok.1 done
    obtain ⟨found, rfl⟩ := resolve_eq_ok.1 resolved
    have name := g.find?_name found
    rw [← name] at found ⊢
    obtain ⟨n, reads⟩ := parseRounds_reads sound found inside rounds
    exact ⟨_, ⟨n, rfl⟩, reads⟩
  | option term =>
    rw [body] at done
    rcases parseOption_reads sound inside done with nothing | once
    · exact ⟨[], Or.inl rfl, nothing⟩
    · exact ⟨[term], Or.inr rfl, once⟩

/-- A tree whose last step was to enter a node has that node active. -/
theorem inside_enter {t : ParseTree} (growing : t.Growing) (name : String) (kind : RuleKind) :
    Inside (t.enter name kind).2 := by
  rcases growing with rfl | ⟨p, active, within⟩
  · exact ⟨0, rfl, Nat.zero_lt_one⟩
  · refine ⟨t.nodes.size, rfl, ?_⟩
    rw [ParseTree.enter_of_active active within, Array.size_append, Array.size_modify]
    exact Nat.lt_succ_self _

/-- Reading a rule records a derivation, by induction on how deep rules nest. -/
theorem parseRule_sound (g : Grammar) (fuel : Nat) : Sound g (parseRule g fuel) := by
  induction fuel with
  | zero =>
    intro rule p next t after _ _ done
    cases done
  | succ fuel ih =>
    intro rule p next t after known growing done
    unfold parseRule at done
    by_cases terminal : rule.isTerminal = true
    · rw [if_pos terminal] at done
      exact parseTerminal_reads known terminal growing done
    · rw [if_neg terminal] at done
      have production : rule.isTerminal = false := by simpa using terminal
      obtain ⟨_, opened, enter, filling⟩ := bind_eq_ok.1 done
      obtain ⟨q, filled, body, closing⟩ := bind_eq_ok.1 filling
      obtain ⟨_, closed, close, finished⟩ := bind_eq_ok.1 closing
      cases enter
      cases close
      cases finished
      obtain ⟨sequence, allowed, f, used, derived, advanced, rfl⟩ :=
        parseBody_reads ih production (inside_enter growing rule.name rule.kind) body
      refine ⟨.tree (.inner rule.name rule.kind) f, used, ?_, advanced, ?_⟩
      · have single := Grammar.Derives.node known production allowed derived .nil
        rwa [List.append_nil] at single
      · exact ParseTree.close_graft_enter growing rule.name rule.kind f

end Parsing

/-- A finished tree that holds a derivation of tokens from a name, and no other node: the nodes stand
in the array parents before children, and the leaves are the tokens. -/
structure Grammar.Records (g : Grammar) (name : String) (used : List Token) (tree : ParseTree) :
    Prop where
  derivation : ∃ trees, g.Derives [name] trees used ∧
    tree = { nodes := ((trees.plant 0).nodes none 0).toArray, root := (trees.plant 0).tops.head? }
  closed : tree.isClosed = true
  ordered : tree.preOrder = List.range tree.nodes.size
  leaves : ((tree.root.toList.flatMap tree.leaves).filterMap tree.node?).map
      (fun n => (n.token, n.name, n.attrs)) =
    used.map fun token => (some token, token.name, token.attrs)

namespace Grammar

variable {g : Grammar}

/-- The tree of a derivation from one name records it. -/
theorem Derives.records {name : String} {trees : Forest Label} {used : List Token}
    (derives : g.Derives [name] trees used) :
    g.Records name used (({} : ParseTree).graft trees) := by
  rcases derives.single with rfl | ⟨label, children, rfl⟩
  · have leafless := derives.leaves
    rw [ParseTree.graft_nil ParseTree.growing_empty]
    exact ⟨⟨.nil, derives, rfl⟩, rfl, rfl, leafless⟩
  · have held : (({} : ParseTree).graft (tree label children)).Holds none 0
        ((tree label children).plant 0) := by
      apply ParseTree.holds_of_nodes (tree label children) [] []
      rw [ParseTree.graft_empty, List.append_nil]
      rfl
    have size : (({} : ParseTree).graft (tree label children)).nodes.size =
        (tree label children).size := by
      rw [ParseTree.size_nodes_graft]
      exact Nat.zero_add _
    have root : (({} : ParseTree).graft (tree label children)).root.toList =
        ((tree label children).plant 0).tops := by
      rw [ParseTree.graft_empty]
      rfl
    have enough : ((tree label children).plant 0).size ≤
        (({} : ParseTree).graft (tree label children)).nodes.size := by
      exact Nat.le_of_eq (by rw [size, size_plant])
    have order : (({} : ParseTree).graft (tree label children)).preOrder =
        ((tree label children).plant 0).places := by
      rw [ParseTree.preOrder, root]
      exact ParseTree.preOrderFrom_tops held _ enough
    refine ⟨⟨_, derives, ParseTree.graft_empty label children⟩, ?_, ?_, ?_⟩
    · exact ParseTree.isClosed_of_holds (by rw [ParseTree.graft_empty]) order held
    · rw [order, places_plant, size, List.range_eq_range']
    · have under : ((tree label children).plant 0).tops.flatMap
          (({} : ParseTree).graft (tree label children)).leaves =
            ((tree label children).plant 0).places.filter
              (({} : ParseTree).graft (tree label children)).isLeaf := by
        rw [← ParseTree.preOrderFrom_tops held _ enough]
        exact List.append_nil _
      rw [root, under, ParseTree.leaves_of_holds held, preorder_plant, derives.leaves]

theorem parse_reads {name : String} {rule : Rule} {tokens : List Token} {place : Place}
    {tree : ParseTree} (known : g.find? name = some rule)
    (parsed : g.parse rule tokens {} = .ok place tree) :
    Reads g [name] (.start tokens) {} place tree := by
  have named := g.find?_name known
  rw [← named] at known ⊢
  exact parseRule_sound g _ rule _ place {} tree known ParseTree.growing_empty parsed

/-- Reading all tokens is reading them with the top rule. -/
theorem buildTree_eq_ok {tokens : List Token} {tree : ParseTree}
    (built : g.buildTree tokens = .ok tree) :
    ∃ top place, g.find? g.top = some top ∧ g.parse top tokens {} = .ok place tree ∧
      place.rest = [] := by
  unfold buildTree at built
  cases known : g.find? g.top with
  | none =>
    rw [known] at built
    cases built
  | some top =>
    rw [known] at built
    dsimp only at built
    cases parsed : g.parse top tokens {} with
    | error e _ =>
      rw [parsed] at built
      cases built
    | ok place after =>
      rw [parsed] at built
      dsimp only at built
      cases remaining : place.rest with
      | nil =>
        rw [remaining] at built
        cases built
        exact ⟨top, place, rfl, parsed, remaining⟩
      | cons extra rest =>
        rw [remaining] at built
        cases built

/-- What a rule reads from the start of some tokens is a derivation of as many of them, and the new
tree records it; a tree that is built of all tokens records a derivation from the top rule. -/
theorem parse_records (g : Grammar) (tokens : List Token) :
    (∀ name rule place tree, g.find? name = some rule → g.parse rule tokens {} = .ok place tree →
      place.index ≤ tokens.length ∧ place.rest = tokens.drop place.index ∧
        g.Records name (tokens.take place.index) tree) ∧
    ∀ tree, g.buildTree tokens = .ok tree →
      ∃ top place, g.find? g.top = some top ∧ g.parse top tokens {} = .ok place tree ∧
        place.index = tokens.length ∧ g.Records g.top tokens tree := by
  constructor
  · intro name rule place tree known parsed
    obtain ⟨trees, used, derived, ⟨rest, index⟩, rfl⟩ := parse_reads known parsed
    simp only [Place.start, Nat.zero_add] at rest index
    rw [rest, index, List.length_append, List.drop_left, List.take_left]
    exact ⟨Nat.le_add_right _ _, rfl, derived.records⟩
  · intro tree built
    obtain ⟨top, place, known, parsed, rest⟩ := buildTree_eq_ok built
    obtain ⟨trees, used, derived, ⟨all, index⟩, rfl⟩ := parse_reads known parsed
    simp only [Place.start, Nat.zero_add, rest, List.append_nil] at all index
    subst all
    exact ⟨top, place, known, parsed, index, derived.records⟩

/-- An optional pair before one of its own first tokens: the option reads a token, fails, and must
leave nothing behind. -/
def optionalPair : Except GrammarError Grammar := do
  let d ← Draft.addAttrTerminal {} "x" []
  let d ← d.addAttrTerminal "y" []
  let d ← d.addConcatenation "pair" ["x", "y"]
  let d ← d.addOption "maybe" "pair"
  let d ← d.addConcatenation "top" ["maybe", "x"]
  d.build "pairs" (some "top")

theorem parse_records_optionalPair :
    ∃ g top place tree, optionalPair = .ok g ∧ g.find? g.top = some top ∧
      g.parse top [⟨"x", "1", {}⟩] {} = .ok place tree ∧
      g.Records g.top ([⟨"x", "1", {}⟩].take place.index) tree ∧
      g.buildTree [⟨"x", "1", {}⟩] = .ok tree ∧ g.Records g.top [⟨"x", "1", {}⟩] tree := by
  have runs : (match optionalPair with
      | .ok g => (g.buildTree [⟨"x", "1", {}⟩]).isOk
      | .error _ => false) = true := by decide +kernel
  cases made : optionalPair with
  | error e =>
    rw [made] at runs
    cases runs
  | ok g =>
    rw [made] at runs
    dsimp only at runs
    cases built : g.buildTree [⟨"x", "1", {}⟩] with
    | error e =>
      rw [built] at runs
      cases runs
    | ok tree =>
      obtain ⟨part, whole⟩ := parse_records g [⟨"x", "1", {}⟩]
      obtain ⟨top, place, known, parsed, _, records⟩ := whole tree built
      have prefixed := (part g.top top place tree known parsed).2.2
      exact ⟨g, top, place, tree, rfl, known, parsed, prefixed, built, records⟩

end Grammar

end AttrGrammar
