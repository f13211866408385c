import AttrGrammar.Proofs.Grammar.Built
import AttrGrammar.Proofs.Grammar.Detour

/-!
The order of calls.

FIRST sets are stored when they are asked for, and a set that is computed inside another one may be
stored without what the unfinished one adds. It is complete all the same unless the two rules lead to
each other. So the sets of a grammar depend on its definitions only, where no two rules do. The sets
that are stored are compared with those of the rules that do not refer to themselves, call by call.
-/

namespace AttrGrammar

/-- What a rule is known by: its name and its right-hand side. -/
def Rule.definition (rule : Rule) : String × RuleBody := (rule.name, rule.body)

def definitions (rules : List Rule) : List (String × RuleBody) := rules.map Rule.definition

section

variable {rules others : List Rule}

theorem definitions_append (rules others : List Rule) :
    definitions (rules ++ others) = definitions rules ++ definitions others := List.map_append

theorem names_definitions (rules : List Rule) :
    (definitions rules).map Prod.fst = rules.map Rule.name := by
  rw [definitions, List.map_map]
  rfl

theorem definitions_map {f : Rule → Rule} (named : ∀ rule, (f rule).name = rule.name)
    (body : ∀ rule, (f rule).body = rule.body) (rules : List Rule) :
    definitions (rules.map f) = definitions rules := by
  rw [definitions, List.map_map]
  refine List.map_congr_left fun rule _ => ?_
  rw [Function.comp_apply, Rule.definition, named, body]
  rfl

theorem Coherent.definitions (coherent : Coherent rules others) :
    definitions others = definitions rules := by
  have same := congrArg (List.map Rule.definition) coherent.same
  rwa [List.map_map, List.map_map] at same

theorem names_perm (same : (definitions rules).Perm (definitions others)) :
    (rules.map Rule.name).Perm (others.map Rule.name) := by
  rw [← names_definitions, ← names_definitions]
  exact same.map Prod.fst

theorem exists_definition (same : (definitions rules).Perm (definitions others)) :
    ∀ rule ∈ rules, ∃ other ∈ others, other.name = rule.name ∧ other.body = rule.body := by
  intro rule listed
  obtain ⟨other, member, same⟩ := List.mem_map.1 (same.mem_iff.1 (List.mem_map_of_mem listed))
  exact ⟨other, member, congrArg Prod.fst same, congrArg Prod.snd same⟩

/-- Equal definitions in any order. -/
theorem SharedPart.of_perm (distinct : (rules.map Rule.name).Nodup)
    (same : (definitions rules).Perm (definitions others)) :
    SharedPart rules others fun _ => True where
  same name _ := by
    have distinct' : (others.map Rule.name).Nodup := (names_perm same).nodup_iff.1 distinct
    cases found : findRule? rules name with
    | some rule =>
      obtain ⟨other, listed, named, body⟩ :=
        exists_definition same rule (List.mem_of_find?_eq_some found)
      rw [← findRule?_name found, ← named, findRule?_of_mem distinct' listed, Option.map_some,
        Option.map_some, body]
    | none =>
      cases known : findRule? others name with
      | none => rfl
      | some other =>
        have there := (names_perm same).mem_iff.2 (mem_names_of_find? known)
        obtain ⟨rule, listed, rfl⟩ := List.mem_map.1 there
        cases found.symm.trans (findRule?_of_mem distinct listed)
  closed _ _ _ _ _ _ := trivial

/-- What two lists of rules share is shared where no rule refers to itself. -/
theorem SharedPart.detoured {dead : String} {inside : String → Prop}
    (shared : SharedPart rules others inside) (gap : findRule? rules dead = none)
    (gap' : findRule? others dead = none) :
    SharedPart (detoured dead rules) (detoured dead others) fun n => n = dead ∨ inside n where
  same name here := by
    rw [findRule?_detoured, findRule?_detoured]
    rcases here with rfl | here
    · rw [gap, gap']
    · have body : ∀ rules, ((findRule? rules name).map (Rule.detoured dead)).map Rule.body =
          ((findRule? rules name).map Rule.body).map (RuleBody.rename (detour dead name)) := by
        intro rules
        cases found : findRule? rules name with
        | none => rfl
        | some rule =>
          rw [← findRule?_name found]
          rfl
      rw [body, body, shared.same name here]
  closed name rule here found := by
    rw [findRule?_detoured, Option.map_eq_some_iff] at found
    obtain ⟨rule, found, rfl⟩ := found
    rcases here with rfl | here
    · cases gap.symm.trans found
    · intro term refers
      rw [Rule.terms, Rule.detoured, RuleBody.terms_rename, List.mem_map] at refers
      obtain ⟨original, refers, rfl⟩ := refers
      unfold detour
      split
      · exact Or.inl rfl
      · exact Or.inr (shared.closed name rule here found original refers)

end

/-- One request. -/
theorem firstOf_coherent {dead : String} {base rules : List Rule}
    (distinct : (base.map Rule.name).Nodup) (gap : findRule? rules dead = none)
    (coherent : Coherent (detoured dead base) (detoured dead rules)) (name : String) :
    findRule? (firstOf (rules.length + 1) [] rules name).2 dead = none ∧
      Coherent (detoured dead base) (detoured dead (firstOf (rules.length + 1) [] rules name).2) := by
  have visited : Visited dead [] rules := ⟨gap, fun _ member => absurd member List.not_mem_nil⟩
  obtain ⟨after, same⟩ := firstOf_detoured (rules.length + 1) name visited
  have size : (detoured dead rules).length = rules.length := List.length_map ..
  have stays := (firstOf_request (names_detoured dead base ▸ distinct) coherent name).1.coherent
  rw [size, same] at stays
  exact ⟨after.gap, stays⟩

/-- Requests one after the other. -/
theorem foldl_firstOf_coherent {dead : String} {base : List Rule}
    (distinct : (base.map Rule.name).Nodup) (names : List String) {rules : List Rule}
    (gap : findRule? rules dead = none)
    (coherent : Coherent (detoured dead base) (detoured dead rules)) :
    let out := names.foldl (fun rules name => (firstOf (rules.length + 1) [] rules name).2) rules
    findRule? out dead = none ∧ Coherent (detoured dead base) (detoured dead out) := by
  induction names generalizing rules with
  | nil => exact ⟨gap, coherent⟩
  | cons first rest ih =>
    obtain ⟨gap, coherent⟩ := firstOf_coherent distinct gap coherent first
    exact ih gap coherent

namespace Draft

/-- The stored sets are those of rules that refer to `dead` instead of themselves. -/
structure Transparent (dead : String) (rules : List Rule) : Prop where
  gap : findRule? rules dead = none
  coherent : Coherent (detoured dead rules) (detoured dead rules)

section

variable {dead : String}

/-- A new rule leaves the rules before it as they are, and it has a set only if it is a terminal. -/
theorem Transparent.insert {d d' : Draft} {rule : Rule} (consistent : Consistent d.rules)
    (transparent : Transparent dead d.rules) (other : rule.name ≠ dead)
    (terminal : rule.firstKnown = true →
      rule.isTerminal = true ∧ ∀ x, x ∈ rule.first ↔ x = rule.name)
    (inserted : d.insert rule = .ok d') (after : Consistent d'.rules) :
    Transparent dead d'.rules := by
  rw [insert_eq] at inserted
  split at inserted
  · cases inserted
  · cases inserted
    obtain ⟨f, same, refreshed⟩ := refresh_eq_map (d.rules ++ [rule])
    have named := fun rule => (refreshed rule).name
    have body := fun rule => (refreshed rule).body
    dsimp only at after ⊢
    rw [same] at after ⊢
    have gap : findRule? (d.rules ++ [rule]) dead = none := by
      rw [findRule?, List.find?_append, ← findRule?, transparent.gap, Option.none_or]
      exact List.find?_eq_none.2 (by simpa using other)
    have gap' : findRule? ((d.rules ++ [rule]).map f) dead = none := by
      rw [findRule?_map named, gap]
      rfl
    have distinct : ((d.rules ++ [rule]).map Rule.name).Nodup := by
      have distinct := after.distinct
      rw [List.map_map] at distinct
      simpa only [Function.comp_def, named] using distinct
    have before : ∀ r ∈ d.rules ++ [rule], r.firstKnown = true →
        (r.detoured dead).Exact (detoured dead (d.rules ++ [rule])) := by
      intro r listed known
      rcases List.mem_append.1 listed with old | new
      · have ready := consistent.hasFirst_of_known old known
        have exact := transparent.coherent.exact _ (List.mem_map_of_mem old) ready
        have whole := consistent.whole_of_hasFirst old ready
        exact ((sharedPart_append [rule]).detoured transparent.gap gap).exact (Or.inr whole) exact
      · cases List.mem_singleton.1 new
        obtain ⟨terminal, only⟩ := terminal known
        have found : findRule? (detoured dead (d.rules ++ [rule])) (rule.detoured dead).name =
            some (rule.detoured dead) := by
          change findRule? _ rule.name = _
          rw [findRule?_detoured, findRule?_of_mem distinct listed]
          rfl
        have formed : (rule.detoured dead).isTerminal = true :=
          (isTerminal_detoured dead rule).trans terminal
        exact (Rule.exact_terminal_iff found formed).2 only
    refine ⟨gap', rfl, ?_, ?_⟩
    · rw [detoured, List.forall_mem_map]
      exact fun rule listed gap => { after.coherent.blank rule listed gap with }
    · rw [detoured, List.forall_mem_map, List.forall_mem_map]
      intro r listed ready
      obtain ⟨known, resolved⟩ := Rule.hasFirst_iff.1 ready
      obtain ⟨first, still⟩ := (refreshed r).first resolved
      have exact := before r listed (still ▸ known)
      have moved := ((SharedPart.map named body _).detoured gap gap').exact (Or.inr trivial) exact
      have kept : ((f r).detoured dead).name = (r.detoured dead).name := named r
      exact moved.congr kept first

/-- One call that replaces no rule, and does not define `dead`. -/
theorem Transparent.call {d d' : Draft} {c : Call} (consistent : Consistent d.rules)
    (transparent : Transparent dead d.rules) (plain : ∀ name, c ≠ .makeTerminal name)
    (other : ∀ rule, c.rule? = some rule → rule.name ≠ dead) (called : d.call c = .ok d') :
    Transparent dead d'.rules := by
  have after := consistent.call called
  rcases call_cases called with ⟨rule, defines, inserted⟩ | ⟨name, rfl, -⟩ | ⟨name, first, -, found⟩
  · exact transparent.insert consistent (other rule defines) (Call.terminal_of_known defines)
      inserted after
  · exact absurd rfl (plain name)
  · rw [firstSet_eq] at found
    split at found
    · cases found
      obtain ⟨gap, coherent⟩ :=
        firstOf_coherent consistent.distinct transparent.gap transparent.coherent name
      exact ⟨gap, coherent.self⟩
    · cases found

/-- All calls. -/
theorem after_transparent {calls : List Call} (plain : ∀ name, .makeTerminal name ∉ calls)
    (other : ∀ rule ∈ calls.filterMap Call.rule?, rule.name ≠ dead) :
    Transparent dead (after calls).rules := by
  have run : ∀ d : Draft, Consistent d.rules → Transparent dead d.rules →
      Transparent dead (calls.foldl next d).rules := by
    induction calls with
    | nil => exact fun _ _ transparent => transparent
    | cons c rest ih =>
      intro d consistent transparent
      have later := fun rule (listed : rule ∈ rest.filterMap Call.rule?) =>
        other rule (List.mem_filterMap.2
          (let ⟨call, member, defines⟩ := List.mem_filterMap.1 listed
          ⟨call, List.mem_cons_of_mem _ member, defines⟩))
      refine ih (fun name member => plain name (List.mem_cons_of_mem _ member)) later _ ?_ ?_
      all_goals
        unfold next
        cases called : d.call c with
        | error e => assumption
        | ok d' => ?_
      · exact consistent.call called
      · refine transparent.call consistent (fun name same => ?_) (fun rule defines => ?_) called
        · exact plain name (same ▸ List.mem_cons_self)
        · exact other rule (List.mem_filterMap.2 ⟨c, List.mem_cons_self, defines⟩)
  refine run {} .empty ⟨rfl, rfl, ?_, ?_⟩ <;> exact fun _ member => absurd member List.not_mem_nil

end

theorem definitions_refresh (rules : List Rule) : definitions (refresh rules) = definitions rules := by
  obtain ⟨f, same, refreshed⟩ := refresh_eq_map rules
  rw [same]
  exact definitions_map (fun rule => (refreshed rule).name) (fun rule => (refreshed rule).body) rules

theorem definitions_next {d : Draft} {c : Call} (consistent : Consistent d.rules)
    (plain : ∀ name, c ≠ .makeTerminal name)
    (fresh : ∀ rule, c.rule? = some rule → rule.name ∉ d.rules.map Rule.name) :
    definitions (d.next c).rules = definitions (d.rules ++ c.rule?.toList) := by
  unfold next
  cases defines : c.rule? with
  | some rule =>
    have missing : d.contains rule.name = false := by
      rw [Draft.contains, Bool.eq_false_iff]
      exact fun there => fresh rule defines (definesRule_iff.1 there)
    rw [call_of_rule? defines, insert_eq, missing, if_neg Bool.false_ne_true]
    exact definitions_refresh _
  | none =>
    rw [Option.toList_none, List.append_nil]
    cases called : d.call c with
    | error e => rfl
    | ok d' =>
      rcases call_cases called with ⟨_, other, -⟩ | ⟨name, rfl, -⟩ | ⟨name, _, -, found⟩
      · cases defines.symm.trans other
      · exact absurd rfl (plain name)
      · rw [firstSet_eq] at found
        split at found
        · cases found
          exact (consistent.finds name).coherent.definitions
        · cases found

/-- A draft has the definitions of its calls, where no name is defined twice. -/
theorem definitions_after {calls : List Call} (plain : ∀ name, .makeTerminal name ∉ calls)
    (distinct : ((calls.filterMap Call.rule?).map Rule.name).Nodup) :
    definitions (after calls).rules = definitions (calls.filterMap Call.rule?) := by
  have run : ∀ d : Draft, Consistent d.rules →
      ((definitions (d.rules ++ calls.filterMap Call.rule?)).map Prod.fst).Nodup →
      definitions (calls.foldl next d).rules = definitions (d.rules ++ calls.filterMap Call.rule?) := by
    clear distinct
    induction calls with
    | nil =>
      intro d _ _
      rw [List.filterMap_nil, List.append_nil]
      rfl
    | cons c rest ih =>
      intro d consistent distinct
      have split : (c :: rest).filterMap Call.rule? = c.rule?.toList ++ rest.filterMap Call.rule? := by
        rw [List.filterMap_cons]
        cases c.rule? <;> rfl
      rw [split, ← List.append_assoc] at distinct ⊢
      have step : definitions (d.next c).rules = definitions (d.rules ++ c.rule?.toList) := by
        refine definitions_next consistent (fun name same => ?_) fun rule defines member => ?_
        · exact plain name (same ▸ List.mem_cons_self)
        · rw [names_definitions, List.map_append] at distinct
          have apart := (List.nodup_append.1 distinct).1
          rw [List.map_append, List.nodup_append, defines] at apart
          exact apart.2.2 _ member _ (List.mem_singleton_self _) rfl
      have follow : definitions ((d.next c).rules ++ rest.filterMap Call.rule?) =
          definitions (d.rules ++ c.rule?.toList ++ rest.filterMap Call.rule?) := by
        rw [definitions_append, step, ← definitions_append]
      have still : Consistent (d.next c).rules := by
        unfold next
        cases called : d.call c with
        | error e => exact consistent
        | ok d' => exact consistent.call called
      rw [← follow] at distinct ⊢
      exact ih (fun name member => plain name (List.mem_cons_of_mem _ member)) _ still distinct
  refine run {} .empty ?_
  rw [names_definitions]
  exact distinct

section

variable {d e : Draft} {name top : String} {g : Grammar}

theorem definesRule_perm {rules others : List Rule}
    (same : (definitions rules).Perm (definitions others)) :
    definesRule others = definesRule rules := by
  funext name
  rw [Bool.eq_iff_iff, definesRule_iff, definesRule_iff]
  exact (names_perm same).mem_iff.symm

theorem exists_withNullable (same : (definitions d.rules).Perm (definitions e.rules)) {d' : Draft}
    (extended : d.withNullable = .ok d') :
    ∃ e', e.withNullable = .ok e' ∧ (definitions d'.rules).Perm (definitions e'.rules) := by
  have known : e.contains nullable = d.contains nullable := congrFun (definesRule_perm same) nullable
  unfold withNullable at extended ⊢
  rw [known]
  split at extended
  · next there =>
    cases extended
    rw [if_pos there]
    exact ⟨e, rfl, same⟩
  · next missing =>
    rw [if_neg missing]
    rw [addTerminal_eq] at extended ⊢
    split at extended
    · next m read =>
      rw [insert_eq] at extended ⊢
      change (if d.contains nullable = true then _ else _) = _ at extended
      change ∃ e', (if e.contains nullable = true then _ else _) = _ ∧ _
      rw [known]
      rw [if_neg missing] at extended ⊢
      cases extended
      refine ⟨_, rfl, ?_⟩
      rw [definitions_refresh, definitions_refresh, definitions_append, definitions_append]
      exact same.append_right _
    · cases extended

theorem definitions_settled {d' : Draft} (consistent : Consistent d'.rules)
    (defined : ∀ rule ∈ d'.rules, ∀ term ∈ rule.terms, definesRule d'.rules term = true)
    (top : String) : definitions (settleFollow (settleFirst d'.rules) top) = definitions d'.rules := by
  obtain ⟨f, settled, named, body, -, -⟩ := settleFollow_spec (settleFirst d'.rules) top
  have coherent := (settleFirst_spec consistent (consistent.resolved defined)).1
  rw [settled, definitions_map named body, coherent.definitions]

/-- Whether a draft can be built depends on its definitions only. -/
theorem exists_build (consistent : Consistent d.rules) (consistent' : Consistent e.rules)
    (same : (definitions d.rules).Perm (definitions e.rules))
    (built : d.build name (some top) = .ok g) :
    ∃ g', e.build name (some top) = .ok g' ∧ g'.top = g.top ∧
      (definitions g.rules).Perm (definitions g'.rules) := by
  obtain ⟨_, d', chosen, extended, known, gapless, rfl⟩ := build_eq_ok_iff.1 built
  cases chosen
  obtain ⟨e', extended', same⟩ := exists_withNullable same extended
  have defined := danglingTerm?_eq_none_iff.1 gapless
  have known' : e'.contains top = true := (congrFun (definesRule_perm same) top).trans known
  have defined' : ∀ rule ∈ e'.rules, ∀ term ∈ rule.terms, definesRule e'.rules term = true := by
    intro rule listed term refers
    obtain ⟨old, member, -, body⟩ := exists_definition same.symm rule listed
    rw [Rule.terms, ← body] at refers
    rw [definesRule_perm same]
    exact defined old member term refers
  refine ⟨_, build_eq_ok_iff.2 ⟨top, e', rfl, extended', known',
    danglingTerm?_eq_none_iff.2 defined', rfl⟩, rfl, ?_⟩
  rw [definitions_settled (consistent.withNullable extended) defined,
    definitions_settled (consistent'.withNullable extended') defined']
  exact same

variable {dead : String}

theorem Transparent.withNullable {d' : Draft} (consistent : Consistent d.rules)
    (transparent : Transparent dead d.rules) (visible : nullable ≠ dead)
    (extended : d.withNullable = .ok d') : Transparent dead d'.rules := by
  unfold Draft.withNullable at extended
  split at extended
  · cases extended
    exact transparent
  · refine transparent.call (c := .terminal nullable "") consistent nofun ?_ extended
    intro rule defines
    rw [Call.rule?] at defines
    split at defines
    · cases defines
      exact visible
    · cases defines

theorem settleFirst_coherent {base : List Rule} (consistent : Consistent base)
    (transparent : Transparent dead base) : findRule? (settleFirst base) dead = none ∧
      Coherent (detoured dead base) (detoured dead (settleFirst base)) := by
  exact foldl_firstOf_coherent consistent.distinct (base.map Rule.name) transparent.gap
    transparent.coherent

end

end Draft

namespace Grammar

/-- The FIRST sets are those of the rules that refer to `dead` instead of themselves. -/
structure Transparent (dead : String) (g : Grammar) : Prop where
  gap : findRule? g.rules dead = none
  exact : ∀ rule ∈ g.rules, (rule.detoured dead).Exact (detoured dead g.rules)

theorem transparent_of_build {d : Draft} {dead name : String} {top : Option String} {g : Grammar}
    (consistent : Draft.Consistent d.rules) (transparent : Draft.Transparent dead d.rules)
    (visible : nullable ≠ dead) (built : d.build name top = .ok g) : g.Transparent dead := by
  obtain ⟨start, d', -, extended, -, gapless, rfl⟩ := Draft.build_eq_ok_iff.1 built
  have transparent := transparent.withNullable consistent visible extended
  have consistent := consistent.withNullable extended
  have resolved := consistent.resolved (Draft.danglingTerm?_eq_none_iff.1 gapless)
  have ready := (Draft.settleFirst_spec consistent resolved).2
  obtain ⟨gap, coherent⟩ := Draft.settleFirst_coherent consistent transparent
  obtain ⟨f, settled, named, body, first, -⟩ :=
    Draft.settleFollow_spec (Draft.settleFirst d'.rules) start
  have gap' : findRule? ((Draft.settleFirst d'.rules).map f) dead = none := by
    rw [findRule?_map named, gap]
    rfl
  constructor
  · dsimp only
    rw [settled]
    exact gap'
  · dsimp only
    rw [settled, List.forall_mem_map]
    intro rule listed
    have before := coherent.self.exact _ (List.mem_map_of_mem listed) (ready rule listed)
    have moved := ((SharedPart.map named body _).detoured gap gap').exact (Or.inr trivial) before
    have kept : ((f rule).detoured dead).name = (rule.detoured dead).name := named rule
    exact moved.congr kept (first rule)

section

variable {g g' : Grammar} {dead : String}

theorem Transparent.mem_first_iff (transparent : g.Transparent dead) {name : String} {rule : Rule}
    (grounded : Grounded (detoured dead g.rules) name) (found : g.find? name = some rule)
    {x : String} : x ∈ rule.first ↔ x ∈ leastFirst (detoured dead g.rules) name := by
  have exact := transparent.exact rule (mem_of_find? found)
  rw [← g.find?_name found] at grounded ⊢
  exact ⟨exact.sound x, exact.complete grounded x⟩

/-- The FIRST set of a name depends on the definitions only, where the name is grounded without the
references of rules to themselves. -/
theorem Transparent.firstSet_eq (transparent : g.Transparent dead)
    (transparent' : g'.Transparent dead) (distinct : (g.rules.map Rule.name).Nodup)
    (same : (definitions g.rules).Perm (definitions g'.rules)) {name : String}
    (grounded : Grounded (detoured dead g.rules) name) : g'.firstSet name = g.firstSet name := by
  have shared := SharedPart.of_perm distinct same
  have bodies := shared.same name trivial
  cases found : findRule? g.rules name with
  | none =>
    rw [found, Option.map_none, Option.map_eq_none_iff] at bodies
    rw [firstSet, firstSet, find?, find?, found, bodies]
  | some rule =>
    rw [found, Option.map_some, Option.map_eq_some_iff] at bodies
    obtain ⟨other, known, -⟩ := bodies
    rw [Grammar.firstSet_eq found, Grammar.firstSet_eq known]
    have aside := shared.detoured transparent.gap transparent'.gap
    refine NameSet.ext fun x => ?_
    rw [transparent.mem_first_iff grounded found,
      transparent'.mem_first_iff (aside.grounded (Or.inr trivial) grounded) known,
      aside.leastFirst_eq (Or.inr trivial)]

/-- The FOLLOW sets depend on the definitions and the FIRST sets only. -/
theorem Solved.followSet_eq (solved : g.Solved) (solved' : g'.Solved) (top : g'.top = g.top)
    (same : (definitions g.rules).Perm (definitions g'.rules))
    (firsts : ∀ name, g'.firstSet name = g.firstSet name) (name : String) :
    g'.followSet name = g.followSet name := by
  have sets : Follow.firstSetOf g'.rules = Follow.firstSetOf g.rules := by
    funext name
    rw [firstSetOf_eq, firstSetOf_eq, firsts]
  have defines := Draft.definesRule_perm same
  have closed : {family | Follow.Closed g'.rules g'.top family} =
      {family | Follow.Closed g.rules g.top family} := by
    ext family
    rw [top]
    exact ⟨Follow.Closed.congr defines.symm sets.symm (exists_definition same),
      Follow.Closed.congr defines sets (exists_definition same.symm)⟩
  have least := solved'.follow
  rw [closed] at least
  have equal := congrFun (least.unique solved.follow) name
  exact NameSet.ext fun x => Set.ext_iff.1 equal x

end

/-- The order of definitions does not matter, and neither do requests in between: the FIRST set of a
name is the same unless the name leads to rules that lead to each other, and without such rules all
FOLLOW sets are the same. -/
theorem build_reordered {calls others : List Draft.Call} {name top : String} {g : Grammar}
    (plain : ∀ n, .makeTerminal n ∉ calls) (plain' : ∀ n, .makeTerminal n ∉ others)
    (distinct : ((calls.filterMap Draft.Call.rule?).map Rule.name).Nodup)
    (same : (calls.filterMap Draft.Call.rule?).Perm (others.filterMap Draft.Call.rule?))
    (built : (Draft.after calls).build name (some top) = .ok g) :
    ∃ g', (Draft.after others).build name (some top) = .ok g' ∧
      (∀ n, (∀ m, Relation.ReflTransGen (Leads g.rules) n m → ¬ MutuallyLeftRecursive g.rules m) →
        g'.firstSet n = g.firstSet n) ∧
      ((∀ n, ¬ MutuallyLeftRecursive g.rules n) → ∀ n, g'.followSet n = g.followSet n) := by
  have distinct' := ((same.map Rule.name).nodup_iff).1 distinct
  have consistent := Draft.after_consistent calls
  have consistent' := Draft.after_consistent others
  have drafts : (definitions (Draft.after calls).rules).Perm
      (definitions (Draft.after others).rules) := by
    rw [Draft.definitions_after plain distinct, Draft.definitions_after plain' distinct']
    exact same.map Rule.definition
  obtain ⟨g', built', tops, rules⟩ := Draft.exists_build consistent consistent' drafts built
  have solved := Draft.build_solved consistent built
  have solved' := Draft.build_solved consistent' built'
  -- A name that nothing defines.
  obtain ⟨dead, fresh⟩ := Infinite.exists_notMem_finset
    (nullable :: (calls.filterMap Draft.Call.rule?).map Rule.name).toFinset
  rw [List.mem_toFinset, List.mem_cons, not_or] at fresh
  obtain ⟨visible, fresh⟩ := fresh
  have other : ∀ rule ∈ calls.filterMap Draft.Call.rule?, rule.name ≠ dead := by
    rintro rule listed rfl
    exact fresh (List.mem_map_of_mem listed)
  have transparent := transparent_of_build consistent (Draft.after_transparent plain other)
    (Ne.symm visible) built
  have transparent' := transparent_of_build consistent' (Draft.after_transparent plain'
    fun rule listed => other rule (same.mem_iff.2 listed)) (Ne.symm visible) built'
  have firsts : ∀ n, (∀ m, Relation.ReflTransGen (Leads g.rules) n m →
      ¬ MutuallyLeftRecursive g.rules m) → g'.firstSet n = g.firstSet n := fun n alone =>
    transparent.firstSet_eq transparent' solved.distinct rules (grounded_detoured transparent.gap alone)
  refine ⟨g', built', firsts, fun alone n => ?_⟩
  exact solved.followSet_eq solved' tops rules (fun n => firsts n fun m _ => alone m) n

/-- Rules that refer to each other, but for what refers to itself, only downwards do not lead to each
other. -/
theorem alone_of_falling {rules : List Rule} (height : String → Nat)
    (falls : ∀ rule ∈ rules, ∀ term ∈ rule.terms, term = rule.name ∨ height term < height rule.name)
    (name : String) : ¬ MutuallyLeftRecursive rules name := by
  have step : ∀ {a b}, Leads rules a b → b = a ∨ height b < height a := by
    intro a b leads
    obtain ⟨rule, listed, rfl, refers⟩ := leads.refers
    exact falls rule listed b refers
  have down : ∀ {a b}, Relation.TransGen (Leads rules) a b → b = a ∨ height b < height a := by
    intro a b path
    induction path with
    | single leads => exact step leads
    | tail _ leads ih =>
      rcases step leads with rfl | lower
      · exact ih
      · rcases ih with rfl | low
        · exact Or.inr lower
        · exact Or.inr (Nat.lt_trans lower low)
  rintro ⟨other, different, there, back⟩
  rcases down there with same | lower
  · exact different same
  · rcases down back with same | higher
    · exact different same.symm
    · exact Nat.lt_asymm lower higher

/-- A word that is read again and again to the left, and a sentence that begins with it. -/
def repeatCalls : List Draft.Call :=
  [.terminal "x" "x", .alternation "word" ["word", "x"], .concatenation "top" ["word", "x"]]

/-- The same definitions from the top down, each followed by a request. -/
def downwardCalls : List Draft.Call :=
  [.concatenation "top" ["word", "x"], .firstSet "top", .alternation "word" ["word", "x"],
    .firstSet "word", .terminal "x" "x", .firstSet "top"]

theorem build_reordered_repeat :
    ∃ g g', (Draft.after repeatCalls).build "repeat" (some "top") = .ok g ∧
      (Draft.after downwardCalls).build "repeat" (some "top") = .ok g' ∧
      (∀ n, g'.firstSet n = g.firstSet n) ∧ ∀ n, g'.followSet n = g.followSet n := by
  let height (name : String) : Nat := if name = "top" then 2 else if name = "word" then 1 else 0
  have checked : (match (Draft.after repeatCalls).build "repeat" (some "top") with
      | .ok g => g.rules.all fun rule =>
        rule.terms.all fun term => term == rule.name || decide (height term < height rule.name)
      | .error _ => false) = true := by decide +kernel
  cases built : (Draft.after repeatCalls).build "repeat" (some "top") with
  | error e =>
    rw [built] at checked
    cases checked
  | ok g =>
    rw [built] at checked
    simp only [List.all_eq_true, Bool.or_eq_true, beq_iff_eq, decide_eq_true_eq] at checked
    have alone := alone_of_falling height checked
    have moved : (repeatCalls.filterMap Draft.Call.rule?).Perm
        (downwardCalls.filterMap Draft.Call.rule?) := by decide +kernel
    obtain ⟨g', built', firsts, follows⟩ := build_reordered (by simp [repeatCalls])
      (by simp [downwardCalls]) (by decide +kernel) moved built
    exact ⟨g, g', rfl, built', fun n => firsts n fun m _ => alone m, follows alone⟩

/-- Two rules that lead to each other. -/
def circleCalls : List Draft.Call :=
  [.terminal "x" "x", .terminal "y" "y", .alternation "a" ["b", "x"], .alternation "b" ["a", "y"]]

/-- Where two rules lead to each other, a request changes the FIRST sets of a grammar. -/
theorem firstSets_vary_circle :
    ((circleCalls.filterMap Draft.Call.rule?).map Rule.name).Nodup ∧
    ∃ g g', (Draft.after circleCalls).build "circle" (some "a") = .ok g ∧
      (Draft.after (circleCalls ++ [.firstSet "b"])).build "circle" (some "a") = .ok g' ∧
      g.firstSet "b" ≠ g'.firstSet "b" := by
  refine ⟨by decide +kernel, ?_⟩
  have checked : (match (Draft.after circleCalls).build "circle" (some "a"),
        (Draft.after (circleCalls ++ [.firstSet "b"])).build "circle" (some "a") with
      | .ok g, .ok g' => decide (g.firstSet "b" ≠ g'.firstSet "b")
      | .ok _, .error _ => false
      | .error _, _ => false) = true := by decide +kernel
  split at checked
  · next g g' built built' => exact ⟨g, g', built, built', of_decide_eq_true checked⟩
  · cases checked
  · cases checked

end Grammar

end AttrGrammar
