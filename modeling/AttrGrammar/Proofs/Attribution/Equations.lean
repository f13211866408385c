import AttrGrammar.Proofs.Attribution.Evaluation
import AttrGrammar.Proofs.Tree.Ancestry

/-!
Evaluation solves the equations of attributes.

An inherited value may depend on inherited values above it, a synthesized one on all inherited
values, on leaves and on synthesized values below it. The two passes come to each node after what its
values depend on, so each hook has on the final tree the value that was found with it, and values
from before evaluation are never looked at. Therefore a second evaluation changes nothing.
-/

namespace AttrGrammar

/-- The attributes of nodes that an inherited value of a node may depend on: inherited ones of its
ancestors. -/
def ParseTree.ReadsAbove (t : ParseTree) (id j : NodeId) (kind : AttrKind) : Prop :=
  kind = .inherited ∧ t.Above j id

/-- The attributes of nodes that a synthesized value of a node may depend on: inherited ones, those of
leaves and those of its descendants. -/
def ParseTree.ReadsBelow (t : ParseTree) (id j : NodeId) (kind : AttrKind) : Prop :=
  kind = .inherited ∨ t.isLeaf j = true ∨ t.Above id j

namespace Attribution

variable {g : Attribution} {t : ParseTree} {f : Planted} {id : NodeId} {n : Node} {a : Attr}
  {rules : RuleSet} {hook : NodeHook}

/-- An inherited attribute has at each node the value of its hook on the final tree, or the value
from before if the hook has none. -/
theorem attr?_evaluate_above (rooted : t.Rooted f)
    (defines : Defines (g.hooked .inherited) .inherited a rules hook)
    (only : ReadsOnly hook t t.ReadsAbove) (member : id ∈ t.preOrder) (found : t.node? id = some n)
    (applies : rules.contains n.name = true) :
    (g.evaluate t).attr? id .inherited a =
      (hook (g.evaluate t) id).or (t.attr? id .inherited a) := by
  have order : t.preOrder.Pairwise fun i j => ¬ t.ReadsAbove i j .inherited := by
    rw [rooted.preOrder_eq]
    refine (Forest.pairwise_above rooted.distinct).imp_of_mem fun {i j} here _ apart reads => ?_
    exact apart ((rooted.above_iff here).1 reads.2)
  have apart : ∀ i ∈ t.preOrder, ¬ t.ReadsAbove i i .inherited := by
    rw [rooted.preOrder_eq]
    intro i here reads
    exact Forest.not_above_self rooted.distinct ((rooted.above_iff here).1 reads.2)
  have solved := attr?_pass only defines
    (fun entry listed => (g.hooked_kind .inherited entry listed).2.1)
    (by rw [rooted.preOrder_eq]; exact rooted.distinct) (fun _ listed => listed) order apart
    (.refl t) member found applies
  -- The second pass leaves inherited values alone, and so the value of the hook.
  have later : hook (g.evaluate t) id = hook (g.inherit t) id := by
    refine only (g.sameShape_inherit t) (g.sameShape_evaluate t) id member fun j k reads b => ?_
    rw [reads.1]
    exact g.attr?_evaluate_inherited t j b
  rw [attr?_evaluate_inherited, later]
  exact solved

theorem places_of_mem_inner (rooted : t.Rooted f) (listed : id ∈ inner t) : id ∈ f.places :=
  rooted.mem_postOrder.1 (List.mem_filter.1 listed).1

/-- A synthesized attribute has so at each inner node. -/
theorem attr?_evaluate_below (rooted : t.Rooted f)
    (defines : Defines (g.hooked .synthesized) .synthesized a rules hook)
    (only : ReadsOnly hook t t.ReadsBelow) (member : id ∈ t.preOrder) (inside : t.isLeaf id = false)
    (found : t.node? id = some n) (applies : rules.contains n.name = true) :
    (g.evaluate t).attr? id .synthesized a =
      (hook (g.evaluate t) id).or (t.attr? id .synthesized a) := by
  have reads_iff : ∀ {i j}, j ∈ inner t → (t.ReadsBelow i j .synthesized ↔ i ∈ f.above j) := by
    intro i j listed
    rw [ParseTree.ReadsBelow, rooted.above_iff (places_of_mem_inner rooted listed)]
    simp [isLeaf_of_mem_inner listed]
  have order : (inner t).Pairwise fun i j => ¬ t.ReadsBelow i j .synthesized := by
    have all := Forest.pairwise_above_postorder rooted.distinct
    rw [← rooted.postOrder_eq] at all
    refine (all.sublist List.filter_sublist).imp_of_mem fun {i j} _ there apart reads => ?_
    exact apart ((reads_iff there).1 reads)
  have apart : ∀ i ∈ inner t, ¬ t.ReadsBelow i i .synthesized := fun i here reads =>
    Forest.not_above_self rooted.distinct ((reads_iff here).1 reads)
  have distinct : (inner t).Nodup := rooted.distinct_postOrder.sublist List.filter_sublist
  have here : id ∈ inner t := by
    rw [rooted.preOrder_eq] at member
    exact List.mem_filter.2 ⟨rooted.mem_postOrder.2 member, by rw [inside]; rfl⟩
  obtain ⟨attrs, found'⟩ : ∃ attrs, (g.inherit t).node? id = some { n with attrs } := by
    rcases (g.sameShape_inherit t).cases id with ⟨absent, _⟩ | ⟨n', attrs, before, after⟩
    · rw [found] at absent
      cases absent
    · cases found.symm.trans before
      exact ⟨attrs, after⟩
  have solved := attr?_pass only defines
    (fun entry listed => (g.hooked_kind .synthesized entry listed).2.1) distinct
    (fun i listed => by rw [rooted.preOrder_eq]; exact places_of_mem_inner rooted listed) order
    apart (g.sameShape_inherit t) here found' applies
  rw [← evaluate_eq] at solved
  rw [solved, (g.changes_inherit t).attr id .synthesized a (by decide)]

/-- Attributions as they are made: without declarations at first, and then step by step. -/
inductive Made : Attribution → Prop
  | new (name : String) (language : Language) : Made { name, language }
  | declare {g : Attribution} (made : Made g) (decl : AttrDecl) : Made (g.declare decl)
  | derive {g : Attribution} (made : Made g) (name : String) : Made (g.derive name)

/-- An attribute is declared once. -/
theorem Made.distinct (made : Made g) : (g.decls.map AttrDecl.attr).Nodup := by
  induction made with
  | new => exact List.nodup_nil
  | @declare g _ decl ih =>
    rw [Attribution.declare, List.map_append, List.map_singleton]
    refine List.nodup_append.2 ⟨ih.sublist (List.filter_sublist.map _), List.nodup_singleton _, ?_⟩
    intro b listed c same equal
    obtain ⟨other, kept, rfl⟩ := List.mem_map.1 listed
    have apart := (List.mem_filter.1 kept).2
    rw [equal, List.mem_singleton.1 same, bne_self_eq_false] at apart
    cases apart
  | derive _ _ ih => exact ih

theorem Made.defines (made : Made g) {decl : AttrDecl} (listed : decl ∈ g.decls)
    (runs : decl.nodeHook = some hook) :
    Defines (g.hooked decl.kind) decl.kind decl.attr decl.appliesTo hook := by
  refine ⟨⟨_, mem_hooked listed rfl runs, rfl, rfl⟩, fun entry member _ named => ?_⟩
  obtain ⟨declared, _, other⟩ := g.hooked_kind _ entry member
  have same := List.inj_on_of_nodup_map made.distinct declared listed named
  rw [same] at other ⊢
  exact ⟨rfl, Option.some.inj (other.symm.trans runs)⟩

/-- The hooks of an attribution look only at what the values of a tree may depend on. -/
structure Orderly (g : Attribution) (t : ParseTree) : Prop where
  inherited : ∀ decl ∈ g.decls, ∀ hook, decl.nodeHook = some hook → decl.kind = .inherited →
    ReadsOnly hook t t.ReadsAbove
  synthesized : ∀ decl ∈ g.decls, ∀ hook, decl.nodeHook = some hook → decl.kind = .synthesized →
    ReadsOnly hook t t.ReadsBelow

theorem orderly_new (name : String) (language : Language) (t : ParseTree) :
    Orderly { name, language } t := ⟨nofun, nofun⟩

theorem Orderly.derive (orderly : g.Orderly t) (name : String) : (g.derive name).Orderly t :=
  ⟨orderly.inherited, orderly.synthesized⟩

/-- A declaration takes the place of others, or stands beside them. -/
theorem Orderly.declare (orderly : g.Orderly t) {decl : AttrDecl}
    (above : ∀ hook, decl.nodeHook = some hook → decl.kind = .inherited → ReadsOnly hook t t.ReadsAbove)
    (below : ∀ hook, decl.nodeHook = some hook → decl.kind = .synthesized →
      ReadsOnly hook t t.ReadsBelow) : (g.declare decl).Orderly t := by
  have cases : ∀ other ∈ (g.declare decl).decls, other ∈ g.decls ∨ other = decl := by
    intro other listed
    rcases List.mem_append.1 listed with before | added
    · exact Or.inl (List.mem_filter.1 before).1
    · exact Or.inr (List.mem_singleton.1 added)
  constructor
  · intro other listed hook runs ofKind
    rcases cases other listed with before | rfl
    · exact orderly.inherited other before hook runs ofKind
    · exact above hook runs ofKind
  · intro other listed hook runs ofKind
    rcases cases other listed with before | rfl
    · exact orderly.synthesized other before hook runs ofKind
    · exact below hook runs ofKind

/-- A declaration is about a node: one of its rules that can be reached from the root, and an inner
one if values are synthesized. -/
def Concerns (decl : AttrDecl) (t : ParseTree) (id : NodeId) : Prop :=
  id ∈ t.preOrder ∧ ∃ n, t.node? id = some n ∧ decl.appliesTo.contains n.name = true ∧
    (decl.kind = .synthesized → t.isLeaf id = false)

/-- A tree solves the equations of an attribution, starting from another tree. -/
structure Solves (g : Attribution) (t u : ParseTree) : Prop where
  shape : t.SameShape u
  /-- A node has the value of the hook on the tree as it is in the end. If the hook has none there,
  the value is the one from before. -/
  solved : ∀ decl ∈ g.decls, ∀ hook, decl.nodeHook = some hook → ∀ id, Concerns decl t id →
    u.attr? id decl.kind decl.attr = (hook u id).or (t.attr? id decl.kind decl.attr)
  kept : ∀ id kind a, (∀ decl ∈ g.decls, decl.nodeHook.isSome = true → decl.kind = kind →
    decl.attr = a → ¬ Concerns decl t id) → u.attr? id kind a = t.attr? id kind a
  leaves : ∀ id, t.isLeaf id = true → ∀ a,
    u.attr? id .synthesized a = t.attr? id .synthesized a
  /-- Nothing is left to evaluate. -/
  stable : g.evaluate u = u

/-- A node has the value of a hook already, if the hook is for it and has a value. -/
def AlreadySet (u : ParseTree) (id : NodeId) (entry : AttrDecl × NodeHook) : Prop :=
  ∀ n, u.node? id = some n → entry.1.appliesTo.contains n.name = true →
    ∀ v, entry.2 u id = some v → u.attr? id entry.1.kind entry.1.attr = some v

theorem applyHook_of_set {u : ParseTree} {entry : AttrDecl × NodeHook}
    (set : AlreadySet u id entry) : applyHook u id entry = u := by
  unfold applyHook
  split
  · rfl
  · next n found =>
    split
    · next applies =>
      split
      · next v value => exact ParseTree.setAttr_of_attr? (set n found applies v value)
      · rfl
    · rfl

theorem applyHooks_of_set {u : ParseTree} {hooks : List (AttrDecl × NodeHook)}
    (set : ∀ entry ∈ hooks, AlreadySet u id entry) : applyHooks hooks u id = u := by
  rw [applyHooks_eq]
  induction hooks with
  | nil => rfl
  | cons entry rest ih =>
    rw [List.foldl_cons, applyHook_of_set (set entry List.mem_cons_self)]
    exact ih fun e listed => set e (List.mem_cons_of_mem _ listed)

theorem pass_of_set {u : ParseTree} {hooks : List (AttrDecl × NodeHook)} {ids : List NodeId}
    (set : ∀ id ∈ ids, ∀ entry ∈ hooks, AlreadySet u id entry) :
    ids.foldl (applyHooks hooks) u = u := by
  induction ids with
  | nil => rfl
  | cons id rest ih =>
    rw [List.foldl_cons, applyHooks_of_set (set id List.mem_cons_self)]
    exact ih fun i listed => set i (List.mem_cons_of_mem _ listed)

/-- A tree that solves the equations is not changed by evaluation. -/
theorem evaluate_of_solved {u : ParseTree} (same : t.SameShape u)
    (solved : ∀ decl ∈ g.decls, ∀ hook, decl.nodeHook = some hook → ∀ id, Concerns decl t id →
      u.attr? id decl.kind decl.attr = (hook u id).or (t.attr? id decl.kind decl.attr))
    (reached : ∀ id ∈ inner t, id ∈ t.preOrder) : g.evaluate u = u := by
  have set : ∀ {kind} {id}, id ∈ t.preOrder → (kind = .synthesized → t.isLeaf id = false) →
      ∀ entry ∈ g.hooked kind, AlreadySet u id entry := by
    intro kind id member inside entry listed n found applies v value
    obtain ⟨declared, ofKind, runs⟩ := g.hooked_kind kind entry listed
    have concerns : Concerns entry.1 t id := by
      rcases same.cases id with ⟨_, absent⟩ | ⟨m, attrs, before, after⟩
      · rw [absent] at found
        cases found
      · cases after.symm.trans found
        exact ⟨member, m, before, applies, fun synthesized => inside (ofKind ▸ synthesized)⟩
    rw [solved entry.1 declared entry.2 runs id concerns, value, Option.some_or]
  have inherited : g.inherit u = u := by
    refine pass_of_set fun id member => ?_
    rw [same.preOrder] at member
    exact set member nofun
  rw [evaluate_eq, inherited]
  refine pass_of_set fun id member => ?_
  have here : id ∈ inner t := by
    rw [inner, same.postOrder, funext same.isLeaf] at member
    exact member
  exact set (reached id here) fun _ => isLeaf_of_mem_inner here

/-- Where no declaration is about a node, its attributes stay as they are. -/
theorem attr?_evaluate_of_kept {kind : AttrKind}
    (away : ∀ decl ∈ g.decls, decl.nodeHook.isSome = true → decl.kind = kind → decl.attr = a →
      ¬ Concerns decl t id) (reached : ∀ id ∈ inner t, id ∈ t.preOrder) :
    (g.evaluate t).attr? id kind a = t.attr? id kind a := by
  have skipped : id ∈ t.preOrder → (kind = .synthesized → t.isLeaf id = false) →
      Away (g.hooked kind) t id kind a := by
    intro member inside entry listed ofKind named n found
    obtain ⟨declared, _, runs⟩ := g.hooked_kind kind entry listed
    refine Bool.eq_false_iff.2 fun applies => ?_
    exact away entry.1 declared (by rw [runs]; rfl) ofKind named
      ⟨member, n, found, applies, fun synthesized => inside (ofKind ▸ synthesized)⟩
  cases kind with
  | inherited =>
    rw [attr?_evaluate_inherited]
    by_cases member : id ∈ t.preOrder
    · exact attr?_pass_of_away (skipped member nofun) (.refl t) t.preOrder
    · rw [ParseTree.attr?, (g.changes_inherit t).node id member, ParseTree.attr?]
  | synthesized =>
    by_cases here : id ∈ inner t
    · have away := skipped (reached id here) fun _ => isLeaf_of_mem_inner here
      rw [evaluate_eq, attr?_pass_of_away away (g.sameShape_inherit t),
        (g.changes_inherit t).attr id .synthesized a (by decide)]
    · exact g.attr?_evaluate_of_notMem here a

/-- Evaluation solves the equations of an attribution whose hooks look only where they may. -/
theorem solves_evaluate (made : g.Made) (rooted : t.Rooted f) (orderly : g.Orderly t) :
    g.Solves t (g.evaluate t) := by
  have reached : ∀ id ∈ inner t, id ∈ t.preOrder := by
    intro id listed
    rw [rooted.preOrder_eq]
    exact places_of_mem_inner rooted listed
  have solved : ∀ decl ∈ g.decls, ∀ hook, decl.nodeHook = some hook → ∀ id, Concerns decl t id →
      (g.evaluate t).attr? id decl.kind decl.attr =
        (hook (g.evaluate t) id).or (t.attr? id decl.kind decl.attr) := by
    rintro decl listed hook runs id ⟨member, n, found, applies, inside⟩
    have defines := made.defines listed runs
    cases ofKind : decl.kind with
    | inherited =>
      rw [ofKind] at defines
      exact attr?_evaluate_above rooted defines (orderly.inherited decl listed hook runs ofKind)
        member found applies
    | synthesized =>
      rw [ofKind] at defines
      exact attr?_evaluate_below rooted defines (orderly.synthesized decl listed hook runs ofKind)
        member (inside ofKind) found applies
  have shape := g.sameShape_evaluate t
  exact ⟨shape, solved, fun id kind a away => attr?_evaluate_of_kept away reached,
    fun id leaf => g.attr?_evaluate_leaf leaf, evaluate_of_solved shape solved reached⟩

end Attribution

end AttrGrammar
