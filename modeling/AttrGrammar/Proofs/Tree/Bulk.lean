import AttrGrammar.Proofs.Tree.Ancestry

/-!
Cuts of all matching nodes of a tree.

The nodes are cut out one after the other, by a list that was made before the first cut. A removal
is checked before it starts, as nothing would bring back what was removed before a failure. The main
statements say which nodes are gone in the end and how many, that nothing changed among the others,
and that a removal that fails has changed nothing.
-/

namespace AttrGrammar

open Forest Relation

namespace ParseTree

variable {graft : ParseTree → Prop} {t t' : ParseTree} {parent : Option NodeId} {level : Nat}
  {f : Planted} {m : NodeMatch}

/-- The first node is a match and the other one its only child, which is the root in its place when
a root is removed. -/
def PassesTo (t : ParseTree) (m : NodeMatch) (p c : NodeId) : Prop :=
  t.isMatch m p = true ∧ t.children p = [c]

/-- A match with several children, to which one comes from a node through matches with one child. -/
def BlocksFrom (t : ParseTree) (m : NodeMatch) (top id : NodeId) : Prop :=
  ReflTransGen (t.PassesTo m) top id ∧ t.isMatch m id = true ∧ 2 ≤ (t.children id).length

/-- A match that cannot be removed together with all others, as several roots would be left. -/
def Blocks (t : ParseTree) (m : NodeMatch) (id : NodeId) : Prop :=
  ∃ root, t.root = some root ∧ t.BlocksFrom m root id

theorem BlocksFrom.isMatch {top id : NodeId} (blocks : t.BlocksFrom m top id) :
    t.isMatch m top = true := by
  obtain ⟨path, chosen, _⟩ := blocks
  rcases path.cases_head with rfl | ⟨_, ⟨chosen, _⟩, _⟩
  · exact chosen
  · exact chosen

/-- Past a match with one child it is the child from which one goes on. -/
theorem blocksFrom_only {top only id : NodeId} (passes : t.PassesTo m top only) :
    t.BlocksFrom m top id ↔ t.BlocksFrom m only id := by
  refine ⟨fun ⟨path, chosen, several⟩ => ?_, fun ⟨path, last⟩ => ⟨.head passes path, last⟩⟩
  rcases path.cases_head with rfl | ⟨c, ⟨_, child⟩, rest⟩
  · rw [passes.2] at several
    cases Nat.not_succ_le_self _ several
  · cases passes.2.symm.trans child
    exact ⟨rest, chosen, several⟩

/-- One goes no further where there is not one child. -/
theorem blocksFrom_end {top id : NodeId} (ends : (t.children top).length ≠ 1) :
    t.BlocksFrom m top id ↔
      top = id ∧ t.isMatch m top = true ∧ 2 ≤ (t.children top).length := by
  constructor
  · rintro ⟨path, chosen, several⟩
    rcases path.cases_head with rfl | ⟨c, ⟨_, child⟩, _⟩
    · exact ⟨rfl, chosen, several⟩
    · rw [child] at ends
      cases ends rfl
  · rintro ⟨rfl, last⟩
    exact ⟨.refl, last⟩

/-- The check follows the matches with one child down from the first tree. -/
theorem Holds.checkChainFrom_eq_error (held : t.Holds parent level f) {fuel : Nat}
    (enough : f.size ≤ fuel) {e : TreeError} :
    t.checkChainFrom m fuel f.tops.head? = .error e ↔
      ∃ top, f.tops.head? = some top ∧ ∃ id, e = .severalRoots id ∧ t.BlocksFrom m top id := by
  induction f generalizing parent level fuel with
  | nil => cases fuel <;> simp [checkChainFrom]
  | node entry children rest ihChildren _ =>
    obtain ⟨k, l⟩ := entry
    rw [size_node] at enough
    obtain ⟨fuel, rfl⟩ : ∃ n, fuel = n + 1 := ⟨fuel - 1, by omega⟩
    have fits : children.size ≤ fuel := by omega
    have below := ihChildren held.2.1 fits
    have listed : t.children k = children.tops := held.children_eq
    rw [tops_node, List.head?_cons, checkChainFrom]
    simp only [Option.some.injEq, exists_eq_left']
    by_cases chosen : t.isMatch m k = true
    · rw [if_pos chosen]
      rcases kids : t.children k with _ | ⟨only, _ | ⟨second, others⟩⟩
      · have ends : (t.children k).length ≠ 1 := by simp [kids]
        simp [blocksFrom_end ends, kids]
      · rw [← listed, kids, List.head?_cons] at below
        simp only [below, Option.some.injEq, exists_eq_left',
          blocksFrom_only (show t.PassesTo m k only from ⟨chosen, kids⟩)]
      · have ends : (t.children k).length ≠ 1 := by simp [kids]
        simp [blocksFrom_end ends, kids, chosen, eq_comm]
    · rw [if_neg chosen]
      constructor
      · intro failed
        cases failed
      · rintro ⟨id, _, blocks⟩
        exact absurd blocks.isMatch chosen

/-- If nothing blocks, no more than one root is left, whichever matches are gone. -/
theorem Holds.single_without (held : t.Holds parent level f) (single : f.tops.length ≤ 1)
    (free : ∀ top ∈ f.tops, ∀ id, ¬ t.BlocksFrom m top id) {gone : NodeId → Bool}
    (among : ∀ id ∈ f.places, gone id = true → t.isMatch m id = true) :
    (f.without gone).tops.length ≤ 1 := by
  induction f generalizing parent level with
  | nil => exact single
  | node entry children rest ihChildren _ =>
    obtain ⟨k, l⟩ := entry
    have listed : t.children k = children.tops := held.children_eq
    have alone : rest = nil := by
      cases rest with
      | nil => rfl
      | node => simp [tops, roots] at single
    subst alone
    rw [without_node, without_nil]
    split
    · next out =>
      have chosen := among k (by simp) out
      have few : children.tops.length ≤ 1 := by
        rw [← listed]
        refine Nat.le_of_not_lt fun several => free k List.mem_cons_self k ?_
        exact ⟨.refl, chosen, several⟩
      rw [append_nil]
      refine ihChildren held.2.1 few (fun top member id blocks => ?_) fun id member =>
        among id (by simp [member])
      have only : t.children k = [top] := by
        obtain ⟨only, same⟩ := List.length_eq_one_iff.1
          (Nat.le_antisymm few (List.length_pos_of_mem member))
        rw [same, List.mem_singleton] at member
        rw [listed, same, member]
      exact free k List.mem_cons_self id ((blocksFrom_only ⟨chosen, only⟩).2 blocks)
    · exact Nat.le_refl 1

theorem Rooted.checkChain_eq_error (rooted : t.Rooted f) {e : TreeError} :
    t.checkChainFrom m t.nodes.size t.root = .error e ↔
      ∃ id, e = .severalRoots id ∧ t.Blocks m id := by
  rw [rooted.root, rooted.held.checkChainFrom_eq_error (rooted.held.size_le rooted.distinct),
    ← rooted.root]
  constructor
  · rintro ⟨top, root, id, same, blocks⟩
    exact ⟨id, same, top, root, blocks⟩
  · rintro ⟨id, same, top, root, blocks⟩
    exact ⟨top, root, id, same, blocks⟩

/-- Removes the nodes in turn, counting them. What was removed before a failure stays removed. -/
def dissolveEachIn (t : ParseTree) : List NodeId → Nat → Except TreeError Nat × ParseTree
  | [], count => (.ok count, t)
  | id :: rest, count =>
    if t.isDetached id then t.dissolveEachIn rest count
    else match t.dissolveAt id with
      | .error e => (.error e, t)
      | .ok t' => t'.dissolveEachIn rest (count + 1)

/-- Removes every matching node, and tells how many there were. -/
def dissolveAllIn (t : ParseTree) (m : NodeMatch) : Except TreeError Nat × ParseTree :=
  match t.checkClosed, t.checkChainFrom m t.nodes.size t.root with
  | .error e, _ => (.error e, t)
  | .ok _, .error e => (.error e, t)
  | .ok _, .ok _ => t.dissolveEachIn (t.findAll m) 0

/-- The tree that a result leaves: a new one, or the old one where there was a failure. -/
def settle (t : ParseTree) : Except TreeError (Nat × ParseTree) → Except TreeError Nat × ParseTree
  | .ok (count, t') => (.ok count, t')
  | .error e => (.error e, t)

theorem dissolveEachIn_of_ok {ids : List NodeId} {count total : Nat}
    (done : dissolveEach ids (count, t) = .ok (total, t')) :
    t.dissolveEachIn ids count = (.ok total, t') := by
  induction ids generalizing t count with
  | nil =>
    cases done
    rfl
  | cons id rest ih =>
    rw [dissolveEach] at done
    rw [dissolveEachIn]
    split at done
    · next skipped =>
      rw [if_pos skipped]
      exact ih done
    · next attached =>
      rw [if_neg attached]
      cases cut : t.dissolveAt id with
      | error e =>
        rw [cut] at done
        cases done
      | ok u =>
        rw [cut] at done
        exact ih done

/-- The removal of all matches, where the check finds nothing that blocks. -/
theorem Rooted.removed (rooted : t.Rooted f)
    (chain : t.checkChainFrom m t.nodes.size t.root = .ok ()) :
    ∃ t', t.dissolveAll m = .ok ((t.findAll m).length, t') ∧
      t'.Rooted (f.without (t.isMatch m)) := by
  refine rooted.dissolved m chain fun gone among => ?_
  refine rooted.held.single_without rooted.single (fun top member id blocks => ?_) among
  have root : t.root = some top := by
    rw [← rooted.tops_eq] at member
    exact Option.mem_toList.1 member
  cases chain.symm.trans (rooted.checkChain_eq_error.2 ⟨id, rfl, top, root, blocks⟩)

theorem dissolveAll_eq (closed : t.isClosed = true) (m : NodeMatch) :
    t.dissolveAll m = (t.checkChainFrom m t.nodes.size t.root).bind fun _ =>
      dissolveEach (t.findAll m) (0, t) := by
  rw [ParseTree.dissolveAll, checkClosed, if_pos closed]
  rfl

/-- Removing all matches fails on the node that blocks and then leaves the tree as it was. If none
does, the matches are counted, and what is left is the tree without them. -/
theorem dissolveAll_exact (built : Built graft t) (closed : t.isClosed = true) (m : NodeMatch) :
    (∀ e, t.dissolveAll m = .error e ↔ ∃ id, e = .severalRoots id ∧ t.Blocks m id) ∧
    t.dissolveAllIn m = t.settle (t.dissolveAll m) ∧
    ((∀ id, ¬ t.Blocks m id) →
      ∃ t', t.dissolveAll m =
          .ok ({id | t.Reachable id ∧ t.isMatch m id = true}.ncard, t') ∧
        t.Without t' (t.isMatch m)) := by
  obtain ⟨f, carries⟩ := built.invariant.1
  have rooted := carries.rooted closed
  have counted : (t.findAll m).length = {id | t.Reachable id ∧ t.isMatch m id = true}.ncard :=
    (carries.represents.ncard_reachable (t.isMatch m)).symm
  have shut : t.checkClosed = .ok () := if_pos closed
  cases chain : t.checkChainFrom m t.nodes.size t.root with
  | error e =>
    have failed : t.dissolveAll m = .error e := by
      rw [dissolveAll_eq closed, chain]
      rfl
    obtain ⟨id, same, blocks⟩ := rooted.checkChain_eq_error.1 chain
    refine ⟨fun e' => ?_, ?_, fun free => absurd blocks (free id)⟩
    · rw [← rooted.checkChain_eq_error, failed, chain, Except.error.injEq, Except.error.injEq]
    · rw [failed, dissolveAllIn, shut, chain]
      rfl
  | ok =>
    obtain ⟨t', done, rest⟩ := rooted.removed chain
    refine ⟨fun e => ?_, ?_, fun _ => ⟨t', counted ▸ done, rooted.isWithout rest⟩⟩
    · rw [← rooted.checkChain_eq_error, done, chain]
      exact ⟨nofun, nofun⟩
    · have each := done
      rw [dissolveAll_eq closed, chain] at each
      rw [done, dissolveAllIn, shut, chain]
      exact dissolveEachIn_of_ok each

/-- A document with a list of an item and a separator: `(doc (list (item a) sep))`. -/
def itemList : ParseTree :=
  let leaf (name : String) : Token := { name, lexeme := name, attrs := {} }
  let doc := (({} : ParseTree).enter "doc" .concatenation).2
  let item := (((doc.enter "list" .repetition).2.enter "item" .concatenation).2.leaf (leaf "a")
    .terminal).2.close.2
  (item.leaf (leaf "sep") .terminal).2.close.2.close.2

theorem built_itemList (graft : ParseTree → Prop) : Built graft itemList :=
  ((((((Built.empty.enter _ _).enter _ _).enter _ _).leaf _ _).close.leaf _ _).close).close

theorem isClosed_itemList : itemList.isClosed = true := by decide +kernel

/-- The list cannot be removed along with the document, but it can be alone. -/
theorem dissolveAll_exact_itemList : ∃ t',
    itemList.dissolveAllIn (.anyOf ["doc", "list"]) = (.error (.severalRoots 1), itemList) ∧
    itemList.Blocks (.anyOf ["doc", "list"]) 1 ∧
    itemList.dissolveAllIn (.name "list") = (.ok 1, t') ∧ t'.outline = "(doc (item a) sep)" ∧
    itemList.Without t' (itemList.isMatch (.name "list")) := by
  obtain ⟨fails, inPlace, -⟩ :=
    dissolveAll_exact (built_itemList fun _ => False) isClosed_itemList
      (.anyOf ["doc", "list"])
  have failed : itemList.dissolveAll (.anyOf ["doc", "list"]) = .error (.severalRoots 1) := by
    decide +kernel
  obtain ⟨id, same, blocks⟩ := (fails _).1 failed
  cases same
  obtain ⟨fails', inPlace', removes⟩ :=
    dissolveAll_exact (built_itemList fun _ => False) isClosed_itemList (.name "list")
  have result : (itemList.dissolveAll (.name "list")).map (fun r => (r.1, r.2.outline)) =
      .ok (1, "(doc (item a) sep)") := by decide +kernel
  have free : ∀ id, ¬ itemList.Blocks (.name "list") id := by
    intro id blocks
    rw [(fails' _).2 ⟨id, rfl, blocks⟩] at result
    cases result
  obtain ⟨t', done, rest⟩ := removes free
  rw [done] at result
  obtain ⟨counted, outline⟩ := Prod.mk.inj (Except.ok.inj result)
  refine ⟨t', ?_, blocks, ?_, outline, rest⟩
  · rw [inPlace, failed]
    rfl
  · rw [inPlace', done, ← counted]
    rfl

/-- Whether a node is a match and has exactly one child. -/
def isSingle (t : ParseTree) (m : NodeMatch) (id : NodeId) : Bool :=
  t.isMatch m id && decide ((t.children id).length = 1)

theorem isSingle_iff {id : NodeId} :
    t.isSingle m id = true ↔ t.isMatch m id = true ∧ (t.children id).length = 1 := by
  rw [isSingle, Bool.and_eq_true, decide_eq_true_eq]

/-- Whether a node is a match is seen from what it holds. -/
theorem isMatch_eq (t : ParseTree) (m : NodeMatch) (id : NodeId) :
    t.isMatch m id = (t.label? id).any m.selects := by
  rw [isMatch, label?]
  cases t.node? id with
  | none => rfl
  | some n => cases m <;> rfl

theorem Without.isMatch {gone : NodeId → Bool} (without : t.Without t' gone) (m : NodeMatch)
    {id : NodeId} (member : id ∈ t'.preOrder) : t'.isMatch m id = t.isMatch m id := by
  rw [isMatch_eq, isMatch_eq, without.labels id member]

/-- A node that stays has as many children as it had, if all that go had one. -/
theorem Rooted.length_children {gone : NodeId → Bool} (rooted : t.Rooted f)
    (rooted' : t'.Rooted (f.without gone))
    (single : ∀ id ∈ f.places, gone id = true → (t.children id).length = 1) {id : NodeId}
    (member : id ∈ t'.preOrder) : (t'.children id).length = (t.children id).length := by
  rw [rooted'.preOrder_eq] at member
  obtain ⟨listed, kept⟩ := mem_places_without.1 member
  obtain ⟨n, found, _⟩ := rooted.held.found listed
  have below := rooted.held.under listed found
  have distinct := (places_under_sublist f id).nodup rooted.distinct
  rw [rooted'.children_eq member, under_without kept, rooted.children_eq listed]
  refine length_tops_without distinct fun j inside out => ?_
  obtain ⟨q, known, _⟩ := below.found inside
  have one := single j (under_subset j inside) out
  rw [← below.children_under inside known]
  rwa [ParseTree.children, known] at one

/-- Nothing happens where no node has one child. -/
theorem collapseEach_unchanged {ids : List NodeId}
    (apart : ∀ id ∈ ids, (t.children id).length ≠ 1) (count : Nat) :
    collapseEach ids (count, t) = (count, t) := by
  induction ids with
  | nil => rfl
  | cons id rest ih =>
    have later := ih fun j member => apart j (List.mem_cons_of_mem _ member)
    rw [collapseEach, collapseAt, if_neg (apart id List.mem_cons_self)]
    split <;> exact later

/-- Where all matches with one child are gone, no match has one child. -/
theorem Rooted.isSingle_without (rooted : t.Rooted f)
    (rooted' : t'.Rooted (f.without (t.isSingle m))) {id : NodeId} (member : id ∈ t'.preOrder) :
    t'.isSingle m id = false := by
  have without := rooted.isWithout rooted'
  have children := rooted.length_children rooted'
    (fun _ _ gone => (isSingle_iff.1 gone).2) member
  have stays := (List.mem_filter.1 (without.order ▸ member)).2
  rw [isSingle, without.isMatch m member, children]
  exact Bool.not_eq_true' _ ▸ stays

/-- Reducing all matches succeeds and counts those with one child. What is left is the tree without
them, in which no match has one child, so that a second time nothing is reduced. -/
theorem collapseAll_exact (built : Built graft t) (closed : t.isClosed = true) (m : NodeMatch) :
    ∃ t', t.collapseAll m =
        .ok ({id | t.Reachable id ∧ t.isSingle m id = true}.ncard, t') ∧
      t.Without t' (t.isSingle m) ∧
      (∀ id, t'.isMatch m id = true → (t'.children id).length ≠ 1) ∧
      t'.collapseAll m = .ok (0, t') := by
  obtain ⟨f, carries⟩ := built.invariant.1
  have rooted := carries.rooted closed
  obtain ⟨t', done, rest⟩ := rooted.collapsed m
  have rest : t'.Rooted (f.without (t.isSingle m)) := rest
  obtain ⟨g, carries'⟩ := (built.collapseAll done).invariant.1
  have apart : ∀ id, t'.isMatch m id = true → (t'.children id).length ≠ 1 := by
    intro id chosen one
    -- Nodes that were cut out have no children.
    obtain ⟨c, child⟩ := List.exists_mem_of_length_pos (Nat.lt_of_lt_of_eq Nat.one_pos one.symm)
    have member : id ∈ t'.preOrder := by
      rw [carries'.preOrder_eq]
      exact carries'.mem_places_of_child child
    cases (isSingle_iff.2 ⟨chosen, one⟩).symm.trans (rooted.isSingle_without rest member)
  refine ⟨t', ?_, rooted.isWithout rest, apart, ?_⟩
  · have both : (fun id => decide ((t.children id).length = 1) && t.isMatch m id) =
        t.isSingle m := funext fun _ => Bool.and_comm _ _
    rw [done, carries.represents.ncard_reachable (t.isSingle m), findAll, List.filter_filter, both]
  · rw [ParseTree.collapseAll, checkClosed, if_pos rest.isClosed]
    exact congrArg Except.ok (collapseEach_unchanged
      (fun id listed => apart id (List.mem_filter.1 listed).2) 0)

/-- Of the document, the list and the item, the list alone has several children. -/
theorem collapseAll_exact_itemList : ∃ t',
    itemList.collapseAll (.anyOf ["doc", "list", "item"]) = .ok (2, t') ∧
    t'.outline = "(list a sep)" ∧
    itemList.Without t' (itemList.isSingle (.anyOf ["doc", "list", "item"])) ∧
    t'.collapseAll (.anyOf ["doc", "list", "item"]) = .ok (0, t') := by
  obtain ⟨t', done, without, _, again⟩ :=
    collapseAll_exact (built_itemList fun _ => False) isClosed_itemList
      (.anyOf ["doc", "list", "item"])
  have result : (itemList.collapseAll (.anyOf ["doc", "list", "item"])).map
      (fun r => (r.1, r.2.outline)) = .ok (2, "(list a sep)") := by decide +kernel
  rw [done] at result
  obtain ⟨counted, outline⟩ := Prod.mk.inj (Except.ok.inj result)
  exact ⟨t', by rw [done, ← counted], outline, without, again⟩

end ParseTree

end AttrGrammar
