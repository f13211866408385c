import AttrGrammar.Proofs.Tree.Splicing

/-!
Walks that come to children before parents, and the way down to first leaves.
-/

namespace AttrGrammar

namespace Forest

theorem perm_postorder {α : Type} (f : Forest α) : f.postorder.Perm f.preorder := by
  induction f with
  | nil => exact .nil
  | node label children rest ihChildren ihRest =>
    exact (ihChildren.append (ihRest.cons label)).trans List.perm_middle

theorem mem_postorder {α : Type} {f : Forest α} {a : α} : a ∈ f.postorder ↔ a ∈ f.preorder :=
  (perm_postorder f).mem_iff

theorem nodup_tree_under {f : Planted} (distinct : f.places.Nodup) (id : NodeId) (l : Label) :
    (tree (id, l) (f.under id)).places.Nodup := by
  rw [tree, places_node, places_nil, List.append_nil]
  exact List.nodup_cons.2
    ⟨not_mem_under_self distinct, (places_under_sublist f id).nodup distinct⟩

end Forest

open Forest

namespace ParseTree

variable {t : ParseTree} {parent : Option NodeId} {level : Nat}

/-- No node is its own parent. -/
theorem Holds.parent_ne {f : Planted} (held : t.Holds parent level f) (distinct : f.places.Nodup)
    (outside : ∀ p, parent = some p → p ∉ f.places) {id : NodeId} (member : id ∈ f.places) :
    t.parent? id ≠ some id := by
  induction f generalizing parent level with
  | nil => cases member
  | node entry children rest ihChildren ihRest =>
    obtain ⟨k, l⟩ := entry
    obtain ⟨found, below, beside⟩ := held
    rw [places_node] at distinct outside member
    obtain ⟨fresh, both⟩ := List.nodup_cons.1 distinct
    obtain ⟨distinctChildren, distinctRest, _⟩ := List.nodup_append.1 both
    rcases List.mem_cons.1 member with rfl | member
    · intro above
      rw [parent?, found] at above
      exact outside id above List.mem_cons_self
    rcases List.mem_append.1 member with inside | inside
    · refine ihChildren below distinctChildren (fun p above within => fresh ?_) inside
      cases above
      exact List.mem_append_left _ within
    · exact ihRest beside distinctRest (fun p above within =>
        outside p above (List.mem_cons_of_mem _ (List.mem_append_right _ within))) inside

theorem Holds.parent_tops {f : Planted} (held : t.Holds parent level f) :
    ∀ id ∈ f.tops, t.parent? id = parent := by
  induction f generalizing parent level with
  | nil => exact nofun
  | node entry children rest _ ihRest =>
    obtain ⟨k, l⟩ := entry
    obtain ⟨found, _, beside⟩ := held
    intro id member
    rcases List.mem_cons.1 member with rfl | member
    · rw [parent?, found]
      rfl
    · exact ihRest beside id member

theorem Holds.children_subset {f : Planted} (held : t.Holds parent level f) {id : NodeId}
    (member : id ∈ f.places) : ∀ c ∈ t.children id, c ∈ (f.under id).places := by
  obtain ⟨n, found, _⟩ := held.found member
  intro c listed
  rw [children, found] at listed
  exact tops_subset_places _ c (held.children_under member found ▸ listed)

/-- A node with the trees under it. -/
theorem Holds.tree_under {f : Planted} (held : t.Holds parent level f) {id : NodeId}
    (member : id ∈ f.places) :
    ∃ l above depth, t.Holds above depth (tree (id, l) (f.under id)) := by
  obtain ⟨⟨_, l⟩, listed, rfl⟩ := List.mem_map.1 member
  obtain ⟨children, above, depth, found⟩ := held.node? listed
  obtain ⟨same, under⟩ := held.subtree member found
  have same : children = (f.under _).tops := same
  exact ⟨l, above, depth, same ▸ found, under, trivial⟩

/-- In postorder no node is a child of one before it. -/
theorem Holds.pairwise_children {f : Planted} (held : t.Holds parent level f)
    (distinct : f.places.Nodup) :
    (f.postorder.map Prod.fst).Pairwise fun i j => j ∉ t.children i := by
  induction f generalizing parent level with
  | nil => exact .nil
  | node entry children rest ihChildren ihRest =>
    obtain ⟨k, l⟩ := entry
    obtain ⟨found, below, beside⟩ := held
    rw [places_node] at distinct
    obtain ⟨fresh, both⟩ := List.nodup_cons.1 distinct
    obtain ⟨distinctChildren, distinctRest, apart⟩ := List.nodup_append.1 both
    have places : ∀ {g : Planted} {i : NodeId}, i ∈ g.postorder.map Prod.fst → i ∈ g.places := by
      intro g i listed
      obtain ⟨entry, inside, rfl⟩ := List.mem_map.1 listed
      exact List.mem_map_of_mem (mem_postorder.1 inside)
    rw [postorder, List.map_append, List.map_cons]
    refine List.pairwise_append.2 ⟨ihChildren below distinctChildren,
      List.pairwise_cons.2 ⟨fun j later child => ?_, ihRest beside distinctRest⟩, ?_⟩
    · rw [ParseTree.children, found] at child
      exact apart j (tops_subset_places _ j child) j (places later) rfl
    · intro i inside j later child
      have within := under_subset _ (below.children_subset (places inside) j child)
      rcases List.mem_cons.1 later with rfl | later
      · exact fresh (List.mem_append_left _ within)
      · exact apart j within j (places later) rfl

/-- No node is its own child. -/
theorem Holds.child_ne {f : Planted} (held : t.Holds parent level f) (distinct : f.places.Nodup)
    {id : NodeId} (member : id ∈ f.places) : id ∉ t.children id :=
  fun child => not_mem_under_self distinct (held.children_subset member id child)

theorem Rooted.parent_of_child {f : Planted} (rooted : t.Rooted f) {id c : NodeId}
    (member : id ∈ f.places) (child : c ∈ t.children id) : t.parent? c = some id := by
  obtain ⟨n, found, _⟩ := rooted.held.found member
  rw [rooted.children_eq member] at child
  exact (rooted.held.under member found).parent_tops c child

theorem Rooted.postOrder_eq {f : Planted} (rooted : t.Rooted f) :
    t.postOrder = f.postorder.map Prod.fst := by
  rw [postOrder, rooted.tops_eq]
  exact postOrderFrom_tops rooted.held _
    (Nat.mul_le_mul_left 2 (rooted.held.size_le rooted.distinct))

theorem Rooted.distinct_postOrder {f : Planted} (rooted : t.Rooted f) : t.postOrder.Nodup := by
  rw [rooted.postOrder_eq]
  exact ((perm_postorder f).map Prod.fst).nodup_iff.2 rooted.distinct

theorem Rooted.mem_postOrder {f : Planted} (rooted : t.Rooted f) {id : NodeId} :
    id ∈ t.postOrder ↔ id ∈ f.places := by
  rw [rooted.postOrder_eq]
  exact ((perm_postorder f).map Prod.fst).mem_iff

/-- The leaf that is reached first from the first tree of a planted forest. -/
def firstLeafOf : Planted → Option NodeId
  | nil => none
  | node (id, l) children _ => if l.isLeaf then some id else firstLeafOf children

theorem firstLeafFrom_holds {f : Planted} (held : t.Holds parent level f) {fuel : Nat}
    (enough : f.size ≤ fuel) : f.tops.head?.bind (t.firstLeafFrom fuel) = firstLeafOf f := by
  induction f generalizing parent level fuel with
  | nil => rfl
  | node entry children rest ihChildren _ =>
    obtain ⟨k, l⟩ := entry
    obtain ⟨fuel, rfl⟩ : ∃ n, fuel = n + 1 := ⟨fuel - 1, by simp only [Forest.size] at enough; omega⟩
    have leaf : t.isLeaf k = l.isLeaf := by
      rw [isLeaf, held.1]
      rfl
    have inside : children.size ≤ fuel := by
      simp only [Forest.size] at enough
      omega
    rw [tops_node, List.head?_cons, Option.bind_some, firstLeafFrom, leaf, held.children_eq,
      ihChildren held.2.1 inside, firstLeafOf]

end ParseTree

end AttrGrammar
