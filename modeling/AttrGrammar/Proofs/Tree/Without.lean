import AttrGrammar.Proofs.Tree.Forest

/-!
Taking nodes out of a forest: the children of a node stand in its place.

`without` takes out the nodes at given places, `cut` those that a test on the label and the children
as they were at first selects. `under` finds the children of a place. The main statements say that
nodes may be taken out one after the other, and what is then under the others.
-/

namespace AttrGrammar.Forest

variable {α β : Type}

/-- Puts the children of selected nodes in their places. -/
def cut (selected : α → Forest α → Bool) : Forest α → Forest α
  | nil => nil
  | node a children rest =>
    if selected a children then cut selected children ++ cut selected rest
    else node a (cut selected children) (cut selected rest)

/-- Puts the children of the nodes at some places in their places. -/
def without (out : NodeId → Bool) : Planted → Planted := cut fun entry _ => out entry.1

/-- The trees under a place. -/
def under (id : NodeId) : Planted → Planted
  | nil => nil
  | node entry children rest =>
    if entry.1 = id then children
    else if id ∈ children.places then under id children
    else under id rest

variable {f g : Planted} {id j : NodeId} {out more : NodeId → Bool}

@[simp] theorem without_nil (out : NodeId → Bool) : without out nil = nil := rfl

theorem without_node (out : NodeId → Bool) (entry : NodeId × Label) (children rest : Planted) :
    without out (node entry children rest) =
      if out entry.1 then without out children ++ without out rest
      else node entry (without out children) (without out rest) := rfl

@[simp] theorem cut_append (selected : α → Forest α → Bool) (f g : Forest α) :
    (f ++ g).cut selected = f.cut selected ++ g.cut selected := by
  induction f with
  | nil => rfl
  | node a children rest _ ih =>
    rw [node_append, cut, cut, ih]
    split
    · rw [append_assoc]
    · rfl

theorem cut_tree (selected : α → Forest α → Bool) (a : α) (f : Forest α) :
    (tree a f).cut selected =
      if selected a f then f.cut selected else tree a (f.cut selected) := by
  rw [tree, cut, cut, append_nil]
  rfl

@[simp] theorem without_append (out : NodeId → Bool) (f g : Planted) :
    (f ++ g).without out = f.without out ++ g.without out := cut_append _ f g

/-- The nodes that stay keep their labels and their order. -/
theorem preorder_without (f : Planted) (out : NodeId → Bool) :
    (f.without out).preorder = f.preorder.filter fun entry => !out entry.1 := by
  induction f with
  | nil => rfl
  | node entry children rest ihChildren ihRest =>
    rw [without_node, preorder]
    by_cases gone : out entry.1 = true
    · rw [if_pos gone, preorder_append, ihChildren, ihRest,
        List.filter_cons_of_neg (by simp [gone]), List.filter_append]
    · rw [if_neg gone, preorder, ihChildren, ihRest,
        List.filter_cons_of_pos (by simpa using gone), List.filter_append]

theorem places_without (f : Planted) (out : NodeId → Bool) :
    (f.without out).places = f.places.filter fun id => !out id := by
  rw [places, preorder_without, places, List.filter_map]
  rfl

theorem mem_places_without :
    id ∈ (f.without out).places ↔ id ∈ f.places ∧ out id = false := by
  rw [places_without, List.mem_filter, Bool.not_eq_true']

theorem places_without_sublist (f : Planted) (out : NodeId → Bool) :
    (f.without out).places.Sublist f.places := by
  rw [places_without]
  exact List.filter_sublist

theorem without_congr (same : ∀ id ∈ f.places, out id = more id) :
    f.without out = f.without more := by
  induction f with
  | nil => rfl
  | node entry children rest ihChildren ihRest =>
    obtain ⟨k, l⟩ := entry
    rw [places_node] at same
    have here := same k List.mem_cons_self
    have inside := ihChildren fun id member =>
      same id (List.mem_cons_of_mem _ (List.mem_append_left _ member))
    have beside := ihRest fun id member =>
      same id (List.mem_cons_of_mem _ (List.mem_append_right _ member))
    rw [without_node, without_node, inside, beside]
    dsimp only
    rw [here]

theorem without_none (kept : ∀ id ∈ f.places, out id = false) : f.without out = f := by
  induction f with
  | nil => rfl
  | node entry children rest ihChildren ihRest =>
    obtain ⟨k, l⟩ := entry
    rw [places_node] at kept
    rw [without_node, if_neg (by simp [kept k List.mem_cons_self]),
      ihChildren fun id member => kept id (List.mem_cons_of_mem _ (List.mem_append_left _ member)),
      ihRest fun id member => kept id (List.mem_cons_of_mem _ (List.mem_append_right _ member))]

theorem without_absent (absent : id ∉ f.places) : f.without (· == id) = f := by
  refine without_none fun j member => ?_
  have other : j ≠ id := fun same => absent (same ▸ member)
  simpa using other

/-- Nodes may be taken out in two goes. -/
theorem without_without (f : Planted) (out more : NodeId → Bool) :
    (f.without out).without more = f.without fun id => out id || more id := by
  induction f with
  | nil => rfl
  | node entry children rest ihChildren ihRest =>
    obtain ⟨k, l⟩ := entry
    rw [without_node, without_node]
    by_cases gone : out k = true
    · rw [if_pos gone, if_pos (by simp [gone]), without_append, ihChildren, ihRest]
    · rw [if_neg gone, without_node, ihChildren, ihRest]
      simp [gone]

theorem under_subset : ∀ j ∈ (f.under id).places, j ∈ f.places := by
  induction f with
  | nil => simp [under]
  | node entry children rest ihChildren ihRest =>
    obtain ⟨k, l⟩ := entry
    intro j member
    rw [under] at member
    rw [places_node]
    split at member
    · exact List.mem_cons_of_mem _ (List.mem_append_left _ member)
    · split at member
      · exact List.mem_cons_of_mem _ (List.mem_append_left _ (ihChildren j member))
      · exact List.mem_cons_of_mem _ (List.mem_append_right _ (ihRest j member))

theorem places_under_sublist (f : Planted) (id : NodeId) :
    (f.under id).places.Sublist f.places := by
  induction f with
  | nil => exact List.Sublist.refl _
  | node entry children rest ihChildren ihRest =>
    obtain ⟨k, l⟩ := entry
    rw [under, places_node]
    split
    · exact (List.sublist_append_left _ _).cons k
    · split
      · exact (ihChildren.trans (List.sublist_append_left _ _)).cons k
      · exact (ihRest.trans (List.sublist_append_right _ _)).cons k

theorem under_append (f g : Planted) :
    (f ++ g).under id = if id ∈ f.places then f.under id else g.under id := by
  induction f with
  | nil => simp
  | node entry children rest _ ih =>
    obtain ⟨k, l⟩ := entry
    rw [node_append, under, under, ih, places_node]
    by_cases here : k = id
    · simp [here]
    · by_cases inside : id ∈ children.places
      · simp [here, inside]
      · simp [here, inside, Ne.symm here]

/-- What is under a place that stays is what was under it, with the same nodes taken out. -/
theorem under_without (kept : out id = false) :
    (f.without out).under id = (f.under id).without out := by
  induction f with
  | nil => rfl
  | node entry children rest ihChildren ihRest =>
    obtain ⟨k, l⟩ := entry
    rw [without_node, under]
    by_cases gone : out k = true
    · have other : k ≠ id := fun same => by rw [same, kept] at gone; cases gone
      rw [if_pos gone, if_neg other, under_append, ihChildren, ihRest]
      simp only [mem_places_without, kept, and_true]
      split <;> rfl
    · rw [if_neg gone, under]
      by_cases here : k = id
      · rw [if_pos here, if_pos here]
      · rw [if_neg here, if_neg here, ihChildren, ihRest]
        simp only [mem_places_without, kept, and_true]
        split <;> rfl

/-- The parts of a planted forest whose places are distinct. -/
theorem distinct_node {entry : NodeId × Label} {children rest : Planted}
    (distinct : (node entry children rest).places.Nodup) :
    (entry.1 ∉ children.places ∧ entry.1 ∉ rest.places) ∧ children.places.Nodup ∧
      rest.places.Nodup ∧ ∀ id ∈ children.places, id ∉ rest.places := by
  obtain ⟨k, l⟩ := entry
  rw [places_node, List.nodup_cons, List.nodup_append, List.mem_append, not_or] at distinct
  obtain ⟨outside, inside, beside, apart⟩ := distinct
  exact ⟨outside, inside, beside, fun id member also => apart id member id also rfl⟩

theorem not_mem_under_self (distinct : f.places.Nodup) : id ∉ (f.under id).places := by
  induction f with
  | nil => simp [under]
  | node entry children rest ihChildren ihRest =>
    obtain ⟨⟨notInside, _⟩, inside, beside, _⟩ := distinct_node distinct
    rw [under]
    split
    · next here => exact here ▸ notInside
    · split
      · exact ihChildren inside
      · exact ihRest beside

/-- A place is not under those that come later. -/
theorem pairwise_not_under (distinct : f.places.Nodup) :
    f.places.Pairwise fun i j => i ∉ (f.under j).places := by
  induction f with
  | nil => exact List.Pairwise.nil
  | node entry children rest ihChildren ihRest =>
    obtain ⟨k, l⟩ := entry
    obtain ⟨⟨notInside, notBeside⟩, inside, beside, apart⟩ := distinct_node distinct
    have underChild : ∀ j ∈ children.places,
        (node (k, l) children rest).under j = children.under j := by
      intro j member
      have other : k ≠ j := fun same => notInside (same ▸ member)
      rw [under, if_neg other, if_pos member]
    have underRest : ∀ j ∈ rest.places, (node (k, l) children rest).under j = rest.under j := by
      intro j member
      have other : k ≠ j := fun same => notBeside (same ▸ member)
      rw [under, if_neg other, if_neg fun also => apart j also member]
    rw [places_node]
    refine List.pairwise_cons.2 ⟨fun j member below => ?_, List.pairwise_append.2 ⟨?_, ?_, ?_⟩⟩
    · rcases List.mem_append.1 member with member | member
      · rw [underChild j member] at below
        exact notInside (under_subset k below)
      · rw [underRest j member] at below
        exact notBeside (under_subset k below)
    · exact (ihChildren inside).imp_of_mem fun {i j} _ member apart => by
        rwa [underChild j member]
    · exact (ihRest beside).imp_of_mem fun {i j} _ member apart => by
        rwa [underRest j member]
    · intro i first j member below
      rw [underRest j member] at below
      exact apart i first (under_subset i below)

/-- Where none of the trees themselves is taken out, they all stay. -/
theorem tops_without_kept (kept : ∀ id ∈ f.tops, out id = false) :
    (f.without out).tops = f.tops := by
  induction f with
  | nil => rfl
  | node entry children rest _ ih =>
    obtain ⟨k, l⟩ := entry
    rw [tops_node] at kept
    rw [without_node, if_neg (by simp [kept k List.mem_cons_self]), tops_node, tops_node,
      ih fun id member => kept id (List.mem_cons_of_mem _ member)]

/-- Where only nodes with one child are taken out, there are as many trees as before. -/
theorem length_tops_without (distinct : f.places.Nodup)
    (single : ∀ id ∈ f.places, out id = true → (f.under id).tops.length = 1) :
    (f.without out).tops.length = f.tops.length := by
  induction f with
  | nil => rfl
  | node entry children rest ihChildren ihRest =>
    obtain ⟨k, l⟩ := entry
    obtain ⟨⟨notInside, notBeside⟩, inside, beside, apart⟩ := distinct_node distinct
    rw [places_node] at single
    have childrenStay : (children.without out).tops.length = children.tops.length := by
      refine ihChildren inside fun id member gone => ?_
      have one := single id (List.mem_cons_of_mem _ (List.mem_append_left _ member)) gone
      rwa [under, if_neg (fun same : k = id => notInside (same ▸ member)), if_pos member] at one
    have restStay : (rest.without out).tops.length = rest.tops.length := by
      refine ihRest beside fun id member gone => ?_
      have one := single id (List.mem_cons_of_mem _ (List.mem_append_right _ member)) gone
      rwa [under, if_neg (fun same : k = id => notBeside (same ▸ member)),
        if_neg fun also => apart id also member] at one
    rw [without_node]
    split
    · next gone =>
      have one := single k List.mem_cons_self gone
      rw [under, if_pos rfl] at one
      rw [tops_append, List.length_append, childrenStay, restStay, one, tops_node,
        List.length_cons, Nat.add_comm]
    · rw [tops_node, tops_node, List.length_cons, List.length_cons, restStay]

/-- Where no tree is selected, the same trees stay. -/
theorem roots_cut_kept {selected : α → Forest α → Bool} {f : Forest α}
    (kept : ∀ a ∈ f.roots, ∀ children, selected a children = false) :
    (f.cut selected).roots = f.roots := by
  induction f with
  | nil => rfl
  | node a children rest _ ih =>
    rw [cut, if_neg (by simp [kept a List.mem_cons_self children]), roots, roots,
      ih fun b member => kept b (List.mem_cons_of_mem _ member)]

/-- A test on places agrees with one on labels and children. -/
def Agrees (out : NodeId → Bool) (selected : NodeId × Label → Planted → Bool) : Planted → Prop
  | nil => True
  | node entry children rest =>
    out entry.1 = selected entry children ∧ Agrees out selected children ∧
      Agrees out selected rest

theorem without_eq_cut {selected : NodeId × Label → Planted → Bool}
    (agrees : Agrees out selected f) : f.without out = f.cut selected := by
  induction f with
  | nil => rfl
  | node entry children rest ihChildren ihRest =>
    obtain ⟨here, inside, beside⟩ := agrees
    rw [without_node, cut, ihChildren inside, ihRest beside, here]

/-- Cutting by the images of labels commutes with taking images. -/
theorem map_cut {select : α → Forest α → Bool} {selected : β → Forest β → Bool} {h : α → β}
    (same : ∀ a children, select a children = selected (h a) (children.map h)) (f : Forest α) :
    (f.cut select).map h = (f.map h).cut selected := by
  induction f with
  | nil => rfl
  | node a children rest ihChildren ihRest =>
    rw [cut, map, cut, ← same]
    split
    · rw [map_append, ihChildren, ihRest]
    · rw [map, ihChildren, ihRest]

end AttrGrammar.Forest
