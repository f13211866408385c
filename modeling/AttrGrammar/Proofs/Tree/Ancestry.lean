import AttrGrammar.Proofs.Tree.Representation
import Mathlib.Data.Set.Card

/-!
Ancestors, in trees and in the forests that they carry.

The places above a place of a forest are read off on the way down to it. They are the ancestors
that the parents in the array give, and their number is the level. The main statement is about two
trees one of which carries what is left of the forest of the other one: nothing but the nodes
between them is gone from above a node.
-/

namespace AttrGrammar

namespace Forest

variable {f g : Planted} {id : NodeId} {out : NodeId → Bool}

/-- The places above a place, from the top down. -/
def above (id : NodeId) : Planted → List NodeId
  | nil => []
  | node entry children rest =>
    if entry.1 = id then []
    else if id ∈ children.places then entry.1 :: above id children
    else above id rest

theorem above_self (id : NodeId) (l : Label) (children rest : Planted) :
    (node (id, l) children rest).above id = [] := if_pos rfl

theorem above_inside {k : NodeId} {l : Label} {children rest : Planted}
    (distinct : (node (k, l) children rest).places.Nodup) (member : id ∈ children.places) :
    (node (k, l) children rest).above id = k :: children.above id := by
  obtain ⟨⟨notInside, _⟩, _⟩ := distinct_node distinct
  have other : k ≠ id := fun same => notInside (same ▸ member)
  rw [above, if_neg other, if_pos member]

theorem above_beside {k : NodeId} {l : Label} {children rest : Planted}
    (distinct : (node (k, l) children rest).places.Nodup) (member : id ∈ rest.places) :
    (node (k, l) children rest).above id = rest.above id := by
  obtain ⟨⟨_, notBeside⟩, _, _, apart⟩ := distinct_node distinct
  have other : k ≠ id := fun same => notBeside (same ▸ member)
  rw [above, if_neg other, if_neg fun also => apart id also member]

theorem above_sublist (f : Planted) (id : NodeId) : (f.above id).Sublist f.places := by
  induction f with
  | nil => exact List.Sublist.refl _
  | node entry children rest ihChildren ihRest =>
    obtain ⟨k, l⟩ := entry
    rw [above, places_node]
    split
    · exact List.nil_sublist _
    · split
      · exact (ihChildren.trans (List.sublist_append_left _ _)).cons_cons k
      · exact (ihRest.trans (List.sublist_append_right _ _)).cons k

theorem above_append (f g : Planted) :
    (f ++ g).above id = if id ∈ f.places then f.above id else g.above id := by
  induction f with
  | nil => simp
  | node entry children rest _ ih =>
    obtain ⟨k, l⟩ := entry
    rw [node_append, above, above, ih, places_node]
    by_cases here : k = id
    · simp [here]
    · by_cases inside : id ∈ children.places
      · simp [here, inside]
      · simp [here, inside, Ne.symm here]

/-- Above a place that stays are those of the places above it that stay. -/
theorem above_without (kept : out id = false) :
    (f.without out).above id = (f.above id).filter fun a => !out a := by
  induction f with
  | nil => rfl
  | node entry children rest ihChildren ihRest =>
    obtain ⟨k, l⟩ := entry
    rw [without_node, above]
    by_cases gone : out k = true
    · have other : k ≠ id := fun same => by rw [same, kept] at gone; cases gone
      rw [if_pos gone, if_neg other, above_append, ihChildren, ihRest]
      simp only [mem_places_without, kept, and_true]
      split
      · rw [List.filter_cons_of_neg (by simp [gone])]
      · rfl
    · rw [if_neg gone, above]
      by_cases here : k = id
      · rw [if_pos here, if_pos here]
        rfl
      · rw [if_neg here, if_neg here, ihChildren, ihRest]
        simp only [mem_places_without, kept, and_true]
        split
        · rw [List.filter_cons_of_pos (by simpa using gone)]
        · rfl

/-- No place is above itself. -/
theorem not_above_self (distinct : f.places.Nodup) : id ∉ f.above id := by
  induction f with
  | nil => exact List.not_mem_nil
  | node entry children rest ihChildren ihRest =>
    obtain ⟨k, l⟩ := entry
    obtain ⟨_, inside, beside, _⟩ := distinct_node distinct
    rw [above]
    split
    · exact List.not_mem_nil
    · next other =>
      split
      · rw [List.mem_cons, not_or]
        exact ⟨Ne.symm other, ihChildren inside⟩
      · exact ihRest beside

/-- In preorder the places above a place stand before it. -/
theorem pairwise_above (distinct : f.places.Nodup) : f.places.Pairwise fun i j => j ∉ f.above i := by
  induction f with
  | nil => exact .nil
  | node entry children rest ihChildren ihRest =>
    obtain ⟨k, l⟩ := entry
    obtain ⟨⟨notInside, notBeside⟩, inside, beside, apart⟩ := distinct_node distinct
    rw [places_node]
    refine List.pairwise_cons.2 ⟨fun j _ => ?_, List.pairwise_append.2 ⟨?_, ?_, ?_⟩⟩
    · rw [above_self]
      exact List.not_mem_nil
    · refine (ihChildren inside).imp_of_mem fun {i j} here there notAbove => ?_
      rw [above_inside distinct here, List.mem_cons, not_or]
      exact ⟨fun same => notInside (same ▸ there), notAbove⟩
    · refine (ihRest beside).imp_of_mem fun {i j} here _ notAbove => ?_
      rwa [above_beside distinct here]
    · intro i here j there
      rw [above_inside distinct here, List.mem_cons, not_or]
      exact ⟨fun same => notBeside (same ▸ there),
        fun up => apart j ((above_sublist children i).subset up) there⟩

/-- In postorder they stand after it. -/
theorem pairwise_above_postorder (distinct : f.places.Nodup) :
    (f.postorder.map Prod.fst).Pairwise fun i j => i ∉ f.above j := by
  induction f with
  | nil => exact .nil
  | node entry children rest ihChildren ihRest =>
    obtain ⟨k, l⟩ := entry
    obtain ⟨⟨notInside, notBeside⟩, inside, beside, apart⟩ := distinct_node distinct
    have places : ∀ {g : Planted} {i : NodeId}, i ∈ g.postorder.map Prod.fst → i ∈ g.places :=
      fun listed => ((perm_postorder _).map Prod.fst).mem_iff.1 listed
    have later : ∀ {i j}, j ∈ rest.places → i ∉ rest.places →
        i ∉ (node (k, l) children rest).above j := by
      intro i j here away up
      rw [above_beside distinct here] at up
      exact away ((above_sublist rest j).subset up)
    rw [postorder, List.map_append, List.map_cons]
    refine List.pairwise_append.2 ⟨?_, List.pairwise_cons.2 ⟨fun j there => ?_, ?_⟩, ?_⟩
    · refine (ihChildren inside).imp_of_mem fun {i j} here there notAbove => ?_
      rw [above_inside distinct (places there), List.mem_cons, not_or]
      exact ⟨fun same => notInside (same ▸ places here), notAbove⟩
    · exact later (places there) notBeside
    · refine (ihRest beside).imp_of_mem fun {i j} _ there notAbove => ?_
      rwa [above_beside distinct (places there)]
    · intro i here j there
      rcases List.mem_cons.1 there with rfl | there
      · rw [above_self]
        exact List.not_mem_nil
      · exact later (places there) (apart i (places here))

end Forest

open Forest Relation

/-- The members of a list without repetitions are as many as its length. -/
theorem ncard_mem {α : Type} [DecidableEq α] {xs : List α} (distinct : xs.Nodup) :
    {x | x ∈ xs}.ncard = xs.length := by
  rw [← List.coe_toFinset, Set.ncard_coe_finset, List.toFinset_card_of_nodup distinct]

namespace ParseTree

variable {t t' : ParseTree} {parent : Option NodeId} {level : Nat} {f : Planted}

/-- A node is an ancestor of another one. -/
def Above (t : ParseTree) (a id : NodeId) : Prop :=
  TransGen (fun c p => t.parent? c = some p) id a

/-- A node can be reached from the root. -/
def Reachable (t : ParseTree) (id : NodeId) : Prop :=
  ∃ root, t.root = some root ∧ ReflTransGen (fun p c => c ∈ t.children p) root id

/-- The ancestors of a node are those in its forest and those that the parent of the forest has. -/
theorem Holds.above_iff (held : t.Holds parent level f) (distinct : f.places.Nodup)
    {a id : NodeId} (member : id ∈ f.places) :
    t.Above a id ↔ a ∈ f.above id ∨
      ∃ p, parent = some p ∧ ReflTransGen (fun c p => t.parent? c = some p) p a := by
  induction f generalizing parent level with
  | nil => cases member
  | node entry children rest ihChildren ihRest =>
    obtain ⟨k, l⟩ := entry
    obtain ⟨_, inside, beside, _⟩ := distinct_node distinct
    have up : t.parent? k = parent := by
      rw [parent?, held.1]
      rfl
    have step : ∀ b, ReflTransGen (fun c p => t.parent? c = some p) k b ↔ b = k ∨
        ∃ p, parent = some p ∧ ReflTransGen (fun c p => t.parent? c = some p) p b := by
      intro b
      rw [ReflTransGen.cases_head_iff, up, eq_comm]
    rw [places_node] at member
    rcases List.mem_cons.1 member with rfl | member
    · rw [above_self, Above, TransGen.head'_iff, up]
      simp
    rcases List.mem_append.1 member with below | later
    · rw [above_inside distinct below, ihChildren held.2.1 inside below, List.mem_cons]
      simp only [Option.some.injEq, exists_eq_left', step, or_assoc, or_left_comm]
    · rw [above_beside distinct later]
      exact ihRest held.2.2 beside later

/-- A node is as many levels below the forest as there are nodes of it above. -/
theorem Holds.level_eq (held : t.Holds parent level f) (distinct : f.places.Nodup)
    {id : NodeId} {n : Node} (member : id ∈ f.places) (found : t.node? id = some n) :
    n.level = level + (f.above id).length := by
  induction f generalizing parent level with
  | nil => cases member
  | node entry children rest ihChildren ihRest =>
    obtain ⟨k, l⟩ := entry
    obtain ⟨_, inside, beside, _⟩ := distinct_node distinct
    rw [places_node] at member
    rcases List.mem_cons.1 member with rfl | member
    · cases held.1.symm.trans found
      rw [above_self]
      rfl
    rcases List.mem_append.1 member with below | later
    · rw [above_inside distinct below, List.length_cons, ihChildren held.2.1 inside below]
      omega
    · rw [above_beside distinct later]
      exact ihRest held.2.2 beside later

theorem Rooted.above_iff (rooted : t.Rooted f) {a id : NodeId} (member : id ∈ f.places) :
    t.Above a id ↔ a ∈ f.above id := by
  simp [rooted.held.above_iff rooted.distinct member]

/-- What the nodes of a tree hold, apart from their links. -/
def label? (t : ParseTree) (id : NodeId) : Option Label :=
  (t.node? id).map fun n => ⟨n.name, n.kind, n.token, n.attrs⟩

theorem Holds.label? (held : t.Holds parent level f) {id : NodeId} {l : Label}
    (member : (id, l) ∈ f.preorder) : t.label? id = some l := by
  obtain ⟨children, above, depth, found⟩ := held.node? member
  rw [ParseTree.label?, found]
  rfl

/-- A tree is another one without some nodes: the others stand in their order, with what they held,
under those of their ancestors that stayed, and their levels count these. -/
structure Without (t t' : ParseTree) (gone : NodeId → Bool) : Prop where
  order : t'.preOrder = t.preOrder.filter fun id => !gone id
  ancestors : ∀ a ∈ t'.preOrder, ∀ id ∈ t'.preOrder, t'.Above a id ↔ t.Above a id
  levels : ∀ id ∈ t'.preOrder, ∃ n, t'.node? id = some n ∧
    n.level = {a | a ∈ t'.preOrder ∧ t.Above a id}.ncard
  labels : ∀ id ∈ t'.preOrder, t'.label? id = t.label? id

theorem Rooted.isWithout {gone : NodeId → Bool} (rooted : t.Rooted f)
    (rooted' : t'.Rooted (f.without gone)) : t.Without t' gone := by
  have ancestors : ∀ a ∈ t'.preOrder, ∀ id ∈ t'.preOrder, t'.Above a id ↔ t.Above a id := by
    intro a above id member
    rw [rooted'.preOrder_eq] at above member
    obtain ⟨listed, kept⟩ := mem_places_without.1 member
    rw [rooted'.above_iff member, rooted.above_iff listed, above_without kept, List.mem_filter,
      (mem_places_without.1 above).2]
    simp
  refine ⟨?_, ancestors, fun id member => ?_, fun id member => ?_⟩
  · rw [rooted'.preOrder_eq, rooted.preOrder_eq, places_without]
  · have inside := rooted'.preOrder_eq ▸ member
    obtain ⟨n, found, _⟩ := rooted'.held.found inside
    have survivors : {a | a ∈ t'.preOrder ∧ t.Above a id} =
        {a | a ∈ (f.without gone).above id} := by
      ext a
      refine ⟨fun ⟨listed, above⟩ => ?_, fun above => ?_⟩
      · exact (rooted'.above_iff inside).1 ((ancestors a listed id member).2 above)
      · have listed : a ∈ t'.preOrder :=
          rooted'.preOrder_eq ▸ (above_sublist _ id).subset above
        exact ⟨listed, (ancestors a listed id member).1 ((rooted'.above_iff inside).2 above)⟩
    refine ⟨n, found, ?_⟩
    rw [survivors, ncard_mem ((above_sublist _ id).nodup rooted'.distinct),
      rooted'.held.level_eq rooted'.distinct inside found, Nat.zero_add]
  · rw [rooted'.preOrder_eq] at member
    obtain ⟨⟨_, l⟩, listed, rfl⟩ := List.mem_map.1 member
    have before : (_, l) ∈ f.preorder :=
      List.mem_of_mem_filter (preorder_without f gone ▸ listed)
    rw [rooted'.held.label? listed, rooted.held.label? before]

/-- Counting the nodes of a tree with a property by its walk. -/
theorem Represents.ncard_reachable (represents : t.Represents) (test : NodeId → Bool) :
    {id | t.Reachable id ∧ test id = true}.ncard = (t.preOrder.filter test).length := by
  rw [← ncard_mem (represents.once.1.filter test)]
  congr 1
  ext id
  rw [Set.mem_ofPred_eq, Set.mem_ofPred_eq, List.mem_filter, represents.once.2, represents.reached]
  rfl

end ParseTree

end AttrGrammar
