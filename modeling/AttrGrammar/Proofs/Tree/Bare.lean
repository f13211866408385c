import AttrGrammar.Proofs.Tree.Arena

/-!
Planted forests without places and attributes.

What is known of a planted forest is often only what it is like without them. The statements here
take such a forest apart along the one that it is like.
-/

namespace AttrGrammar

/-- A label without attributes. -/
def Label.bare (l : Label) : Label := { l with attrs := {} }

namespace Forest

/-- A planted forest without places and attributes. -/
def bare (f : Planted) : Forest Label := f.map fun entry => entry.2.bare

@[simp] theorem bare_node (id : NodeId) (l : Label) (children rest : Planted) :
    bare (node (id, l) children rest) = node l.bare children.bare rest.bare := rfl

@[simp] theorem bare_append (f g : Planted) : bare (f ++ g) = f.bare ++ g.bare := map_append ..

theorem nil_of_bare {f : Planted} (same : f.bare = .nil) : f = .nil := nil_of_map same

theorem node_of_bare {f : Planted} {l : Label} {below beside : Forest Label}
    (same : f.bare = .node l below beside) :
    ∃ id attrs children rest, f = .node (id, { l with attrs }) children rest ∧
      children.bare = below ∧ rest.bare = beside := by
  obtain ⟨⟨id, l'⟩, children, rest, rfl, rfl, inside, after⟩ := node_of_map same
  exact ⟨id, l'.attrs, children, rest, rfl, inside, after⟩

theorem tree_of_bare {f : Planted} {l : Label} {below : Forest Label}
    (same : f.bare = tree l below) :
    ∃ id attrs children, f = tree (id, { l with attrs }) children ∧ children.bare = below := by
  obtain ⟨id, attrs, children, rest, rfl, inside, after⟩ := node_of_bare same
  exact ⟨id, attrs, children, by rw [nil_of_bare after]; rfl, inside⟩

theorem append_of_bare {f : Planted} {x y : Forest Label} (same : f.bare = x ++ y) :
    ∃ g h, f = g ++ h ∧ g.bare = x ∧ h.bare = y := append_of_map same

end Forest

end AttrGrammar
