import AttrGrammar.Tree.Basic

/-!
Forests: ordered trees side by side, written with the children of the first tree and the trees
after it as two forests, so that one induction reaches every node.

A forest is planted by giving its nodes consecutive places, parents before children. The main
statements say how planting and the array of nodes it gives behave under `++`.
-/

namespace AttrGrammar

inductive Forest (α : Type) where
  | nil
  /-- The first tree, by its label and children, and the trees after it. -/
  | node (label : α) (children rest : Forest α)
  deriving Inhabited

namespace Forest

variable {α β : Type}

def append : Forest α → Forest α → Forest α
  | nil, g => g
  | node a children rest, g => node a children (append rest g)

instance : Append (Forest α) := ⟨append⟩

/-- One tree. -/
def tree (a : α) (children : Forest α) : Forest α := node a children nil

/-- The labels of the trees themselves. -/
def roots : Forest α → List α
  | nil => []
  | node a _ rest => a :: roots rest

/-- All labels, parents before children. -/
def preorder : Forest α → List α
  | nil => []
  | node a children rest => a :: (preorder children ++ preorder rest)

/-- All labels, children before parents. -/
def postorder : Forest α → List α
  | nil => []
  | node a children rest => postorder children ++ a :: postorder rest

def size : Forest α → Nat
  | nil => 0
  | node _ children rest => size children + size rest + 1

def map (f : α → β) : Forest α → Forest β
  | nil => nil
  | node a children rest => node (f a) (map f children) (map f rest)

@[simp] theorem nil_append (g : Forest α) : nil ++ g = g := rfl

@[simp] theorem node_append (a : α) (children rest g : Forest α) :
    node a children rest ++ g = node a children (rest ++ g) := rfl

@[simp] theorem append_nil (f : Forest α) : f ++ nil = f := by
  induction f with
  | nil => rfl
  | node a children rest _ ih => rw [node_append, ih]

@[simp] theorem size_nil : (nil : Forest α).size = 0 := rfl

@[simp] theorem size_node (a : α) (children rest : Forest α) :
    (node a children rest).size = children.size + rest.size + 1 := rfl

theorem append_assoc (f g h : Forest α) : f ++ g ++ h = f ++ (g ++ h) := by
  induction f with
  | nil => rfl
  | node a children rest _ ih => simp only [node_append, ih]

theorem tree_append (a : α) (children g : Forest α) :
    tree a children ++ g = node a children g := rfl

@[simp] theorem roots_append (f g : Forest α) : (f ++ g).roots = f.roots ++ g.roots := by
  induction f with
  | nil => rfl
  | node a children rest _ ih => simp only [node_append, roots, ih, List.cons_append]

@[simp] theorem preorder_append (f g : Forest α) :
    (f ++ g).preorder = f.preorder ++ g.preorder := by
  induction f with
  | nil => rfl
  | node a children rest _ ih =>
    simp only [node_append, preorder, ih, List.cons_append, List.append_assoc]

@[simp] theorem postorder_append (f g : Forest α) :
    (f ++ g).postorder = f.postorder ++ g.postorder := by
  induction f with
  | nil => rfl
  | node a children rest _ ih =>
    simp only [node_append, postorder, ih, List.cons_append, List.append_assoc]

@[simp] theorem size_append (f g : Forest α) : (f ++ g).size = f.size + g.size := by
  induction f with
  | nil => simp [size]
  | node a children rest _ ih => simp only [node_append, size, ih]; omega

@[simp] theorem length_preorder (f : Forest α) : f.preorder.length = f.size := by
  induction f with
  | nil => rfl
  | node a children rest ihChildren ihRest =>
    simp only [preorder, size, List.length_cons, List.length_append, ihChildren, ihRest]

theorem roots_subset_preorder (f : Forest α) : ∀ a ∈ f.roots, a ∈ f.preorder := by
  induction f with
  | nil => simp [roots]
  | node a children rest _ ih =>
    intro b member
    rcases List.mem_cons.1 member with rfl | later
    · exact List.mem_cons_self
    · exact List.mem_cons_of_mem _ (List.mem_append_right _ (ih b later))

@[simp] theorem map_append (f : α → β) (g h : Forest α) :
    (g ++ h).map f = g.map f ++ h.map f := by
  induction g with
  | nil => rfl
  | node a children rest _ ih => simp only [node_append, map, ih]

@[simp] theorem roots_map (f : α → β) (g : Forest α) : (g.map f).roots = g.roots.map f := by
  induction g with
  | nil => rfl
  | node a children rest _ ih => simp only [map, roots, List.map_cons, ih]

@[simp] theorem preorder_map (f : α → β) (g : Forest α) :
    (g.map f).preorder = g.preorder.map f := by
  induction g with
  | nil => rfl
  | node a children rest ihChildren ihRest =>
    simp only [map, preorder, List.map_cons, List.map_append, ihChildren, ihRest]

theorem nil_of_map {h : α → β} {f : Forest α} (same : f.map h = nil) : f = nil := by
  cases f with
  | nil => rfl
  | node a children rest => cases same

theorem node_of_map {h : α → β} {f : Forest α} {b : β} {below beside : Forest β}
    (same : f.map h = node b below beside) :
    ∃ a children rest, f = node a children rest ∧ h a = b ∧ children.map h = below ∧
      rest.map h = beside := by
  cases f with
  | nil => cases same
  | node a children rest =>
    simp only [map, node.injEq] at same
    exact ⟨a, children, rest, rfl, same⟩

theorem tree_of_map {h : α → β} {f : Forest α} {b : β} {below : Forest β}
    (same : f.map h = tree b below) :
    ∃ a children, f = tree a children ∧ h a = b ∧ children.map h = below := by
  obtain ⟨a, children, rest, rfl, label, inside, after⟩ := node_of_map same
  exact ⟨a, children, by rw [nil_of_map after]; rfl, label, inside⟩

theorem append_of_map {h : α → β} {f : Forest α} {x y : Forest β} (same : f.map h = x ++ y) :
    ∃ g g', f = g ++ g' ∧ g.map h = x ∧ g'.map h = y := by
  induction x generalizing f with
  | nil => exact ⟨nil, f, rfl, rfl, same⟩
  | node b below beside _ ih =>
    obtain ⟨a, children, rest, rfl, label, inside, after⟩ := node_of_map same
    obtain ⟨g, g', rfl, first, second⟩ := ih after
    exact ⟨node a children g, g', rfl, by rw [map, label, inside, first], second⟩

end Forest

/-- What a node holds apart from its place in a tree. -/
structure Label where
  name : String
  kind : RuleKind
  token : Option Token := none
  attrs : Attributes := {}
  deriving DecidableEq, Inhabited

namespace Label

def inner (name : String) (kind : RuleKind) : Label := { name, kind }

def ofToken (token : Token) (kind : RuleKind) : Label :=
  { name := token.name, kind, token := some token, attrs := token.attrs }

def isLeaf (l : Label) : Bool := l.token.isSome

/-- The node with this label at a place. -/
def toNode (l : Label) (children : List NodeId) (parent : Option NodeId) (level : Nat) : Node :=
  { name := l.name, kind := l.kind, token := l.token, attrs := l.attrs, children, parent, level }

end Label

/-- A forest whose nodes have places in an array. -/
abbrev Planted := Forest (NodeId × Label)

namespace Forest

/-- Gives the nodes consecutive places from `n` on, parents before children. -/
def plant (n : Nat) : Forest Label → Planted
  | nil => nil
  | node l children rest =>
    node (n, l) (plant (n + 1) children) (plant (n + 1 + children.size) rest)

/-- The places of the trees. -/
def tops (f : Planted) : List NodeId := f.roots.map Prod.fst

/-- The places of all nodes, parents before children. -/
def places (f : Planted) : List NodeId := f.preorder.map Prod.fst

/-- The nodes of a planted forest under a parent, in the order of `places`. -/
def nodes (parent : Option NodeId) (level : Nat) : Planted → List Node
  | nil => []
  | node (id, l) children rest =>
    l.toNode children.tops parent level ::
      (nodes (some id) (level + 1) children ++ nodes parent level rest)

@[simp] theorem size_plant (n : Nat) (f : Forest Label) : (f.plant n).size = f.size := by
  induction f generalizing n with
  | nil => rfl
  | node l children rest ihChildren ihRest =>
    simp only [plant, size, ihChildren (n + 1), ihRest (n + 1 + children.size)]

theorem plant_append (n : Nat) (f g : Forest Label) :
    (f ++ g).plant n = f.plant n ++ g.plant (n + f.size) := by
  induction f generalizing n with
  | nil => rfl
  | node l children rest _ ih =>
    have shift : n + 1 + children.size + rest.size = n + (children.size + rest.size + 1) := by
      omega
    simp only [node_append, plant, ih, size, shift]

@[simp] theorem tops_nil : tops nil = [] := rfl

@[simp] theorem tops_node (id : NodeId) (l : Label) (children rest : Planted) :
    tops (node (id, l) children rest) = id :: tops rest := rfl

@[simp] theorem tops_append (f g : Planted) : tops (f ++ g) = tops f ++ tops g := by
  simp only [tops, roots_append, List.map_append]

@[simp] theorem places_nil : places nil = [] := rfl

@[simp] theorem places_node (id : NodeId) (l : Label) (children rest : Planted) :
    places (node (id, l) children rest) = id :: (places children ++ places rest) := by
  simp only [places, preorder, List.map_cons, List.map_append]

@[simp] theorem places_append (f g : Planted) : places (f ++ g) = places f ++ places g := by
  simp only [places, preorder_append, List.map_append]

theorem length_places (f : Planted) : f.places.length = f.size := by
  simp only [places, List.length_map, length_preorder]

theorem tops_subset_places (f : Planted) (id : NodeId) (member : id ∈ f.tops) :
    id ∈ f.places := by
  obtain ⟨entry, root, rfl⟩ := List.mem_map.1 member
  exact List.mem_map_of_mem (f.roots_subset_preorder entry root)

@[simp] theorem preorder_plant (n : Nat) (f : Forest Label) :
    (f.plant n).preorder.map Prod.snd = f.preorder := by
  induction f generalizing n with
  | nil => rfl
  | node l children rest ihChildren ihRest =>
    simp only [plant, preorder, List.map_cons, List.map_append, ihChildren, ihRest]

/-- Planting fills a stretch of places without gaps. -/
theorem places_plant (n : Nat) (f : Forest Label) :
    (f.plant n).places = List.range' n f.size := by
  induction f generalizing n with
  | nil => rfl
  | node l children rest ihChildren ihRest =>
    rw [plant, places_node, ihChildren, ihRest, size,
      show children.size + rest.size + 1 = 1 + (children.size + rest.size) by omega,
      ← List.range'_append_1, ← List.range'_append_1]
    rfl

@[simp] theorem length_nodes (parent : Option NodeId) (level : Nat) (f : Planted) :
    (f.nodes parent level).length = f.size := by
  induction f generalizing parent level with
  | nil => rfl
  | node entry children rest ihChildren ihRest =>
    simp only [nodes, size, List.length_cons, List.length_append, ihChildren, ihRest]

theorem nodes_append (parent : Option NodeId) (level : Nat) (f g : Planted) :
    (f ++ g).nodes parent level = f.nodes parent level ++ g.nodes parent level := by
  induction f with
  | nil => rfl
  | node entry children rest _ ih =>
    simp only [node_append, nodes, ih, List.cons_append, List.append_assoc]

/-- Moving the nodes of a planted forest plants it elsewhere. -/
theorem nodes_shifted (n offset base : Nat) (parent : Option NodeId) (level : Nat)
    (f : Forest Label) :
    ((f.plant n).nodes parent level).map (ParseTree.shifted offset base) =
      (f.plant (n + offset)).nodes (parent.map (· + offset)) (level + base) := by
  have tops_shifted : ∀ (g : Forest Label) (m : Nat),
      (g.plant m).tops.map (· + offset) = (g.plant (m + offset)).tops := by
    intro g
    induction g with
    | nil => intro m; rfl
    | node l children rest _ ih =>
      intro m
      rw [plant, plant, tops_node, tops_node, List.map_cons, ih,
        show m + 1 + children.size + offset = m + offset + 1 + children.size by omega]
  induction f generalizing n parent level with
  | nil => rfl
  | node l children rest ihChildren ihRest =>
    have below : n + 1 + offset = n + offset + 1 := by omega
    have beside : n + 1 + children.size + offset = n + offset + 1 + children.size := by omega
    have deeper : level + 1 + base = level + base + 1 := by omega
    rw [plant, plant, nodes, nodes, List.map_cons, List.map_append, ihChildren, ihRest, below,
      beside, deeper, ← below, ← tops_shifted]
    rfl

end Forest

end AttrGrammar
