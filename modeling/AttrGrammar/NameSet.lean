/-!
Finite sets of names.

A set is the list of its names in increasing order, each once, so two sets with the same members
are equal and a listing of a set has one form. Names compare by code point, which is the order of
their UTF-8 bytes. The main statements give the members of each operation.
-/

namespace AttrGrammar

/-- A finite set of names. -/
structure NameSet where
  toList : List String
  sorted : toList.Pairwise (· < ·) := by exact .nil
  deriving DecidableEq

namespace NameSet

/-- Puts a name at its place in an increasing list that may hold it already. -/
def place (name : String) : List String → List String
  | [] => [name]
  | other :: rest =>
    if name = other then other :: rest
    else if name < other then name :: other :: rest
    else other :: place name rest

theorem mem_place {name x : String} {names : List String} :
    x ∈ place name names ↔ x = name ∨ x ∈ names := by
  induction names with
  | nil => simp [place]
  | cons other rest ih =>
    unfold place
    split
    · next h => subst h; simp
    · split <;> simp_all [or_left_comm]

theorem sorted_place {name : String} {names : List String} (h : names.Pairwise (· < ·)) :
    (place name names).Pairwise (· < ·) := by
  induction names with
  | nil => simp [place]
  | cons other rest ih =>
    obtain ⟨below, tail⟩ := List.pairwise_cons.1 h
    unfold place
    split
    · exact h
    · next different =>
      split
      · next before =>
        refine List.pairwise_cons.2 ⟨fun x hx => ?_, h⟩
        rcases List.mem_cons.1 hx with rfl | hx
        · exact before
        · exact String.lt_trans before (below x hx)
      · next notBefore =>
        have after : other < name := by
          apply Decidable.byContradiction
          intro notAfter
          have below := String.not_lt.1 notAfter
          exact different (String.le_antisymm below (String.not_lt.1 notBefore))
        refine List.pairwise_cons.2 ⟨fun x hx => ?_, ih tail⟩
        rcases mem_place.1 hx with rfl | hx
        · exact after
        · exact below x hx

def empty : NameSet := { toList := [] }

instance : EmptyCollection NameSet := ⟨empty⟩

instance : Inhabited NameSet := ⟨empty⟩

instance : Membership String NameSet := ⟨fun s name => name ∈ s.toList⟩

instance (name : String) (s : NameSet) : Decidable (name ∈ s) :=
  inferInstanceAs (Decidable (name ∈ s.toList))

def contains (s : NameSet) (name : String) : Bool := decide (name ∈ s)

def insert (s : NameSet) (name : String) : NameSet :=
  { toList := place name s.toList, sorted := sorted_place s.sorted }

def ofList (names : List String) : NameSet := names.foldl insert empty

def union (s t : NameSet) : NameSet := t.toList.foldl insert s

instance : Union NameSet := ⟨union⟩

def erase (s : NameSet) (name : String) : NameSet :=
  { toList := s.toList.filter (· != name), sorted := s.sorted.filter _ }

def singleton (name : String) : NameSet := empty.insert name

def size (s : NameSet) : Nat := s.toList.length

@[simp] theorem not_mem_empty {x : String} : ¬ x ∈ (∅ : NameSet) := by
  change ¬ x ∈ ([] : List String)
  simp

@[simp] theorem mem_insert {s : NameSet} {name x : String} :
    x ∈ s.insert name ↔ x = name ∨ x ∈ s := mem_place

@[simp] theorem contains_iff {s : NameSet} {x : String} : s.contains x = true ↔ x ∈ s := by
  simp [contains]

theorem mem_foldl_insert {names : List String} {s : NameSet} {x : String} :
    x ∈ names.foldl insert s ↔ x ∈ names ∨ x ∈ s := by
  induction names generalizing s with
  | nil => simp
  | cons name rest ih => simp [ih, or_assoc, or_left_comm]

@[simp] theorem mem_ofList {names : List String} {x : String} :
    x ∈ ofList names ↔ x ∈ names := by
  rw [ofList, mem_foldl_insert]
  exact or_iff_left not_mem_empty

@[simp] theorem mem_union {s t : NameSet} {x : String} : x ∈ s ∪ t ↔ x ∈ s ∨ x ∈ t :=
  mem_foldl_insert.trans or_comm

@[simp] theorem mem_erase {s : NameSet} {name x : String} :
    x ∈ s.erase name ↔ x ∈ s ∧ x ≠ name := by
  change x ∈ s.toList.filter (· != name) ↔ x ∈ s.toList ∧ x ≠ name
  simp

@[simp] theorem mem_singleton {name x : String} : x ∈ singleton name ↔ x = name := by
  rw [singleton, mem_insert]
  exact or_iff_left not_mem_empty

/-- Increasing lists with the same members are the same list. -/
private theorem sorted_unique {xs ys : List String} (hx : xs.Pairwise (· < ·))
    (hy : ys.Pairwise (· < ·)) (same : ∀ z, z ∈ xs ↔ z ∈ ys) : xs = ys := by
  induction xs generalizing ys with
  | nil =>
    cases ys with
    | nil => rfl
    | cons y ys => exact absurd ((same y).2 (List.mem_cons_self ..)) (List.not_mem_nil)
  | cons x xs ih =>
    obtain ⟨belowX, tailX⟩ := List.pairwise_cons.1 hx
    cases ys with
    | nil => exact absurd ((same x).1 (List.mem_cons_self ..)) (List.not_mem_nil)
    | cons y ys =>
      obtain ⟨belowY, tailY⟩ := List.pairwise_cons.1 hy
      have head : x = y := by
        rcases List.mem_cons.1 ((same x).1 (List.mem_cons_self ..)) with h | h
        · exact h
        · rcases List.mem_cons.1 ((same y).2 (List.mem_cons_self ..)) with h' | h'
          · exact h'.symm
          · exact absurd (String.lt_trans (belowY x h) (belowX y h')) (String.lt_irrefl y)
      subst head
      have rest : xs = ys := by
        refine ih tailX tailY fun z => ⟨fun h => ?_, fun h => ?_⟩
        · rcases List.mem_cons.1 ((same z).1 (List.mem_cons_of_mem _ h)) with rfl | h'
          · exact absurd (belowX z h) (String.lt_irrefl z)
          · exact h'
        · rcases List.mem_cons.1 ((same z).2 (List.mem_cons_of_mem _ h)) with rfl | h'
          · exact absurd (belowY z h) (String.lt_irrefl z)
          · exact h'
      rw [rest]

/-- Sets with the same members are equal. -/
theorem ext {s t : NameSet} (same : ∀ x, x ∈ s ↔ x ∈ t) : s = t := by
  obtain ⟨xs, hx⟩ := s
  obtain ⟨ys, hy⟩ := t
  cases sorted_unique hx hy same
  rfl

end NameSet

end AttrGrammar
