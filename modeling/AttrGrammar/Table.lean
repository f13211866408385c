/-!
Tables from names to values that remember the order in which names were first put in.

Putting a name in again changes its value and keeps its place. The main statements say what
`find?` and `names` are after `insert`.
-/

namespace AttrGrammar

variable {α : Type}

/-- A list of entries in which `name` has `value`: at its place if it is there, else at the end. -/
def putEntry (name : String) (value : α) : List (String × α) → List (String × α)
  | [] => [(name, value)]
  | (other, old) :: rest =>
    if other = name then (other, value) :: rest else (other, old) :: putEntry name value rest

theorem map_fst_putEntry {name : String} {value : α} {entries : List (String × α)} :
    (putEntry name value entries).map Prod.fst =
      if name ∈ entries.map Prod.fst then entries.map Prod.fst
      else entries.map Prod.fst ++ [name] := by
  induction entries with
  | nil => simp [putEntry]
  | cons entry rest ih =>
    unfold putEntry
    by_cases h : entry.1 = name
    · simp [h]
    · have h' : ¬ name = entry.1 := fun e => h e.symm
      simp only [h, ↓reduceIte, List.map_cons, ih, List.mem_cons, h', false_or]
      split <;> simp_all

theorem lookup_putEntry {name x : String} {value : α} {entries : List (String × α)} :
    (putEntry name value entries).lookup x =
      if x = name then some value else entries.lookup x := by
  induction entries with
  | nil =>
    by_cases h : x = name
    · simp [putEntry, h]
    · simp [putEntry, List.lookup_cons, h, beq_eq_false_iff_ne.2 h]
  | cons entry rest ih =>
    obtain ⟨other, old⟩ := entry
    unfold putEntry
    by_cases h : other = name
    · subst h
      by_cases hx : x = other
      · simp [hx]
      · simp [List.lookup_cons, hx, beq_eq_false_iff_ne.2 hx]
    · by_cases hx : x = other
      · subst hx; simp [h]
      · simp [List.lookup_cons, h, beq_eq_false_iff_ne.2 hx, ih]

/-- A table from names to values. -/
structure Table (α : Type) where
  entries : List (String × α)
  distinct : (entries.map Prod.fst).Nodup

namespace Table

instance : EmptyCollection (Table α) := ⟨⟨[], List.Pairwise.nil⟩⟩

instance : Inhabited (Table α) := ⟨∅⟩

def names (t : Table α) : List String := t.entries.map Prod.fst

def find? (t : Table α) (name : String) : Option α := t.entries.lookup name

def contains (t : Table α) (name : String) : Bool := t.names.contains name

def size (t : Table α) : Nat := t.entries.length

def isEmpty (t : Table α) : Bool := t.entries.isEmpty

/-- Gives `name` the value; a name already there keeps its place. -/
def insert (t : Table α) (name : String) (value : α) : Table α :=
  { entries := putEntry name value t.entries
    distinct := by
      rw [map_fst_putEntry]
      split
      · exact t.distinct
      · next h =>
        exact List.nodup_append.2 ⟨t.distinct, by simp, fun x hx y hy => by
          rw [List.mem_singleton.1 hy]
          exact fun e => h (e ▸ hx)⟩ }

/-- Gives `name` the value unless it has one. -/
def insertNew (t : Table α) (name : String) (value : α) : Table α :=
  if t.contains name then t else t.insert name value

/-- Changes the value of `name` if it has one. -/
def modify (t : Table α) (name : String) (change : α → α) : Table α :=
  match t.find? name with
  | some value => t.insert name (change value)
  | none => t

@[simp] theorem find?_insert (t : Table α) (name x : String) (value : α) :
    (t.insert name value).find? x = if x = name then some value else t.find? x :=
  lookup_putEntry

theorem names_insert (t : Table α) (name : String) (value : α) :
    (t.insert name value).names = if name ∈ t.names then t.names else t.names ++ [name] :=
  map_fst_putEntry

@[simp] theorem find?_empty (x : String) : (∅ : Table α).find? x = none := rfl

theorem find?_modify (t : Table α) (name x : String) (change : α → α) :
    (t.modify name change).find? x =
      if x = name then (t.find? name).map change else t.find? x := by
  unfold modify
  cases found : t.find? name with
  | some value => simp
  | none =>
    by_cases same : x = name
    · rw [if_pos same, same, found]
      rfl
    · rw [if_neg same]

theorem isSome_find?_iff (t : Table α) (name : String) :
    (t.find? name).isSome = true ↔ name ∈ t.names := by
  rw [find?, List.lookup_isSome_iff, names, List.mem_map]
  simp only [beq_iff_eq, @eq_comm _ name]

theorem names_modify (t : Table α) (name : String) (change : α → α) :
    (t.modify name change).names = t.names := by
  unfold modify
  cases found : t.find? name with
  | some value =>
    have known : name ∈ t.names := (t.isSome_find?_iff name).1 (by rw [found]; rfl)
    rw [names_insert, if_pos known]
  | none => rfl

end Table

end AttrGrammar
