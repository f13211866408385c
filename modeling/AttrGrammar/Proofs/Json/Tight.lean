import AttrGrammar.Proofs.Json.Reading

/-!
Texts without blanks.

Leaving out the blanks changes neither the value of a text nor its depth. So two texts that come to
the same without their blanks are read alike.
-/

namespace AttrGrammar.Json

def noBlanks : Blanks := ⟨[], nofun⟩

mutual

/-- A value written without blanks. -/
def Written.tight : Written → Written
  | .null => .null
  | .bool b => .bool b
  | .number n => .number n
  | .string l => .string l
  | .array _ items => .array noBlanks items.tight
  | .object _ members => .object noBlanks members.tight

def Items.tight : Items → Items
  | .nil => .nil
  | .cons _ item _ others => .cons noBlanks item.tight noBlanks others.tight

def Members.tight : Members → Members
  | .nil => .nil
  | .cons _ key _ _ value _ others =>
    .cons noBlanks key noBlanks noBlanks value.tight noBlanks others.tight

end

mutual

theorem Written.json_tight : ∀ w : Written, w.tight.json = w.json
  | .null | .bool _ | .number _ | .string _ => rfl
  | .array _ items => congrArg Json.array items.json_tight
  | .object _ members => congrArg Json.object (members.entries_tight [])

theorem Items.json_tight : ∀ items : Items, items.tight.json = items.json
  | .nil => rfl
  | .cons _ item _ others => by
    rw [Items.tight, Items.json, Items.json, item.json_tight, others.json_tight]

theorem Members.entries_tight : ∀ (members : Members) (before : List (String × Json)),
    members.tight.entries before = members.entries before
  | .nil, _ => rfl
  | .cons _ key _ _ value _ others, before => by
    rw [Members.tight, Members.entries, Members.entries, value.json_tight, others.entries_tight]

end

mutual

theorem Written.depth_tight : ∀ w : Written, w.tight.depth = w.depth
  | .null | .bool _ | .number _ | .string _ => rfl
  | .array _ items => congrArg (· + 1) items.depth_tight
  | .object _ members => congrArg (· + 1) members.depth_tight

theorem Items.depth_tight : ∀ items : Items, items.tight.depth = items.depth
  | .nil => rfl
  | .cons _ item _ others => by
    rw [Items.tight, Items.depth, Items.depth, item.depth_tight, others.depth_tight]

theorem Members.depth_tight : ∀ members : Members, members.tight.depth = members.depth
  | .nil => rfl
  | .cons _ _ _ _ value _ others => by
    rw [Members.tight, Members.depth, Members.depth, value.depth_tight, others.depth_tight]

end

/-- A text without blanks is read as the value that it was made from. -/
theorem read_tight {w : Written} (shallow : w.depth < depthLimit) :
    read (String.ofList w.tight.text) = .ok w.json := by
  have alone := read_text noBlanks noBlanks w.tight (by rwa [w.depth_tight])
  rwa [show noBlanks.1 = [] from rfl, List.nil_append, List.append_nil, w.json_tight] at alone

mutual

/-- A value written with the same blanks after each comma of an array, and without others. -/
def Written.spaced (gap : Blanks) : Written → Written
  | .null => .null
  | .bool b => .bool b
  | .number n => .number n
  | .string l => .string l
  | .array _ items => .array noBlanks (items.spaced gap true)
  | .object _ members => .object noBlanks (members.spaced gap)

def Items.spaced (gap : Blanks) (first : Bool) : Items → Items
  | .nil => .nil
  | .cons _ item _ others =>
    .cons (if first then noBlanks else gap) (item.spaced gap) noBlanks (others.spaced gap false)

def Members.spaced (gap : Blanks) : Members → Members
  | .nil => .nil
  | .cons _ key _ _ value _ others =>
    .cons noBlanks key noBlanks noBlanks (value.spaced gap) noBlanks (others.spaced gap)

end

mutual

theorem Written.spaced_noBlanks : ∀ w : Written, w.spaced noBlanks = w.tight
  | .null | .bool _ | .number _ | .string _ => rfl
  | .array _ items => congrArg (Written.array noBlanks) (items.spaced_noBlanks true)
  | .object _ members => congrArg (Written.object noBlanks) members.spaced_noBlanks

theorem Items.spaced_noBlanks : ∀ (items : Items) (first : Bool),
    items.spaced noBlanks first = items.tight
  | .nil, _ => rfl
  | .cons _ item _ others, first => by
    rw [Items.spaced, Items.tight, item.spaced_noBlanks, others.spaced_noBlanks, ite_self]

theorem Members.spaced_noBlanks : ∀ members : Members, members.spaced noBlanks = members.tight
  | .nil => rfl
  | .cons _ _ _ _ value _ others => by
    rw [Members.spaced, Members.tight, value.spaced_noBlanks, others.spaced_noBlanks]

end

mutual

theorem Written.tight_spaced (gap : Blanks) : ∀ w : Written, (w.spaced gap).tight = w.tight
  | .null | .bool _ | .number _ | .string _ => rfl
  | .array _ items => congrArg (Written.array noBlanks) (items.tight_spaced gap true)
  | .object _ members => congrArg (Written.object noBlanks) (members.tight_spaced gap)

theorem Items.tight_spaced (gap : Blanks) : ∀ (items : Items) (first : Bool),
    (items.spaced gap first).tight = items.tight
  | .nil, _ => rfl
  | .cons _ item _ others, _ => by
    rw [Items.spaced, Items.tight, Items.tight, item.tight_spaced, others.tight_spaced]

theorem Members.tight_spaced (gap : Blanks) : ∀ members : Members,
    (members.spaced gap).tight = members.tight
  | .nil => rfl
  | .cons _ _ _ _ value _ others => by
    rw [Members.spaced, Members.tight, Members.tight, value.tight_spaced, others.tight_spaced]

end

mutual

theorem Written.spaced_tight (gap : Blanks) : ∀ w : Written, w.tight.spaced gap = w.spaced gap
  | .null | .bool _ | .number _ | .string _ => rfl
  | .array _ items => congrArg (Written.array noBlanks) (items.spaced_tight gap true)
  | .object _ members => congrArg (Written.object noBlanks) (members.spaced_tight gap)

theorem Items.spaced_tight (gap : Blanks) : ∀ (items : Items) (first : Bool),
    items.tight.spaced gap first = items.spaced gap first
  | .nil, _ => rfl
  | .cons _ item _ others, _ => by
    rw [Items.tight, Items.spaced, Items.spaced, item.spaced_tight, others.spaced_tight]

theorem Members.spaced_tight (gap : Blanks) : ∀ members : Members,
    members.tight.spaced gap = members.spaced gap
  | .nil => rfl
  | .cons _ _ _ _ value _ others => by
    rw [Members.tight, Members.spaced, Members.spaced, value.spaced_tight, others.spaced_tight]

end

end AttrGrammar.Json
