import AttrGrammar.Proofs.Json.Numeral

/-!
JSON texts as they are written: every value with the blanks around its parts.

The texts that the reader accepts are those of written values that nest less deep than its limit,
with blanks around them, and it reads each as its value.
-/

namespace AttrGrammar.Json

abbrev Blanks := { text : List Char // ∀ c ∈ text, isBlank c = true }

mutual

/-- A value as it is written. -/
inductive Written where
  | null
  | bool (b : Bool)
  | number (n : Numeral)
  | string (l : Literal)
  | array (gap : Blanks) (items : Items)
  | object (gap : Blanks) (members : Members)

/-- The items of an array up to its closing bracket, each with the blanks around it. -/
inductive Items where
  | nil
  | cons (lead : Blanks) (item : Written) (trail : Blanks) (others : Items)

/-- The members of an object up to its closing brace. Blanks stand before the key, on both sides of
the colon, and behind the value. -/
inductive Members where
  | nil
  | cons (lead : Blanks) (key : Literal) (before after : Blanks) (value : Written) (trail : Blanks)
      (others : Members)

end

/-- The comma before an item or a member that is not the first. -/
def comma (first : Bool) : List Char := if first then [] else [',']

mutual

def Written.text : Written → List Char
  | .null => ['n', 'u', 'l', 'l']
  | .bool true => ['t', 'r', 'u', 'e']
  | .bool false => ['f', 'a', 'l', 's', 'e']
  | .number n => n.text
  | .string l => l.text
  | .array gap items => '[' :: (gap.1 ++ items.text true)
  | .object gap members => '{' :: (gap.1 ++ members.text true)

def Items.text (first : Bool) : Items → List Char
  | .nil => [']']
  | .cons lead item trail others =>
    comma first ++ (lead.1 ++ (item.text ++ (trail.1 ++ others.text false)))

def Members.text (first : Bool) : Members → List Char
  | .nil => ['}']
  | .cons lead key before after value trail others =>
    comma first ++ (lead.1 ++ (key.text ++ (before.1 ++ ':' :: (after.1 ++ (value.text ++
      (trail.1 ++ others.text false))))))

end

mutual

def Written.json : Written → Json
  | .null => .null
  | .bool b => .bool b
  | .number n => n.value
  | .string l => .string l.value
  | .array _ items => .array items.json
  | .object _ members => .object (members.entries [])

def Items.json : Items → List Json
  | .nil => []
  | .cons _ item _ others => item.json :: others.json

/-- The members, put in after others. -/
def Members.entries (before : List (String × Json)) : Members → List (String × Json)
  | .nil => before
  | .cons _ key _ _ value _ others => others.entries (putEntry key.value value.json before)

end

mutual

/-- The greatest number of arrays and objects inside one another. -/
def Written.depth : Written → Nat
  | .array _ items => items.depth + 1
  | .object _ members => members.depth + 1
  | _ => 0

def Items.depth : Items → Nat
  | .nil => 0
  | .cons _ item _ others => max item.depth others.depth

def Members.depth : Members → Nat
  | .nil => 0
  | .cons _ _ _ _ value _ others => max value.depth others.depth

end

/-- A text that does not begin with a blank. -/
def Solid (text : List Char) : Prop := ∀ c, text.head? = some c → isBlank c = false

theorem solid_cons {c : Char} (visible : isBlank c = false) (text : List Char) :
    Solid (c :: text) := by
  intro c' head
  cases head
  exact visible

theorem skipBlanks_append (b : Blanks) {rest : List Char} (solid : Solid rest) :
    skipBlanks (b.1 ++ rest) = rest := by
  obtain ⟨text, blank⟩ := b
  induction text with
  | nil =>
    cases rest with
    | nil => rfl
    | cons c rest =>
      rw [List.nil_append, skipBlanks, List.dropWhile_cons, solid c rfl]
      rfl
  | cons c text ih =>
    rw [List.cons_append, skipBlanks, List.dropWhile_cons, blank c List.mem_cons_self]
    exact ih fun c' member => blank c' (List.mem_cons_of_mem _ member)

theorem skipBlanks_solid {rest : List Char} (solid : Solid rest) : skipBlanks rest = rest :=
  skipBlanks_append ⟨[], nofun⟩ solid

/-- What is skipped is blank. -/
theorem exists_blanks (text : List Char) : ∃ b : Blanks, text = b.1 ++ skipBlanks text := by
  refine ⟨⟨text.takeWhile isBlank, fun c member => ?_⟩, ?_⟩
  · exact List.all_eq_true.1 List.all_takeWhile c member
  · exact List.takeWhile_append_dropWhile.symm

theorem solid_skipBlanks (text : List Char) : Solid (skipBlanks text) := by
  intro c head
  have stops := List.head?_dropWhile_not isBlank text
  rw [skipBlanks] at head
  rw [head] at stops
  simpa using stops

theorem exists_blanks_of_skipBlanks {text rest : List Char} (skipped : skipBlanks text = rest) :
    ∃ b : Blanks, text = b.1 ++ rest := skipped ▸ exists_blanks text

theorem Ends.of_blanks (b : Blanks) {rest : List Char} (ends : Ends rest) : Ends (b.1 ++ rest) := by
  obtain ⟨text, blank⟩ := b
  cases text with
  | nil => exact ends
  | cons c text =>
    intro c' head
    cases head
    have isBlank := blank c List.mem_cons_self
    simp only [Json.isBlank, Bool.or_eq_true, decide_eq_true_eq] at isBlank
    rcases isBlank with ((rfl | rfl) | rfl) | rfl <;> decide

/-- The characters that values begin with. -/
def opens (c : Char) : Bool :=
  c = 'n' || c = 't' || c = 'f' || c = '-' || c = '"' || c = '[' || c = '{' || c.isDigit

theorem not_blank_of_opens {c : Char} (starts : opens c = true) : isBlank c = false := by
  cases blank : isBlank c with
  | false => rfl
  | true =>
    simp only [isBlank, Bool.or_eq_true, decide_eq_true_eq] at blank
    rcases blank with ((rfl | rfl) | rfl) | rfl <;> exact absurd starts (by decide)

theorem IsNumber.starts {text : List Char} (shape : IsNumber text) :
    ∃ c tail, text = c :: tail ∧ c.isDigit = true := by
  rcases shape with ⟨scale, _, rfl⟩ | ⟨c, digits, scale, digit, _, _, _, rfl⟩
  · exact ⟨'0', scale, rfl, by decide⟩
  · exact ⟨c, _, rfl, digit⟩

theorem Written.starts (w : Written) : ∃ c tail, w.text = c :: tail ∧ opens c = true := by
  cases w with
  | null => exact ⟨_, _, rfl, rfl⟩
  | bool b => cases b <;> exact ⟨_, _, rfl, rfl⟩
  | number n =>
    obtain ⟨c, tail, same, digit⟩ := n.shape.starts
    rw [text, Numeral.text]
    split
    · exact ⟨'-', _, rfl, rfl⟩
    · exact ⟨c, tail, same, by simp [opens, digit]⟩
  | string l => exact ⟨_, _, rfl, rfl⟩
  | array gap items => exact ⟨_, _, rfl, rfl⟩
  | object gap members => exact ⟨_, _, rfl, rfl⟩

theorem Written.solid (w : Written) (rest : List Char) : Solid (w.text ++ rest) := by
  obtain ⟨c, tail, same, starts⟩ := w.starts
  rw [same]
  exact solid_cons (not_blank_of_opens starts) _

end AttrGrammar.Json
