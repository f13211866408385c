import AttrGrammar.Proofs.Procedure.Decoding
import AttrGrammar.Proofs.Procedure.Programs
import AttrGrammar.Proofs.Procedure.Symbols

/-!
The statements of a text.

The members of a text are decoded without tokens or trees. They can be decoded just if the parser
accepts their tokens, and then the program of these tokens has the same statements.
-/

namespace AttrGrammar

open Scanner (advance)
open Procedure (Value Statement SpecialForm isForm)

namespace Json

/-- The special form that a key names. -/
def Literal.form? (l : Literal) : Option SpecialForm :=
  if l.body = ['&', 'l', 'e', 't'] then some .letForm
  else if l.body = ['&', 'r', 'e', 'f'] then some .refForm
  else if l.body = ['&', 'd', 'o', 'c'] then some .docForm
  else none

/-- What a value without members is bound as. A special form is no value. -/
def Written.value? : Written → Option Value
  | .null => some .unbound
  | .bool b => some (.boolean b)
  | .number n => (Decimal.read? (String.ofList n.text)).map .number
  | .string l => if isForm l.body then none else some (.string l.value)
  | .array _ items => items.list?.map .list
  | .object _ members => if members.isNil then some .scope else none

/-- The items of a list. -/
def Written.list? : Written → Option (List Value)
  | .array _ items => items.list?
  | _ => none

/-- The text of a string that is not empty. -/
def Written.phrase? : Written → Option String
  | .string l => if isForm l.body || l.glyphs.isEmpty then none else some l.value
  | _ => none

/-- A key and a value without members, with the line for a special form. -/
def pairStatement? (line : Option Nat) (key : Literal) (w : Written) : Option Statement :=
  if isForm key.body then
    match key.form? with
    | some .letForm => w.list?.map (.parameters line)
    | some .refForm => w.phrase?.map (.reference line)
    | some .docForm => w.phrase?.map .documentation
    | none => none
  else w.value?.map (.bind key.value)

/-- The line of a key by its depth and its place. -/
abbrev Lines := Nat → Nat × Nat → Literal → Option Nat

mutual

/-- The member of a key, which has a line, and of a value at a depth and a place. -/
def Written.statement? (lines : Lines) (depth : Nat) (place : Nat × Nat) (line : Option Nat)
    (key : Literal) : Written → Option Statement
  | .object gap members =>
    if members.isNil then pairStatement? line key (.object gap members)
    else if isForm key.body then none
    else (members.statements? lines true depth (advance place ('{' :: gap.1))).map
      (.within key.value)
  | .array gap items => pairStatement? line key (.array gap items)
  | .string l => pairStatement? line key (.string l)
  | .number n => pairStatement? line key (.number n)
  | .bool b => pairStatement? line key (.bool b)
  | .null => pairStatement? line key .null

/-- The members of an object at a depth, from a place before them. -/
def Members.statements? (lines : Lines) (first : Bool) (depth : Nat) (place : Nat × Nat) :
    Members → Option (List Statement)
  | .nil => some []
  | .cons lead key before after value trail others => do
    let here := spots (advance place (comma first)) lead key before after value trail
    let statement ←
      value.statement? lines (depth + 1) here.value (lines (depth + 1) here.key key) key
    let rest ← others.statements? lines false depth here.last
    some (statement :: rest)

end

theorem Written.statement?_plain {w : Written} (single : w.isBraced = false) (lines : Lines)
    (depth : Nat) (place : Nat × Nat) (line : Option Nat) (key : Literal) :
    w.statement? lines depth place line key = pairStatement? line key w := by
  cases w with
  | object gap members =>
    cases members with
    | nil => rfl
    | cons => cases single
  | _ => rfl

end Json

namespace Procedure

open Json (Blanks Written Items Members Literal Numeral comma spots pairStatement? Lines)

theorem isKey_terminal (key : Literal) : isKey key.terminal = !isForm key.body := by
  unfold Literal.terminal formTerminal
  cases isForm key.body with
  | true =>
    rw [if_pos rfl]
    split
    · decide
    · split
      · decide
      · split <;> decide
  | false =>
    rw [if_neg Bool.false_ne_true]
    split <;> decide

theorem terminal_form {key : Literal} (form : isForm key.body = true) :
    key.terminal = formTerminal key.body := if_pos form

/-- A special form is no value and no list, and no text that a form could take. -/
theorem formTerminal_unfit (body : List Char) :
    isLiteral (formTerminal body) = false ∧ isContainer (formTerminal body) = false ∧
      isArray (formTerminal body) = false ∧ formTerminal body ≠ Construct.string.name ∧
      ∀ lexeme, tokenValue? (formTerminal body) lexeme = none := by
  have checked : ∀ c ∈ [Construct.letForm, .refForm, .docForm, .unknownForm],
      isLiteral c.name = false ∧ isContainer c.name = false ∧ isArray c.name = false ∧
        c.name ≠ Construct.string.name ∧ ∀ lexeme, tokenValue? c.name lexeme = none := by
    intro c listed
    simp only [List.mem_cons, List.not_mem_nil, or_false] at listed
    rcases listed with rfl | rfl | rfl | rfl <;>
      exact ⟨by decide, by decide, by decide, by decide, fun _ => rfl⟩
  unfold formTerminal
  split
  · exact checked .letForm (by decide)
  · split
    · exact checked .refForm (by decide)
    · split
      · exact checked .docForm (by decide)
      · exact checked .unknownForm (by decide)

variable {w : Written}

/-- The terminal of a string is that of a form, or tells whether it is empty. -/
theorem terminal_cases (l : Literal) :
    isForm l.body = true ∧ l.terminal = formTerminal l.body ∨
      isForm l.body = false ∧ l.glyphs.isEmpty = true ∧ l.terminal = Construct.emptyString.name ∨
      isForm l.body = false ∧ l.glyphs.isEmpty = false ∧ l.terminal = Construct.string.name := by
  unfold Literal.terminal
  cases isForm l.body with
  | true => exact Or.inl ⟨rfl, rfl⟩
  | false =>
    cases l.glyphs.isEmpty with
    | true => exact Or.inr (Or.inl ⟨rfl, rfl, rfl⟩)
    | false => exact Or.inr (Or.inr ⟨rfl, rfl, rfl⟩)

theorem list?_isSome (plain : w.plain .member = true) : w.list?.isSome = isArray w.terminal := by
  cases w with
  | null => decide
  | bool b => exact (by decide : false = isArray "boolean")
  | number n => exact (by decide : false = isArray "number")
  | string l =>
    rw [Written.terminal]
    rcases terminal_cases l with ⟨_, named⟩ | ⟨_, _, named⟩ | ⟨_, _, named⟩ <;> rw [named]
    · rw [(formTerminal_unfit l.body).2.2.1]
      rfl
    · exact (by decide : false = isArray Construct.emptyString.name)
    · exact (by decide : false = isArray Construct.string.name)
  | array gap items =>
    have known : items.list?.isSome = true := items.list?_isSome plain
    rw [Written.list?, known, Written.terminal]
    split <;> decide
  | object gap members =>
    rw [Written.terminal]
    split
    · exact (by decide : false = isArray "empty_object")
    · exact (by decide : false = isArray "lbrace")

theorem phrase?_isSome : w.phrase?.isSome = decide (w.terminal = Construct.string.name) := by
  cases w with
  | null => decide
  | bool b => exact (by decide : false = decide ("boolean" = Construct.string.name))
  | number n => exact (by decide : false = decide ("number" = Construct.string.name))
  | string l =>
    rw [Written.terminal, Written.phrase?]
    rcases terminal_cases l with ⟨form, named⟩ | ⟨form, hollow, named⟩ | ⟨form, hollow, named⟩
    · rw [named, form, decide_eq_false (formTerminal_unfit l.body).2.2.2.1]
      rfl
    · rw [named, form, hollow]
      rfl
    · rw [named, form, hollow]
      rfl
  | array gap items =>
    rw [Written.terminal]
    split
    · exact (by decide : false = decide ("empty_array" = Construct.string.name))
    · exact (by decide : false = decide ("array" = Construct.string.name))
  | object gap members =>
    rw [Written.terminal]
    split
    · exact (by decide : false = decide ("empty_object" = Construct.string.name))
    · exact (by decide : false = decide ("lbrace" = Construct.string.name))

theorem value?_isSome (single : w.isBraced = false) (plain : w.plain .member = true) :
    w.value?.isSome = (isLiteral w.terminal || isContainer w.terminal) := by
  cases w with
  | null => decide
  | bool b => exact (by decide : true = (isLiteral "boolean" || isContainer "boolean"))
  | number n =>
    rw [Written.value?, Option.isSome_map, Decimal.read?_numeral n]
    exact (by decide : true = (isLiteral "number" || isContainer "number"))
  | string l =>
    rw [Written.terminal, Written.value?]
    rcases terminal_cases l with ⟨form, named⟩ | ⟨form, _, named⟩ | ⟨form, _, named⟩
    · rw [named, form, (formTerminal_unfit l.body).1, (formTerminal_unfit l.body).2.1]
      rfl
    · rw [named, form]
      rfl
    · rw [named, form]
      rfl
  | array gap items =>
    have known : items.list?.isSome = true := items.list?_isSome plain
    rw [Written.value?, Option.isSome_map, known, Written.terminal]
    split <;> decide
  | object gap members =>
    cases members with
    | nil => exact (by decide : true = (isLiteral "empty_object" || isContainer "empty_object"))
    | cons => cases single

theorem value?_of_list {items : List Value} (listed : w.list? = some items) :
    w.value? = some (.list items) := by
  cases w with
  | array gap _ =>
    rw [Written.list?] at listed
    rw [Written.value?, listed]
    rfl
  | _ => cases listed

theorem value?_of_phrase {text : String} (spelled : w.phrase? = some text) :
    w.value? = some (.string text) := by
  cases w with
  | string l =>
    rw [Written.phrase?] at spelled
    rw [Written.value?]
    cases form : isForm l.body with
    | true =>
      rw [form] at spelled
      cases spelled
    | false =>
      rw [form] at spelled
      cases hollow : l.glyphs.isEmpty with
      | true =>
        rw [hollow] at spelled
        cases spelled
      | false =>
        rw [hollow] at spelled
        cases spelled
        rfl
  | _ => cases spelled

/-- The token of a value stands for the value. -/
theorem tokenValue?_terminal (single : w.isBraced = false) (shallow : w.depth < Json.depthLimit) :
    tokenValue? w.terminal (String.ofList w.tight.text) = w.value? := by
  cases w with
  | null => rfl
  | bool b => cases b <;> rfl
  | number n => rfl
  | string l =>
    rw [Written.terminal, Written.value?]
    have decoded := Json.decodeString?_text l
    rcases terminal_cases l with ⟨form, named⟩ | ⟨form, _, named⟩ | ⟨form, _, named⟩
    · rw [named, form, (formTerminal_unfit l.body).2.2.2.2]
      rfl
    · rw [named, form]
      exact congrArg (Option.map Value.string) decoded
    · rw [named, form]
      exact congrArg (Option.map Value.string) decoded
  | array gap items =>
    have read := Json.read_tight shallow
    have found : arrayValue? (String.ofList (Written.array gap items).tight.text) =
        items.list?.map .list := by
      rw [arrayValue?, read]
      exact ofJson?_json (.array gap items)
    rw [Written.terminal, Written.value?, ← found]
    split <;> rfl
  | object gap members =>
    cases members with
    | nil => rfl
    | cons => cases single

variable (g : Attribution)

/-- The lines of form tokens. -/
def linesOf : Lines := fun depth place key => (keyToken g depth place key).line?

/-- What a form makes of its value, where it asks for a list or for a text. -/
theorem pairOf?_form {key : Literal} (form : isForm key.body = true) (value : String) :
    pairOf? key.terminal value =
      match key.form? with
      | some .letForm => if isArray value then some .letMember else none
      | some .refForm => if value = Construct.string.name then some .refMember else none
      | some .docForm => if value = Construct.string.name then some .docMember else none
      | none => none := by
  have noKey : isKey key.terminal = false := by rw [isKey_terminal, form]; rfl
  rw [pairOf?, noKey, if_neg Bool.false_ne_true, terminal_form form, formTerminal, Literal.form?]
  split
  · rfl
  · split
    · rfl
    · split
      · rfl
      · exact ite_self none

/-- Without members in the value, the tokens of a member are decoded as its text is, and the parser
accepts them just if that is possible. -/
theorem plainStatement?_eq (single : w.isBraced = false) (plain : w.plain .member = true)
    (shallow : w.depth < Json.depthLimit) {head value : Token} {key : Literal}
    (headName : head.name = key.terminal) (headLexeme : head.lexeme = String.ofList key.text)
    (valueName : value.name = w.terminal) (valueLexeme : value.lexeme = String.ofList w.tight.text) :
    plainStatement? head value = pairStatement? head.line? key w ∧
      (pairOf? head.name value.name).isSome = (pairStatement? head.line? key w).isSome := by
  have meant : tokenValue? value.name value.lexeme = w.value? := by
    rw [valueName, valueLexeme, tokenValue?_terminal single shallow]
  rw [plainStatement?, meant, headName, headLexeme, valueName, Json.decodeString?_text,
    pairStatement?]
  cases form : isForm key.body with
  | false =>
    rw [pairOf?, isKey_terminal, form, ← value?_isSome single plain]
    cases w.value? <;> exact ⟨rfl, rfl⟩
  | true =>
    rw [pairOf?_form form, if_pos rfl, ← list?_isSome plain]
    have texts : (w.terminal = Construct.string.name) = (w.phrase?.isSome = true) := by
      rw [phrase?_isSome, decide_eq_true_eq]
    simp only [texts]
    cases key.form? with
    | none => exact ⟨rfl, rfl⟩
    | some f =>
      cases f with
      | letForm =>
        cases listed : w.list? with
        | none => exact ⟨rfl, rfl⟩
        | some items =>
          rw [value?_of_list listed]
          exact ⟨rfl, rfl⟩
      | refForm =>
        cases spelled : w.phrase? with
        | none => exact ⟨rfl, rfl⟩
        | some text =>
          rw [value?_of_phrase spelled]
          exact ⟨rfl, rfl⟩
      | docForm =>
        cases spelled : w.phrase? with
        | none => exact ⟨rfl, rfl⟩
        | some text =>
          rw [value?_of_phrase spelled]
          exact ⟨rfl, rfl⟩

/-- A member is well formed just if its text can be decoded, and is decoded as its text is. -/
structure Decodes (m : Member) (statement? : Option Statement) : Prop where
  wellFormed : m.WellFormed ↔ statement?.isSome = true
  same : m.WellFormed → m.statement? = statement?

structure DecodesAll (t : MemberTail) (statements? : Option (List Statement)) : Prop where
  wellFormed : t.WellFormed ↔ statements?.isSome = true
  same : t.WellFormed → t.statements? = statements?

theorem decodes_plain (single : w.isBraced = false) (plain : w.plain .member = true)
    (shallow : w.depth < Json.depthLimit) (key : Literal) (depth above : Nat)
    (place before : Nat × Nat) {colon : Token} (named : colon.name = "colon") :
    Decodes (w.member g depth place (keyToken g above before key) colon)
      (w.statement? (linesOf g) depth place (linesOf g above before key) key) := by
  obtain ⟨same, paired⟩ := plainStatement?_eq single plain shallow
    (keyToken_name g above before key) (keyToken_lexeme g above before key)
    (valueToken_name g depth place w) (valueToken_lexeme g depth place single)
  rw [w.member_plain g single, w.statement?_plain single]
  refine ⟨?_, fun _ => same⟩
  rw [Member.WellFormed, paired]
  exact and_iff_right named

theorem isSome_statements?_cons (lines : Lines) (first : Bool) (depth : Nat) (place : Nat × Nat)
    (lead : Blanks) (key : Literal) (before after : Blanks) (value : Written) (trail : Blanks)
    (others : Members) :
    ((Members.cons lead key before after value trail others).statements? lines first depth
        place).isSome =
      let here := spots (advance place (comma first)) lead key before after value trail
      ((value.statement? lines (depth + 1) here.value (lines (depth + 1) here.key key) key).isSome &&
        (others.statements? lines false depth here.last).isSome) := by
  rw [Members.statements?]
  dsimp only
  generalize value.statement? lines _ _ _ _ = x
  generalize others.statements? lines _ _ _ = y
  cases x <;> cases y <;> rfl

mutual

theorem decodes_member : ∀ (w : Written), w.plain .member = true → w.depth < Json.depthLimit →
    ∀ (key : Literal) (depth above : Nat) (place before : Nat × Nat) {colon : Token},
      colon.name = "colon" →
        Decodes (w.member g depth place (keyToken g above before key) colon)
          (w.statement? (linesOf g) depth place (linesOf g above before key) key)
  | .object gap (.cons lead key' before' after value trail others), plain, shallow, key, depth,
      above, place, before, colon, named => by
    have makes := makes_emit g
    simp only [Written.plain, Members.plain, Bool.and_eq_true] at plain
    have inside : max value.depth others.depth < Json.depthLimit := Nat.lt_of_succ_lt shallow
    have first := decodes_member value plain.2.1
      (Nat.lt_of_le_of_lt (Nat.le_max_left _ _) inside) key' (depth + 1) (depth + 1)
      (spots (advance place ('{' :: gap.1)) lead key' before' after value trail).value
      (spots (advance place ('{' :: gap.1)) lead key' before' after value trail).key
      (makes.name (depth + 1)
        (spots (advance place ('{' :: gap.1)) lead key' before' after value trail).colon "colon" [':'])
    have rest := decodes_tail others plain.2.2
      (Nat.lt_of_le_of_lt (Nat.le_max_right _ _) inside) depth
      (spots (advance place ('{' :: gap.1)) lead key' before' after value trail).last
    have known := Json.decodeString?_text key
    rw [← keyToken_lexeme g above before key] at known
    have isKey : Procedure.isKey (keyToken g above before key).name = !isForm key.body := by
      rw [keyToken_name, isKey_terminal]
    have pair := isSome_statements?_cons (linesOf g) true depth (advance place ('{' :: gap.1)) lead key'
      before' after value trail others
    refine ⟨?_, fun wellFormed => ?_⟩
    · change (_ ∧ _ ∧ _ ∧ _ ∧ _ ∧ _) ↔ (if isForm key.body = true then none
        else ((Members.cons lead key' before' after value trail others).statements? (linesOf g) true
          depth (advance place ('{' :: gap.1))).map _).isSome = true
      rw [isKey]
      cases isForm key.body with
      | true => exact ⟨fun both => absurd both.1 Bool.false_ne_true, nofun⟩
      | false =>
        rw [if_neg Bool.false_ne_true, Option.isSome_map, pair, Bool.and_eq_true]
        exact ⟨fun ⟨_, _, _, here, later, _⟩ =>
            ⟨first.wellFormed.1 here, rest.wellFormed.1 later⟩,
          fun ⟨here, later⟩ => ⟨rfl, named, makes.name _ _ _ _, first.wellFormed.2 here,
            rest.wellFormed.2 later, closing_name g others _ _ _⟩⟩
    · obtain ⟨free, _, _, here, later, _⟩ := wellFormed
      have notForm : isForm key.body = false := by simpa [isKey] using free
      change (Json.decodeString? _).bind _ = if isForm key.body = true then none else
        ((Members.cons lead key' before' after value trail others).statements? (linesOf g) true
          depth (advance place ('{' :: gap.1))).map _
      rw [known, if_neg (by simp [notForm]), Option.bind_some]
      simp only [Members.statements?, first.same here, rest.same later, comma, if_true,
        show ∀ start, advance start [] = start from fun _ => rfl]
      generalize value.statement? (linesOf g) _ _ _ key' = statement
      generalize others.statements? (linesOf g) false depth _ = statements
      cases statement <;> cases statements <;> rfl
  | .object gap .nil, plain, shallow, key, _, _, _, _, _, named =>
    decodes_plain g rfl plain shallow key _ _ _ _ named
  | .array gap items, plain, shallow, key, _, _, _, _, _, named =>
    decodes_plain g rfl plain shallow key _ _ _ _ named
  | .string l, plain, shallow, key, _, _, _, _, _, named =>
    decodes_plain g rfl plain shallow key _ _ _ _ named
  | .number n, plain, shallow, key, _, _, _, _, _, named =>
    decodes_plain g rfl plain shallow key _ _ _ _ named
  | .bool b, plain, shallow, key, _, _, _, _, _, named =>
    decodes_plain g rfl plain shallow key _ _ _ _ named
  | .null, plain, shallow, key, _, _, _, _, _, named =>
    decodes_plain g rfl plain shallow key _ _ _ _ named

theorem decodes_tail : ∀ (members : Members), members.plain = true →
    members.depth < Json.depthLimit → ∀ (depth : Nat) (place : Nat × Nat),
      DecodesAll (members.tail g depth place)
        (members.statements? (linesOf g) false depth place)
  | .nil, _, _, _, _ => ⟨⟨fun _ => rfl, fun _ => trivial⟩, fun _ => rfl⟩
  | .cons lead key before after value trail others, plain, shallow, depth, place => by
    have makes := makes_emit g
    simp only [Members.plain, Bool.and_eq_true] at plain
    have first := decodes_member value plain.1
      (Nat.lt_of_le_of_lt (Nat.le_max_left _ _) shallow) key (depth + 1) (depth + 1)
      (spots (advance place [',']) lead key before after value trail).value
      (spots (advance place [',']) lead key before after value trail).key
      (makes.name (depth + 1) (spots (advance place [',']) lead key before after value trail).colon
        "colon" [':'])
    have rest := decodes_tail others plain.2
      (Nat.lt_of_le_of_lt (Nat.le_max_right _ _) shallow) depth
      (spots (advance place [',']) lead key before after value trail).last
    have pair := isSome_statements?_cons (linesOf g) false depth place lead key before after value
      trail others
    refine ⟨?_, fun ⟨_, here, later⟩ => ?_⟩
    · rw [pair, Bool.and_eq_true]
      exact ⟨fun ⟨_, here, later⟩ => ⟨first.wellFormed.1 here, rest.wellFormed.1 later⟩,
        fun ⟨here, later⟩ => ⟨makes.name _ _ _ _, first.wellFormed.2 here,
          rest.wellFormed.2 later⟩⟩
    · simp only [Members.tail, MemberTail.statements?, Members.statements?, first.same here,
        rest.same later]
      rfl

end

/-- The program of an object with members is well formed just if its text can be decoded, and has the
statements of its text. -/
theorem decodes_programOf {members : Members} (visible : members.isNil = false)
    (plain : members.plain = true) (shallow : members.depth < Json.depthLimit) (place : Nat × Nat)
    (gap : Blanks) :
    ((programOf g place gap members).WellFormed ↔
        (members.statements? (linesOf g) true 0 (advance place ('{' :: gap.1))).isSome = true) ∧
      ((programOf g place gap members).WellFormed → (programOf g place gap members).statements? =
        members.statements? (linesOf g) true 0 (advance place ('{' :: gap.1))) := by
  cases members with
  | nil => cases visible
  | cons lead key before after value trail others =>
    have makes := makes_emit g
    simp only [Members.plain, Bool.and_eq_true] at plain
    have first := decodes_member g value plain.1
      (Nat.lt_of_le_of_lt (Nat.le_max_left _ _) shallow) key 1 1
      (spots (advance place ('{' :: gap.1)) lead key before after value trail).value
      (spots (advance place ('{' :: gap.1)) lead key before after value trail).key
      (makes.name 1 (spots (advance place ('{' :: gap.1)) lead key before after value trail).colon
        "colon" [':'])
    have rest := decodes_tail g others plain.2
      (Nat.lt_of_le_of_lt (Nat.le_max_right _ _) shallow) 0
      (spots (advance place ('{' :: gap.1)) lead key before after value trail).last
    have pair := isSome_statements?_cons (linesOf g) true 0 (advance place ('{' :: gap.1)) lead key
      before after value trail others
    refine ⟨?_, fun ⟨_, here, later, _⟩ => ?_⟩
    · rw [pair, Bool.and_eq_true]
      exact ⟨fun ⟨_, here, later, _⟩ => ⟨first.wellFormed.1 here, rest.wellFormed.1 later⟩,
        fun ⟨here, later⟩ => ⟨makes.name _ _ _ _, first.wellFormed.2 here,
          rest.wellFormed.2 later, closing_name g others _ _ _⟩⟩
    · simp only [programOf, Program.statements?, Members.statements?, first.same here,
        rest.same later]
      rfl

end Procedure

end AttrGrammar
