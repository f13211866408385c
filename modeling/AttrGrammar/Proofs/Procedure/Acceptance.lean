import AttrGrammar.Proofs.Procedure.Compiling

/-!
Which texts compile.

The members of an object and of all objects in it, outside arrays, are looked at one by one. A text
compiles if and only if each of them is lawful, and otherwise the error tells which law is broken.
-/

namespace AttrGrammar

open Scanner (advance)
open Procedure (isForm Value Statement Sounds)

namespace Json

def Items.toList : Items → List Written
  | .nil => []
  | .cons _ item _ others => item :: others.toList

/-- A member of an object outside arrays. -/
structure Entry where
  /-- Whether the object is the outermost one. -/
  top : Bool
  key : Literal
  value : Written

mutual

/-- The members in a value. -/
def Written.entries : Written → List Entry
  | .object _ members => members.listed false
  | .array _ _ | .string _ | .number _ | .bool _ | .null => []

/-- The members of an object, each followed by those in its value. -/
def Members.listed (top : Bool) : Members → List Entry
  | .nil => []
  | .cons _ key _ _ value _ others => ⟨top, key, value⟩ :: (value.entries ++ others.listed top)

end

/-- A string that looks like a special form, but names none. -/
def Literal.foreign (l : Literal) : Bool := isForm l.body && l.form?.isNone

namespace Entry

/-- The key or the value is a special form that the language does not know. -/
def Foreign (e : Entry) : Prop :=
  e.key.foreign = true ∨ ∃ l, e.value = .string l ∧ l.foreign = true

/-- A special form is the value, or the key is one that its value does not suit: `&let` asks for an
array, `&ref` and `&doc` for a string that is not empty. -/
def Misshapen (e : Entry) : Prop :=
  (∃ l, e.value = .string l ∧ isForm l.body = true) ∨
    (e.key.form? = some .letForm ∧ ¬ ∃ gap items, e.value = .array gap items) ∨
      ((e.key.form? = some .refForm ∨ e.key.form? = some .docForm) ∧
        ¬ ∃ l, e.value = .string l ∧ l.body ≠ [])

/-- What every member of a text that compiles is like. -/
structure Lawful (e : Entry) : Prop where
  known : isForm e.key.body = true → e.key.form?.isSome = true
  value : ∀ l, e.value = .string l → isForm l.body = false
  parameters : e.key.form? = some .letForm →
    ∃ gap items, e.value = .array gap items ∧ ∀ item ∈ items.toList, ∃ l, item = .string l
  text : e.key.form? = some .refForm ∨ e.key.form? = some .docForm →
    ∃ l, e.value = .string l ∧ l.body ≠ []
  placed : e.key.form? = some .refForm → e.top = false

/-- A member of the right shape is lawful if the parameters of `&let` are strings and `&ref` is not at
the top. -/
structure Sound (e : Entry) : Prop where
  parameters : e.key.form? = some .letForm → ∀ gap items, e.value = .array gap items →
    ∀ item ∈ items.toList, ∃ l, item = .string l
  placed : e.key.form? = some .refForm → e.top = false

theorem Lawful.not_foreign {e : Entry} (lawful : e.Lawful) : ¬ e.Foreign := by
  rintro (foreign | ⟨l, is, foreign⟩)
  · simp only [Literal.foreign, Bool.and_eq_true, Option.isNone_iff_eq_none] at foreign
    have known := lawful.known foreign.1
    rw [foreign.2] at known
    cases known
  · simp only [Literal.foreign, Bool.and_eq_true] at foreign
    cases foreign.1.symm.trans (lawful.value l is)

theorem Lawful.not_misshapen {e : Entry} (lawful : e.Lawful) : ¬ e.Misshapen := by
  rintro (⟨l, is, form⟩ | ⟨form, other⟩ | ⟨form, other⟩)
  · cases form.symm.trans (lawful.value l is)
  · obtain ⟨gap, items, is, _⟩ := lawful.parameters form
    exact other ⟨gap, items, is⟩
  · exact other (lawful.text form)

theorem Lawful.sound {e : Entry} (lawful : e.Lawful) : e.Sound where
  parameters form gap items is := by
    obtain ⟨gap', items', is', strings⟩ := lawful.parameters form
    cases is.symm.trans is'
    exact strings
  placed := lawful.placed

/-- The laws in the order in which they are checked. -/
theorem lawful_iff {e : Entry} : e.Lawful ↔ ¬ e.Foreign ∧ ¬ e.Misshapen ∧ e.Sound := by
  refine ⟨fun lawful => ⟨lawful.not_foreign, lawful.not_misshapen, lawful.sound⟩, ?_⟩
  rintro ⟨notForeign, shaped, sound⟩
  refine ⟨fun form => ?_, fun l is => ?_, fun form => ?_, fun form => ?_, sound.placed⟩
  · cases known : e.key.form? with
    | some _ => rfl
    | none =>
      refine absurd (Or.inl ?_) notForeign
      rw [Literal.foreign, form, known]
      rfl
  · cases form : isForm l.body with
    | false => rfl
    | true => exact absurd (Or.inl ⟨l, is, form⟩) shaped
  · obtain ⟨gap, items, is⟩ : ∃ gap items, e.value = .array gap items :=
      Classical.byContradiction fun other => shaped (Or.inr (Or.inl ⟨form, other⟩))
    exact ⟨gap, items, is, sound.parameters form gap items is⟩
  · exact Classical.byContradiction fun other => shaped (Or.inr (Or.inr ⟨form, other⟩))

end Entry

end Json

namespace Procedure

open Json (Blanks Written Items Members Literal Entry Lines spots comma pairStatement?)

theorem form?_of_isForm_eq_false {l : Literal} (other : isForm l.body = false) : l.form? = none := by
  have different : ∀ body, isForm body = true → l.body ≠ body := by
    rintro body form rfl
    cases form.symm.trans other
  rw [Literal.form?, if_neg (different _ (by decide)), if_neg (different _ (by decide)),
    if_neg (different _ (by decide))]

theorem foreign_iff (l : Literal) :
    l.foreign = true ↔ l.terminal = Construct.unknownForm.name := by
  rcases terminal_cases l with ⟨form, named⟩ | ⟨form, _, named⟩ | ⟨form, _, named⟩ <;> rw [named]
  · rw [Literal.foreign, form, Bool.true_and, formTerminal, Literal.form?]
    split
    · decide
    · split
      · decide
      · split <;> decide
  · rw [Literal.foreign, form]
    exact (by decide : false = true ↔ Construct.emptyString.name = Construct.unknownForm.name)
  · rw [Literal.foreign, form]
    exact (by decide : false = true ↔ Construct.string.name = Construct.unknownForm.name)

/-- Some of the tokens are unknown special forms. -/
def HasUnknown (tokens : List Token) : Prop := ∃ t ∈ tokens, t.name = Construct.unknownForm.name

theorem hasUnknown_cons {t : Token} {ts : List Token} :
    HasUnknown (t :: ts) ↔ t.name = Construct.unknownForm.name ∨ HasUnknown ts :=
  by simp [HasUnknown]

theorem hasUnknown_append {ts us : List Token} :
    HasUnknown (ts ++ us) ↔ HasUnknown ts ∨ HasUnknown us := by
  simp [HasUnknown, or_and_right, exists_or]

theorem hasUnknown_nil : ¬ HasUnknown [] := by
  rintro ⟨_, member, _⟩
  cases member

variable (g : Attribution)

theorem terminal_unknown {w : Written} :
    w.terminal = Construct.unknownForm.name ↔ ∃ l, w = .string l ∧ l.foreign = true := by
  have noString : (∀ l, w ≠ .string l) → w.terminal ≠ Construct.unknownForm.name →
      (w.terminal = Construct.unknownForm.name ↔ ∃ l, w = .string l ∧ l.foreign = true) := by
    intro other named
    refine iff_of_false named ?_
    rintro ⟨l, is, _⟩
    exact other l is
  cases w with
  | null => exact noString (by simp) (by decide)
  | bool b => exact noString (by simp) (by decide : "boolean" ≠ Construct.unknownForm.name)
  | number n => exact noString (by simp) (by decide : "number" ≠ Construct.unknownForm.name)
  | string l =>
    rw [Written.terminal, ← foreign_iff]
    simp only [Written.string.injEq, exists_eq_left']
  | array gap items =>
    refine noString (by simp) ?_
    rw [Written.terminal]
    split <;> decide
  | object gap members =>
    refine noString (by simp) ?_
    rw [Written.terminal]
    split <;> decide

theorem hasUnknown_plain {w : Written} (single : w.isBraced = false) (nothing : w.entries = [])
    {depth : Nat} {place : Nat × Nat} {head colon : Token} (named : colon.name = "colon") :
    HasUnknown (w.member g depth place head colon).tokens ↔
      head.name = Construct.unknownForm.name ∨ (∃ l, w = .string l ∧ l.foreign = true) ∨
        ∃ e ∈ w.entries, e.Foreign := by
  rw [w.member_plain g single, Member.tokens, hasUnknown_cons, hasUnknown_cons, hasUnknown_cons,
    named, valueToken_name, terminal_unknown, nothing]
  simp [hasUnknown_nil, show "colon" ≠ Construct.unknownForm.name by decide]

theorem exists_listed {p : Entry → Prop} (top : Bool) (lead : Blanks) (key : Literal)
    (before after : Blanks) (value : Written) (trail : Blanks) (others : Members) :
    (∃ e ∈ (Members.cons lead key before after value trail others).listed top, p e) ↔
      p ⟨top, key, value⟩ ∨ (∃ e ∈ value.entries, p e) ∨ ∃ e ∈ others.listed top, p e := by
  simp [Members.listed, or_and_right, exists_or]

mutual

/-- The unknown special forms among the tokens are those of the text. -/
theorem hasUnknown_member : ∀ (w : Written) (depth : Nat) (place : Nat × Nat) (head : Token)
    {colon : Token}, colon.name = "colon" →
      (HasUnknown (w.member g depth place head colon).tokens ↔
        head.name = Construct.unknownForm.name ∨ (∃ l, w = .string l ∧ l.foreign = true) ∨
          ∃ e ∈ w.entries, e.Foreign)
  | .object gap (.cons lead key before after value trail others), depth, place, head, colon,
      named => by
    have makes := makes_emit g
    have first := hasUnknown_member value (depth + 1)
      (spots (advance place ('{' :: gap.1)) lead key before after value trail).value
      (keyToken g (depth + 1)
        (spots (advance place ('{' :: gap.1)) lead key before after value trail).key key)
      (makes.name (depth + 1)
        (spots (advance place ('{' :: gap.1)) lead key before after value trail).colon "colon" [':'])
    have rest := hasUnknown_tail others false depth
      (spots (advance place ('{' :: gap.1)) lead key before after value trail).last
    rw [keyToken_name, ← foreign_iff] at first
    have entries : (∃ e ∈ (Written.object gap
        (.cons lead key before after value trail others)).entries, e.Foreign) ↔ _ :=
      exists_listed false lead key before after value trail others
    have colonKnown : colon.name ≠ Construct.unknownForm.name := by
      rw [named]
      decide
    have opensKnown : (emit g.annotate depth place "lbrace" ['{']).name ≠
        Construct.unknownForm.name := by
      rw [makes.name]
      decide
    have closesKnown : (others.closing g false depth
        (spots (advance place ('{' :: gap.1)) lead key before after value trail).last).name ≠
          Construct.unknownForm.name := by
      rw [closing_name]
      decide
    rw [entries, Written.member, Member.tokens]
    simp only [hasUnknown_cons, hasUnknown_append, hasUnknown_nil, colonKnown, opensKnown,
      closesKnown, first, rest, false_or, or_false, reduceCtorEq, false_and, exists_false,
      Entry.Foreign, or_assoc]
  | .object gap .nil, _, _, _, _, named => hasUnknown_plain g rfl rfl named
  | .array gap items, _, _, _, _, named => hasUnknown_plain g rfl rfl named
  | .string l, _, _, _, _, named => hasUnknown_plain g rfl rfl named
  | .number n, _, _, _, _, named => hasUnknown_plain g rfl rfl named
  | .bool b, _, _, _, _, named => hasUnknown_plain g rfl rfl named
  | .null, _, _, _, _, named => hasUnknown_plain g rfl rfl named

theorem hasUnknown_tail : ∀ (members : Members) (top : Bool) (depth : Nat) (place : Nat × Nat),
    HasUnknown (members.tail g depth place).tokens ↔ ∃ e ∈ members.listed top, e.Foreign
  | .nil, _, _, _ => ⟨fun has => absurd has hasUnknown_nil, fun ⟨_, member, _⟩ => by cases member⟩
  | .cons lead key before after value trail others, top, depth, place => by
    have makes := makes_emit g
    have first := hasUnknown_member value (depth + 1)
      (spots (advance place [',']) lead key before after value trail).value
      (keyToken g (depth + 1)
        (spots (advance place [',']) lead key before after value trail).key key)
      (makes.name (depth + 1) (spots (advance place [',']) lead key before after value trail).colon
        "colon" [':'])
    have rest := hasUnknown_tail others top depth
      (spots (advance place [',']) lead key before after value trail).last
    rw [keyToken_name, ← foreign_iff] at first
    have dividerKnown : (emit g.annotate (depth + 1) place "member_divider" [',']).name ≠
        Construct.unknownForm.name := by
      rw [makes.name]
      decide
    rw [exists_listed, Members.tail, MemberTail.tokens]
    simp only [hasUnknown_cons, hasUnknown_append, dividerKnown, first, rest, false_or,
      Entry.Foreign, or_assoc]

end

theorem exists_foreign : ∀ (members : Members) (top top' : Bool),
    (∃ e ∈ members.listed top, e.Foreign) ↔ ∃ e ∈ members.listed top', e.Foreign
  | .nil, _, _ => Iff.rfl
  | .cons _ _ _ _ _ _ others, top, top' => by
    rw [exists_listed, exists_listed, exists_foreign others top top']
    rfl

theorem hasUnknown_programOf (place : Nat × Nat) (gap : Blanks) (members : Members) (top : Bool) :
    HasUnknown (programOf g place gap members).tokens ↔ ∃ e ∈ members.listed top, e.Foreign := by
  let plain : Token := { name := "colon", lexeme := "" }
  have known : plain.name ≠ Construct.unknownForm.name := by decide
  have inside := hasUnknown_member g (.object gap members) 0 place plain
    (show plain.name = "colon" from rfl)
  rw [tokens_member, hasUnknown_cons, hasUnknown_cons, ← tokens_programOf] at inside
  simp only [known, false_or, reduceCtorEq, false_and, exists_false] at inside
  exact inside.trans (exists_foreign members false top)

variable {w : Written}

theorem list?_isSome_iff (plain : w.plain .member = true) :
    w.list?.isSome = true ↔ ∃ gap items, w = .array gap items := by
  cases w with
  | array gap items => exact ⟨fun _ => ⟨gap, items, rfl⟩, fun _ => items.list?_isSome plain⟩
  | _ => exact ⟨nofun, fun ⟨_, _, same⟩ => by cases same⟩

theorem isEmpty_glyphs (l : Literal) : l.glyphs.isEmpty = true ↔ l.body = [] := by
  have fits := Literal.length_le_textOf l.glyphs
  rw [List.isEmpty_iff, Literal.body]
  constructor
  · intro noForm
    rw [noForm]
    rfl
  · intro noForm
    rw [noForm] at fits
    exact List.eq_nil_of_length_eq_zero (Nat.le_zero.1 fits)

theorem phrase?_isSome_iff :
    w.phrase?.isSome = true ↔ ∃ l, w = .string l ∧ isForm l.body = false ∧ l.body ≠ [] := by
  cases w with
  | string l =>
    have accepted : (Written.string l).phrase?.isSome = true ↔
        isForm l.body = false ∧ l.body ≠ [] := by
      rw [Written.phrase?, ne_eq, ← isEmpty_glyphs]
      cases isForm l.body <;> cases l.glyphs.isEmpty <;> simp
    rw [accepted]
    simp only [Written.string.injEq, exists_eq_left']
  | _ => simp [Written.phrase?]

theorem value?_isSome_iff (single : w.isBraced = false) (plain : w.plain .member = true) :
    w.value?.isSome = true ↔ ¬ ∃ l, w = .string l ∧ isForm l.body = true := by
  have noString : (∀ l, w ≠ .string l) → w.value?.isSome = true →
      (w.value?.isSome = true ↔ ¬ ∃ l, w = .string l ∧ isForm l.body = true) := by
    intro other isSome
    refine iff_of_true isSome ?_
    rintro ⟨l, is, _⟩
    exact other l is
  cases w with
  | null => exact noString (by simp) rfl
  | bool b => exact noString (by simp) rfl
  | number n =>
    refine noString (by simp) ?_
    rw [Written.value?, Option.isSome_map]
    exact Decimal.read?_numeral n
  | string l =>
    have accepted : (Written.string l).value?.isSome = true ↔ ¬ isForm l.body = true := by
      rw [Written.value?]
      cases isForm l.body <;> simp
    rw [accepted]
    simp only [Written.string.injEq, exists_eq_left']
  | array gap items =>
    refine noString (by simp) ?_
    rw [Written.value?, Option.isSome_map]
    exact items.list?_isSome plain
  | object gap members =>
    cases members with
    | nil => exact noString (by simp) rfl
    | cons => cases single

/-- A member is neither misshapen nor has it an unknown special form. -/
def Shaped (e : Entry) : Prop := ¬ e.Foreign ∧ ¬ e.Misshapen

/-- A string that is no special form is not an unknown one. -/
theorem not_foreign_of_not_form (noForm : ¬ ∃ l, w = .string l ∧ isForm l.body = true) :
    ¬ ∃ l, w = .string l ∧ l.foreign = true := by
  rintro ⟨l, is, foreign⟩
  simp only [Literal.foreign, Bool.and_eq_true] at foreign
  exact noForm ⟨l, is, foreign.1⟩

theorem pairStatement?_isSome_iff (single : w.isBraced = false) (plain : w.plain .member = true)
    (top : Bool) (line : Option Nat) (key : Literal) :
    (pairStatement? line key w).isSome = true ↔ Shaped ⟨top, key, w⟩ := by
  have noForm := not_foreign_of_not_form (w := w)
  rw [pairStatement?, Shaped, Entry.Foreign, Entry.Misshapen]
  cases form : isForm key.body with
  | false =>
    have unnamed := form?_of_isForm_eq_false form
    have known : key.foreign = false := by rw [Literal.foreign, form]; rfl
    rw [if_neg Bool.false_ne_true, Option.isSome_map, value?_isSome_iff single plain]
    simp only [known, unnamed, reduceCtorEq, false_and, or_false, Bool.false_eq_true, false_or]
    exact ⟨fun free => ⟨noForm free, free⟩, fun both => both.2⟩
  | true =>
    rw [if_pos rfl]
    cases named : key.form? with
    | none =>
      have foreign : key.foreign = true := by rw [Literal.foreign, form, named]; rfl
      exact iff_of_false Bool.false_ne_true fun both => both.1 (Or.inl foreign)
    | some f =>
      have known : key.foreign = false := by rw [Literal.foreign, named, Bool.and_comm]; rfl
      have texts : w.phrase?.isSome = true ↔
          ((¬ ∃ l, w = .string l ∧ l.foreign = true) ∧
            ¬ ∃ l, w = .string l ∧ isForm l.body = true) ∧ ∃ l, w = .string l ∧ l.body ≠ [] := by
        rw [phrase?_isSome_iff]
        constructor
        · rintro ⟨l, rfl, other, text⟩
          have noForm' : ¬ ∃ l', Written.string l = .string l' ∧ isForm l'.body = true := by
            rintro ⟨_, same, form⟩
            cases same
            cases form.symm.trans other
          exact ⟨⟨noForm noForm', noForm'⟩, l, rfl, text⟩
        · rintro ⟨⟨_, noForm⟩, l, rfl, text⟩
          exact ⟨l, rfl, Bool.eq_false_iff.2 fun form => noForm ⟨l, rfl, form⟩, text⟩
      cases f with
      | letForm =>
        simp only [known, Option.isSome_map, list?_isSome_iff plain, Bool.false_eq_true, false_or,
          true_and, reduceCtorEq, or_self, false_and, or_false, Option.some.injEq]
        constructor
        · rintro ⟨gap, items, rfl⟩
          simp
        · rintro ⟨_, shaped⟩
          exact Classical.not_not.1 (not_or.1 shaped).2
      | refForm | docForm =>
        simp only [known, Option.isSome_map, texts, Bool.false_eq_true, false_or, true_and,
          reduceCtorEq, false_and, or_false, or_true, Option.some.injEq, not_or, Classical.not_not,
          and_assoc]

/-- An object with members is no value for a form. -/
theorem shaped_braced (braced : w.isBraced = true) (top : Bool) (key : Literal) :
    Shaped ⟨top, key, w⟩ ↔ isForm key.body = false := by
  have noString : ∀ l, w ≠ .string l := by
    rintro l rfl
    cases braced
  have noArray : ∀ gap items, w ≠ .array gap items := by
    rintro gap items rfl
    cases braced
  cases form : isForm key.body with
  | false =>
    have known : key.foreign = false := by rw [Literal.foreign, form]; rfl
    have unnamed := form?_of_isForm_eq_false form
    refine ⟨fun _ => rfl, fun _ => ⟨?_, ?_⟩⟩
    · rintro (foreign | ⟨l, is, _⟩)
      · cases known.symm.trans foreign
      · exact noString l is
    · rintro (⟨l, is, _⟩ | ⟨named, _⟩ | ⟨named | named, _⟩)
      · exact noString l is
      all_goals cases unnamed.symm.trans named
  | true =>
    refine ⟨fun ⟨known, shaped⟩ => ?_, nofun⟩
    cases named : key.form? with
    | none => exact absurd (Or.inl (by rw [Literal.foreign, form, named]; rfl)) known
    | some f =>
      have noText : ¬ ∃ l, w = .string l ∧ l.body ≠ [] := fun ⟨l, is, _⟩ => noString l is
      refine absurd (Or.inr ?_) shaped
      cases f with
      | letForm => exact Or.inl ⟨named, fun ⟨gap, items, is⟩ => noArray gap items is⟩
      | refForm => exact Or.inr ⟨Or.inl named, noText⟩
      | docForm => exact Or.inr ⟨Or.inr named, noText⟩

theorem forall_listed {p : Entry → Prop} (top : Bool) (lead : Blanks) (key : Literal)
    (before after : Blanks) (value : Written) (trail : Blanks) (others : Members) :
    (∀ e ∈ (Members.cons lead key before after value trail others).listed top, p e) ↔
      (p ⟨top, key, value⟩ ∧ ∀ e ∈ value.entries, p e) ∧ ∀ e ∈ others.listed top, p e := by
  simp only [Members.listed, List.forall_mem_cons, List.forall_mem_append, and_assoc]

section

variable (lines : Lines)

theorem isSome_statement?_plain (single : w.isBraced = false) (plain : w.plain .member = true)
    (nothing : w.entries = []) (top : Bool) (depth : Nat) (place : Nat × Nat) (line : Option Nat)
    (key : Literal) :
    (w.statement? lines depth place line key).isSome = true ↔
      Shaped ⟨top, key, w⟩ ∧ ∀ e ∈ w.entries, Shaped e := by
  rw [w.statement?_plain single, pairStatement?_isSome_iff single plain top, nothing]
  exact (and_iff_left (List.forall_mem_nil _)).symm

mutual

/-- A member can be decoded if and only if it and those in its value have the right shape. -/
theorem isSome_statement?_iff : ∀ (w : Written), w.plain .member = true →
    ∀ (top : Bool) (depth : Nat) (place : Nat × Nat) (line : Option Nat) (key : Literal),
      (w.statement? lines depth place line key).isSome = true ↔
        Shaped ⟨top, key, w⟩ ∧ ∀ e ∈ w.entries, Shaped e
  | .object gap (.cons lead key' before after value trail others), plain, top, depth, place, line,
      key => by
    have inside := isSome_statements?_iff (.cons lead key' before after value trail others) plain
      true false depth (advance place ('{' :: gap.1))
    rw [shaped_braced rfl]
    change (if isForm key.body = true then none
      else ((Members.cons lead key' before after value trail others).statements? lines true depth
        (advance place ('{' :: gap.1))).map _).isSome = true ↔ _
    cases isForm key.body with
    | true => exact ⟨nofun, fun both => nomatch both.1⟩
    | false =>
      rw [if_neg Bool.false_ne_true, Option.isSome_map, inside]
      exact (and_iff_right rfl).symm
  | .object gap .nil, plain, top, depth, place, line, key =>
    isSome_statement?_plain lines rfl plain rfl top depth place line key
  | .array gap items, plain, top, depth, place, line, key =>
    isSome_statement?_plain lines rfl plain rfl top depth place line key
  | .string l, plain, top, depth, place, line, key =>
    isSome_statement?_plain lines rfl plain rfl top depth place line key
  | .number n, plain, top, depth, place, line, key =>
    isSome_statement?_plain lines rfl plain rfl top depth place line key
  | .bool b, plain, top, depth, place, line, key =>
    isSome_statement?_plain lines rfl plain rfl top depth place line key
  | .null, plain, top, depth, place, line, key =>
    isSome_statement?_plain lines rfl plain rfl top depth place line key

theorem isSome_statements?_iff : ∀ (members : Members), members.plain = true →
    ∀ (first top : Bool) (depth : Nat) (place : Nat × Nat),
      (members.statements? lines first depth place).isSome = true ↔
        ∀ e ∈ members.listed top, Shaped e
  | .nil, _, _, _, _, _ => ⟨fun _ => List.forall_mem_nil _, fun _ => rfl⟩
  | .cons lead key before after value trail others, plain, first, top, depth, place => by
    simp only [Members.plain, Bool.and_eq_true] at plain
    rw [isSome_statements?_cons, forall_listed]
    dsimp only
    rw [Bool.and_eq_true, isSome_statement?_iff value plain.1 top,
      isSome_statements?_iff others plain.2 false top]

end

/-- A value is a string just if its text is one. -/
theorem string?_isSome_iff {value : Value} (decoded : w.item? = some value) :
    value.string?.isSome = true ↔ ∃ l, w = .string l := by
  cases w with
  | string l =>
    cases decoded
    exact ⟨fun _ => ⟨l, rfl⟩, fun _ => rfl⟩
  | null | bool =>
    cases decoded
    exact ⟨nofun, nofun⟩
  | number n =>
    obtain ⟨x, _, rfl⟩ := Option.map_eq_some_iff.1 decoded
    exact ⟨nofun, nofun⟩
  | array gap items =>
    obtain ⟨values, _, rfl⟩ := Option.map_eq_some_iff.1 decoded
    exact ⟨nofun, nofun⟩
  | object gap members => cases decoded

theorem forall_string_iff : ∀ (items : Items) {values : List Value},
    items.list? = some values →
      ((∀ v ∈ values, v.string?.isSome = true) ↔ ∀ item ∈ items.toList, ∃ l, item = .string l)
  | .nil, values, decoded => by
    cases decoded
    exact ⟨fun _ => List.forall_mem_nil _, fun _ => List.forall_mem_nil _⟩
  | .cons lead item trail others, values, decoded => by
    rw [Items.list?] at decoded
    obtain ⟨value, here, decoded⟩ := Option.bind_eq_some_iff.1 decoded
    obtain ⟨rest, later, decoded⟩ := Option.bind_eq_some_iff.1 decoded
    cases decoded
    rw [Items.toList, List.forall_mem_cons, List.forall_mem_cons, string?_isSome_iff here,
      forall_string_iff others later]

theorem sound_of_ne {e : Entry} (noLet : e.key.form? ≠ some .letForm)
    (noRef : e.key.form? ≠ some .refForm) : e.Sound :=
  ⟨fun named => absurd named noLet, fun named => absurd named noRef⟩

/-- A member without members in its value is sound just if its statement is. -/
theorem sound_pairStatement? {line : Option Nat} {key : Literal} {statement : Statement}
    (decoded : pairStatement? line key w = some statement) (top : Bool) :
    statement.Sound top ↔ Entry.Sound ⟨top, key, w⟩ := by
  rw [pairStatement?] at decoded
  split at decoded
  · split at decoded
    · next named =>
      obtain ⟨values, listed, rfl⟩ := Option.map_eq_some_iff.1 decoded
      cases w with
      | array gap items =>
        refine (forall_string_iff items listed).trans ⟨fun strings => ⟨?_, ?_⟩, fun sound => ?_⟩
        · rintro _ _ _ same
          cases same
          exact strings
        · intro other
          cases named.symm.trans other
        · exact sound.parameters named gap items rfl
      | _ => cases listed
    · next named =>
      obtain ⟨text, _, rfl⟩ := Option.map_eq_some_iff.1 decoded
      refine ⟨fun inside => ⟨fun other => ?_, fun _ => inside⟩, fun sound => sound.placed named⟩
      cases named.symm.trans other
    · next named =>
      obtain ⟨text, _, rfl⟩ := Option.map_eq_some_iff.1 decoded
      exact iff_of_true trivial (sound_of_ne (by simp [named]) (by simp [named]))
    · cases decoded
  · next free =>
    obtain ⟨value, _, rfl⟩ := Option.map_eq_some_iff.1 decoded
    have other := form?_of_isForm_eq_false (Bool.eq_false_iff.2 free)
    exact iff_of_true trivial (sound_of_ne (by simp [other]) (by simp [other]))

theorem sound_statement?_plain (single : w.isBraced = false) (nothing : w.entries = [])
    {depth : Nat} {place : Nat × Nat} {line : Option Nat} {key : Literal} {statement : Statement}
    (decoded : w.statement? lines depth place line key = some statement) (top : Bool) :
    statement.Sound top ↔ Entry.Sound ⟨top, key, w⟩ ∧ ∀ e ∈ w.entries, e.Sound := by
  rw [w.statement?_plain single] at decoded
  rw [sound_pairStatement? decoded top, nothing]
  exact (and_iff_left (List.forall_mem_nil _)).symm

mutual

/-- A statement is sound just if its member and those in its value are. -/
theorem sound_statement? : ∀ (w : Written) {depth : Nat} {place : Nat × Nat} {line : Option Nat}
    {key : Literal} {statement : Statement},
    w.statement? lines depth place line key = some statement → ∀ top : Bool,
      (statement.Sound top ↔ Entry.Sound ⟨top, key, w⟩ ∧ ∀ e ∈ w.entries, e.Sound)
  | .object gap (.cons lead key' before after value trail others), depth, place, line, key,
      statement, decoded, top => by
    change (if isForm key.body = true then none
      else ((Members.cons lead key' before after value trail others).statements? lines true depth
        (advance place ('{' :: gap.1))).map _) = some statement at decoded
    split at decoded
    · cases decoded
    · next free =>
      obtain ⟨body, inside, rfl⟩ := Option.map_eq_some_iff.1 decoded
      have unnamed := form?_of_isForm_eq_false (Bool.eq_false_iff.2 free)
      have here : Entry.Sound ⟨top, key,
          .object gap (.cons lead key' before after value trail others)⟩ :=
        sound_of_ne (by simp [unnamed]) (by simp [unnamed])
      exact (sounds_statements? _ inside false).trans (and_iff_right here).symm
  | .object gap .nil, _, _, _, _, _, decoded, top =>
    sound_statement?_plain lines rfl rfl decoded top
  | .array gap items, _, _, _, _, _, decoded, top =>
    sound_statement?_plain lines rfl rfl decoded top
  | .string l, _, _, _, _, _, decoded, top => sound_statement?_plain lines rfl rfl decoded top
  | .number n, _, _, _, _, _, decoded, top => sound_statement?_plain lines rfl rfl decoded top
  | .bool b, _, _, _, _, _, decoded, top => sound_statement?_plain lines rfl rfl decoded top
  | .null, _, _, _, _, _, decoded, top => sound_statement?_plain lines rfl rfl decoded top

theorem sounds_statements? : ∀ (members : Members) {first : Bool} {depth : Nat} {place : Nat × Nat}
    {body : List Statement}, members.statements? lines first depth place = some body →
      ∀ top : Bool, (Sounds top body ↔ ∀ e ∈ members.listed top, e.Sound)
  | .nil, _, _, _, _, decoded, _ => by
    cases decoded
    exact ⟨fun _ => List.forall_mem_nil _, fun _ => trivial⟩
  | .cons lead key before after value trail others, _, _, _, _, decoded, top => by
    rw [Members.statements?] at decoded
    obtain ⟨statement, here, decoded⟩ := Option.bind_eq_some_iff.1 decoded
    obtain ⟨rest, later, decoded⟩ := Option.bind_eq_some_iff.1 decoded
    cases decoded
    rw [Sounds, forall_listed, sound_statement? value here top, sounds_statements? others later top]

end

end

/-- The tokens of a text hold an unknown special form just if some member does. -/
theorem find?_unknown (place : Nat × Nat) (gap : Blanks) (members : Members) :
    ((programOf g place gap members).tokens.find? (·.name == Construct.unknownForm.name)).isSome =
        true ↔ ∃ e ∈ members.listed true, e.Foreign := by
  rw [← hasUnknown_programOf g place gap members true, List.find?_isSome]
  simp [HasUnknown]

variable {g}

/-- An outcome of compiling that is right for the members: there is a result just if all of them are
lawful, and the fault is the first of an unknown special form, of the parser, and of a misused form. -/
structure Judges {α : Type} (outcome : Except CompileError α) (entries : List Entry) : Prop where
  compiles : (∃ result, outcome = .ok result) ↔ ∀ e ∈ entries, e.Lawful
  unknown : (∃ e ∈ entries, e.Foreign) → ∃ form, outcome = .error (.unknownForm form)
  parse : (∀ e ∈ entries, ¬ e.Foreign) → (∃ e ∈ entries, e.Misshapen) →
    ∃ fault, outcome = .error (.parse fault)
  misuse : (∀ e ∈ entries, ¬ e.Foreign) → (∀ e ∈ entries, ¬ e.Misshapen) →
    (¬ ∀ e ∈ entries, e.Lawful) → ∃ fault, outcome = .error (.semantic fault) ∧ fault.IsMisuse

namespace Judges

variable {α : Type} {entries : List Entry}

theorem of_foreign {e : Entry} (member : e ∈ entries) (foreign : e.Foreign) (form : UnknownForm) :
    Judges (.error (.unknownForm form) : Except CompileError α) entries where
  compiles := ⟨nofun, fun lawful => absurd foreign (lawful e member).not_foreign⟩
  unknown _ := ⟨form, rfl⟩
  parse free := absurd foreign (free e member)
  misuse free := absurd foreign (free e member)

theorem of_misshapen (free : ∀ e ∈ entries, ¬ e.Foreign) {e : Entry} (member : e ∈ entries)
    (misshapen : e.Misshapen) (fault : ParseError) :
    Judges (.error (.parse fault) : Except CompileError α) entries where
  compiles := ⟨nofun, fun lawful => absurd misshapen (lawful e member).not_misshapen⟩
  unknown := fun ⟨e, member, foreign⟩ => absurd foreign (free e member)
  parse _ _ := ⟨fault, rfl⟩
  misuse _ shaped := absurd misshapen (shaped e member)

theorem of_shaped (shaped : ∀ e ∈ entries, Shaped e) {outcome : Except CompileError α}
    (decides : (∃ result, outcome = .ok result) ∧ (∀ e ∈ entries, e.Sound) ∨
      (∃ fault, outcome = .error (.semantic fault) ∧ fault.IsMisuse) ∧
        ¬ ∀ e ∈ entries, e.Sound) : Judges outcome entries := by
  have lawful : (∀ e ∈ entries, e.Lawful) ↔ ∀ e ∈ entries, e.Sound :=
    forall₂_congr fun e member => Entry.lawful_iff.trans
      ⟨fun all => all.2.2, fun sound => ⟨(shaped e member).1, (shaped e member).2, sound⟩⟩
  refine ⟨?_, fun ⟨e, member, foreign⟩ => absurd foreign (shaped e member).1,
    fun _ ⟨e, member, misshapen⟩ => absurd misshapen (shaped e member).2, fun _ _ unsound => ?_⟩
  · rw [lawful]
    rcases decides with ⟨done, sound⟩ | ⟨⟨fault, rfl, _⟩, unsound⟩
    · exact iff_of_true done sound
    · exact iff_of_false nofun unsound
  · rw [lawful] at unsound
    rcases decides with ⟨_, sound⟩ | ⟨fails, _⟩
    · exact absurd sound unsound
    · exact fails

theorem of_nil {outcome : Except CompileError α} (done : ∃ result, outcome = .ok result) :
    Judges outcome [] :=
  of_shaped (List.forall_mem_nil _) (Or.inl ⟨done, List.forall_mem_nil _⟩)

end Judges

/-- A source that is not empty, but has no objects in arrays. -/
theorem judges_program (standard : IsStandard g.language) (scopes : StandardScope g)
    {source : String} {lead trail gap : Blanks} {members : Members}
    (checked : checkInput source = .ok .program)
    (same : source.toList = lead.1 ++ ((Written.object gap members).text ++ trail.1))
    (visible : members.isNil = false) (plain : members.plain = true)
    (shallow : members.depth < Json.depthLimit) :
    Judges (compile source g) (members.listed true) := by
  have unknown := find?_unknown (withScope g) (startOf lead) gap members
  have shape := isSome_statements?_iff (linesOf (withScope g)) members plain true true 0
    (advance (startOf lead) ('{' :: gap.1))
  rcases compile_text standard scopes checked same visible plain shallow with
    ⟨form, found, e, fails⟩ | ⟨absent, ⟨undecided, e, fails⟩ | ⟨body, tree, decoded, outcome⟩⟩
  · obtain ⟨bad, member, foreign⟩ := unknown.1 (by rw [found]; rfl)
    rw [fails]
    exact Judges.of_foreign member foreign e
  · have free : ∀ e ∈ members.listed true, ¬ e.Foreign := fun e member foreign => by
      have found := unknown.2 ⟨e, member, foreign⟩
      rw [absent] at found
      cases found
    obtain ⟨bad, member, misshapen⟩ : ∃ e ∈ members.listed true, e.Misshapen :=
      Classical.byContradiction fun shaped => by
        have done := shape.2 fun e member =>
          ⟨free e member, fun misshapen => shaped ⟨e, member, misshapen⟩⟩
        rw [undecided] at done
        cases done
    rw [fails]
    exact Judges.of_misshapen free member misshapen e
  · refine Judges.of_shaped (shape.1 (by rw [decoded]; rfl)) ?_
    rw [← sounds_statements? (linesOf (withScope g)) members decoded true, outcome, meaning]
    rcases runBody_cases body true "" ∅ with ⟨⟨table, done⟩, sound⟩ | ⟨⟨fault, fails, misuse⟩, unsound⟩
    · rw [done]
      exact Or.inl ⟨⟨_, rfl⟩, sound⟩
    · rw [fails]
      exact Or.inr ⟨⟨fault, rfl, misuse⟩, unsound⟩

/-- An accepted text without objects in arrays compiles if and only if all its members are lawful,
and otherwise the error tells which law is broken, so that no other error occurs. -/
theorem compile_judges {l : Language} (built : language = .ok l) (speaks : g.language = l)
    (scopes : StandardScope g) {source : String} {kind : InputKind}
    (checked : checkInput source = .ok kind) :
    ∃ (lead trail gap : Blanks) (members : Members),
      source.toList = lead.1 ++ ((Written.object gap members).text ++ trail.1) ∧
        (members.plain = true → Judges (compile source g) (members.listed true)) := by
  have standard : IsStandard g.language := speaks ▸ isStandard_of_language built
  obtain ⟨lead, trail, gap, members, same, _, shallow, known⟩ := written_of_checkInput checked
  refine ⟨lead, trail, gap, members, same, fun plain => ?_⟩
  cases members with
  | nil =>
    refine Judges.of_nil ⟨none, ?_⟩
    rw [compile, checked, known]
    rfl
  | cons =>
    cases known
    exact judges_program standard scopes checked same rfl plain (Nat.lt_of_succ_lt shallow)

theorem compile_judges_parameter : ∃ l, language = .ok l ∧ (tokenizerOf l).language = l ∧
    StandardScope (tokenizerOf l) ∧
      checkInput "\x7b\"f\":\x7b\"&let\":[\"a\"]\x7d\x7d" = .ok .program ∧
        ∃ (lead trail gap : Blanks) (members : Members),
          "\x7b\"f\":\x7b\"&let\":[\"a\"]\x7d\x7d".toList =
              lead.1 ++ ((Written.object gap members).text ++ trail.1) ∧
            (members.plain = true →
              Judges (compile "\x7b\"f\":\x7b\"&let\":[\"a\"]\x7d\x7d" (tokenizerOf l))
                (members.listed true)) := by
  obtain ⟨l, built⟩ := exists_language
  have checked : checkInput "\x7b\"f\":\x7b\"&let\":[\"a\"]\x7d\x7d" = .ok .program := by
    decide +kernel
  have scopes := standardScope_tokenizerOf l
  exact ⟨l, built, rfl, scopes, checked, compile_judges built rfl scopes checked⟩

section Refusal

variable {source : String} {lead trail gap : Blanks} {members : Members}
  (standard : IsStandard g.language)
  (same : source.toList = lead.1 ++ ((Written.object gap members).text ++ trail.1))

include standard same

/-- A text without objects in arrays is refused for a special form just if some member is foreign. -/
theorem tokenize_eq_unknown_iff (plain : members.plain = true) :
    (∃ form, tokenize source g = .error (.unknownForm form)) ↔
      ∃ e ∈ members.listed true, e.Foreign := by
  rw [← find?_unknown g (startOf lead) gap members, tokenize_text standard same plain,
    Language.checkForms, standard.unknownForm]
  dsimp only
  rw [AttrGrammar.checkForms]
  cases (programOf g (startOf lead) gap members).tokens.find?
    (·.name == Construct.unknownForm.name) with
  | none =>
    refine iff_of_false ?_ Bool.false_ne_true
    rintro ⟨form, refused⟩
    cases refused
  | some token => exact iff_of_true ⟨_, rfl⟩ rfl

/-- A text with an object in an array is not scanned. -/
theorem tokenize_ne_unknown (deep : members.plain = false) (form : UnknownForm) :
    tokenize source g ≠ .error (.unknownForm form) := by
  have inside : (Written.object gap members).plain .member = false := deep
  obtain ⟨e, stops⟩ : ∃ e, g.language.scanner.scan g.annotate source = .error e :=
    standard.scanner.scan_fails same inside
  have refused : tokenize source g = .error (.scan e) := by
    rw [tokenize, Language.scan, stops]
    rfl
  rw [refused]
  intro same
  cases same

end Refusal

/-- An accepted text is refused for a special form if and only if it can be scanned and some member,
outside arrays, has a key or a string for a value that looks like a special form and names none. So
unless such a string is a value, a key is one. -/
theorem unknownForm_of_checkInput {l : Language} (built : language = .ok l) (speaks : g.language = l)
    {source : String} {kind : InputKind} (checked : checkInput source = .ok kind) :
    ∃ (lead trail gap : Blanks) (members : Members),
      source.toList = lead.1 ++ ((Written.object gap members).text ++ trail.1) ∧
        ((∃ form, tokenize source g = .error (.unknownForm form)) ↔
          members.plain = true ∧ ∃ e ∈ members.listed true, e.Foreign) ∧
        ((∀ e ∈ members.listed true, ∀ s, e.value = .string s → s.foreign = false) →
          (∃ form, tokenize source g = .error (.unknownForm form)) →
            ∃ e ∈ members.listed true, e.key.foreign = true) := by
  have standard : IsStandard g.language := speaks ▸ isStandard_of_language built
  obtain ⟨lead, trail, gap, members, same, _⟩ := written_of_checkInput checked
  have extent : (∃ form, tokenize source g = .error (.unknownForm form)) ↔
      members.plain = true ∧ ∃ e ∈ members.listed true, e.Foreign := by
    cases plain : members.plain with
    | true => exact (tokenize_eq_unknown_iff standard same plain).trans (and_iff_right rfl).symm
    | false =>
      refine iff_of_false ?_ fun both => Bool.false_ne_true both.1
      rintro ⟨form, refused⟩
      exact tokenize_ne_unknown standard same plain form refused
  refine ⟨lead, trail, gap, members, same, extent, fun harmless refused => ?_⟩
  obtain ⟨_, e, member, key | ⟨s, is, foreign⟩⟩ := extent.1 refused
  · exact ⟨e, member, key⟩
  · cases foreign.symm.trans (harmless e member s is)

theorem unknownForm_of_checkInput_key : ∃ l, language = .ok l ∧ (tokenizerOf l).language = l ∧
    checkInput "\x7b\"&x\":\"&\"\x7d" = .ok .program ∧
      ∃ (lead trail gap : Blanks) (members : Members),
        "\x7b\"&x\":\"&\"\x7d".toList = lead.1 ++ ((Written.object gap members).text ++ trail.1) ∧
          ((∃ form, tokenize "\x7b\"&x\":\"&\"\x7d" (tokenizerOf l) = .error (.unknownForm form)) ↔
            members.plain = true ∧ ∃ e ∈ members.listed true, e.Foreign) := by
  obtain ⟨l, built⟩ := exists_language
  have checked : checkInput "\x7b\"&x\":\"&\"\x7d" = .ok .program := by decide +kernel
  obtain ⟨lead, trail, gap, members, same, extent, _⟩ :=
    unknownForm_of_checkInput (g := tokenizerOf l) built rfl checked
  exact ⟨l, built, rfl, checked, lead, trail, gap, members, same, extent⟩

/-- A string in the place of a value is refused, though no key is a special form. -/
theorem unknownForm_of_value : ∃ l, language = .ok l ∧
    checkInput "\x7b\"a\":\"&x\"\x7d" = .ok .program ∧
      (∃ form, tokenize "\x7b\"a\":\"&x\"\x7d" (tokenizerOf l) = .error (.unknownForm form)) ∧
        ∃ (lead trail gap : Blanks) (members : Members),
          "\x7b\"a\":\"&x\"\x7d".toList =
              lead.1 ++ ((Written.object gap members).text ++ trail.1) ∧
            ∀ e ∈ members.listed true, isForm e.key.body = false := by
  obtain ⟨l, built⟩ := exists_language
  let gap : Blanks := ⟨[], List.forall_mem_nil _⟩
  let key : Literal := ⟨[.plain 'a'], ['a'], rfl⟩
  let text : Literal := ⟨[.plain '&', .plain 'x'], ['&', 'x'], rfl⟩
  let members : Members := .cons gap key gap gap (.string text) gap .nil
  have same : "\x7b\"a\":\"&x\"\x7d".toList =
      gap.1 ++ ((Written.object gap members).text ++ gap.1) := by
    decide +kernel
  have standard : IsStandard (tokenizerOf l).language := isStandard_of_language built
  have refused := (tokenize_eq_unknown_iff standard same rfl).2
    ⟨⟨true, key, .string text⟩, List.mem_cons_self, Or.inr ⟨text, rfl, by decide⟩⟩
  refine ⟨l, built, by decide +kernel, refused, gap, gap, gap, members, same, ?_⟩
  decide

end Procedure

end AttrGrammar
