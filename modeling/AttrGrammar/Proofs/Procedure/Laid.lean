import AttrGrammar.Layout
import AttrGrammar.Proofs.Procedure.Lexemes

/-!
Texts in canonical layout.

Each member stands on a line of its own, with one blank behind the colon, and arrays have one blank
after each comma. Laying a text out moves blanks only: two texts that are the same without their
blanks have the same layout, the same tokens and the same statements.
-/

namespace AttrGrammar

open Json (Blanks noBlanks)

theorem Layout.isBlank_indent (l : Layout) (depth : Nat) :
    ∀ c ∈ (l.indent depth).toList, Json.isBlank c = true := by
  rw [indent, String.pushn]
  induction l.indentWidth * depth with
  | zero => exact List.forall_mem_nil _
  | succ n ih =>
    intro c member
    rw [Nat.repeat, String.toList_push, List.mem_append, List.mem_singleton] at member
    rcases member with before | rfl
    · exact ih c before
    · rfl

/-- A line break and the blanks before a line at a depth. -/
def Layout.line (l : Layout) (depth : Nat) : Blanks :=
  ⟨'\n' :: (l.indent depth).toList, List.forall_mem_cons.2 ⟨rfl, l.isBlank_indent depth⟩⟩

/-- What stands after the end of a text. -/
def Layout.finish (l : Layout) : Blanks :=
  ⟨if l.trailingNewline then ['\n'] else [], by split <;> simp [Json.isBlank]⟩

namespace Json

def oneBlank : Blanks := ⟨[' '], List.forall_mem_singleton.2 rfl⟩

mutual

/-- A value at a depth, laid out. -/
def Written.laid (l : Layout) (depth : Nat) : Written → Written
  | .null => .null
  | .bool b => .bool b
  | .number n => .number n
  | .string l => .string l
  | .array _ items => .array noBlanks (items.spaced oneBlank true)
  | .object _ members => .object noBlanks (members.laid l depth)

/-- The members of an object at a depth, laid out. -/
def Members.laid (l : Layout) (depth : Nat) : Members → Members
  | .nil => .nil
  | .cons _ key _ _ value _ others =>
    .cons (l.line (depth + 1)) key noBlanks oneBlank (value.laid l (depth + 1))
      (if others.isNil then l.line depth else noBlanks) (others.laid l depth)

end

theorem Members.isNil_tight (members : Members) : members.tight.isNil = members.isNil := by
  cases members <;> rfl

theorem Items.isNil_tight (items : Items) : items.tight.isNil = items.isNil := by
  cases items <;> rfl

mutual

/-- Laying a text out leaves everything but its blanks. -/
theorem Written.tight_laid (l : Layout) (depth : Nat) : ∀ w : Written,
    (w.laid l depth).tight = w.tight
  | .null | .bool _ | .number _ | .string _ => rfl
  | .array _ items => congrArg (Written.array noBlanks) (items.tight_spaced oneBlank true)
  | .object _ members => congrArg (Written.object noBlanks) (members.tight_laid l depth)

theorem Members.tight_laid (l : Layout) (depth : Nat) : ∀ members : Members,
    (members.laid l depth).tight = members.tight
  | .nil => rfl
  | .cons _ _ _ _ value _ others => by
    rw [Members.laid, Members.tight, Members.tight, value.tight_laid, others.tight_laid]

end

mutual

/-- The layout of a text does not depend on its blanks. -/
theorem Written.laid_tight (l : Layout) (depth : Nat) : ∀ w : Written,
    w.tight.laid l depth = w.laid l depth
  | .null | .bool _ | .number _ | .string _ => rfl
  | .array _ items => congrArg (Written.array noBlanks) (items.spaced_tight oneBlank true)
  | .object _ members => congrArg (Written.object noBlanks) (members.laid_tight l depth)

theorem Members.laid_tight (l : Layout) (depth : Nat) : ∀ members : Members,
    members.tight.laid l depth = members.laid l depth
  | .nil => rfl
  | .cons _ _ _ _ value _ others => by
    rw [Members.tight, Members.laid, Members.laid, value.laid_tight, others.laid_tight,
      others.isNil_tight]

end

mutual

theorem Written.plain_tight : ∀ (w : Written) (r : Procedure.Region), w.tight.plain r = w.plain r
  | .null, _ | .bool _, _ | .number _, _ | .string _, _ => rfl
  | .array _ items, _ => items.plain_tight
  | .object _ members, r => congrArg (r == .member && ·) members.plain_tight

theorem Items.plain_tight : ∀ items : Items, items.tight.plain = items.plain
  | .nil => rfl
  | .cons _ item _ others => by
    rw [Items.tight, Items.plain, Items.plain, item.plain_tight, others.plain_tight]

theorem Members.plain_tight : ∀ members : Members, members.tight.plain = members.plain
  | .nil => rfl
  | .cons _ _ _ _ value _ others => by
    rw [Members.tight, Members.plain, Members.plain, value.plain_tight, others.plain_tight]

end

/-- What is the same for texts without blanks is the same for a text laid out. -/
theorem Members.laid_congr {α : Type} {f : Members → α} (same : ∀ members, f members.tight = f members)
    (l : Layout) (depth : Nat) (members : Members) : f (members.laid l depth) = f members := by
  rw [← same, members.tight_laid, same]

end Json

end AttrGrammar
