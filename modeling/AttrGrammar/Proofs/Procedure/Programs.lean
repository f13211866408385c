import AttrGrammar.Proofs.Procedure.Lexemes
import AttrGrammar.Proofs.Procedure.Outline

/-!
From the members of a text to a program.

Folding leaves for each member the token of its key, a colon, and its value: one token, or members in
braces. So the tokens of an object are those of a program.
-/

namespace AttrGrammar

open Scanner (advance advance_append)
open Procedure (emit keyToken valueToken)

namespace Json

/-- Where the parts of a member begin, and where the member ends. -/
structure Spots where
  key : Nat × Nat
  colon : Nat × Nat
  value : Nat × Nat
  last : Nat × Nat

/-- The parts of a member, from the place where the blanks before its key begin. -/
def spots (place : Nat × Nat) (lead : Blanks) (key : Literal) (before after : Blanks)
    (value : Written) (trail : Blanks) : Spots :=
  let start := advance place lead.1
  let middle := advance start (key.text ++ before.1)
  let last := advance middle (':' :: after.1)
  { key := start, colon := middle, value := last, last := advance last (value.text ++ trail.1) }

variable (g : Attribution)

/-- The closing brace of an object at a depth, from a place before its members. -/
def Members.closing (first : Bool) (depth : Nat) (place : Nat × Nat) : Members → Token
  | .nil => emit g.annotate depth place "rbrace" ['}']
  | .cons lead key before after value trail others =>
    others.closing false depth
      (spots (advance place (comma first)) lead key before after value trail).last

mutual

/-- The member that a value at a depth makes with the tokens before it. -/
def Written.member (depth : Nat) (place : Nat × Nat) (head colon : Token) :
    Written → Procedure.Member
  | .object gap (.cons lead key before after value trail others) =>
    let here := spots (advance place ('{' :: gap.1)) lead key before after value trail
    .nested head colon (emit g.annotate depth place "lbrace" ['{'])
      (value.member (depth + 1) here.value (keyToken g (depth + 1) here.key key)
        (emit g.annotate (depth + 1) here.colon "colon" [':']))
      (others.tail depth here.last) (others.closing g false depth here.last)
  | .object gap .nil => .plain head colon (valueToken g depth place (.object gap .nil))
  | .array gap items => .plain head colon (valueToken g depth place (.array gap items))
  | .string l => .plain head colon (valueToken g depth place (.string l))
  | .number n => .plain head colon (valueToken g depth place (.number n))
  | .bool b => .plain head colon (valueToken g depth place (.bool b))
  | .null => .plain head colon (valueToken g depth place .null)

/-- The members after the first of an object at a depth. -/
def Members.tail (depth : Nat) (place : Nat × Nat) : Members → Procedure.MemberTail
  | .nil => .nil
  | .cons lead key before after value trail others =>
    let here := spots (advance place [',']) lead key before after value trail
    .cons (emit g.annotate (depth + 1) place "member_divider" [','])
      (value.member (depth + 1) here.value (keyToken g (depth + 1) here.key key)
        (emit g.annotate (depth + 1) here.colon "colon" [':']))
      (others.tail depth here.last)

end

theorem Written.member_plain {w : Written} (single : w.isBraced = false) (depth : Nat)
    (place : Nat × Nat) (head colon : Token) :
    w.member g depth place head colon = .plain head colon (valueToken g depth place w) := by
  cases w with
  | object gap members =>
    cases members with
    | nil => rfl
    | cons => cases single
  | _ => rfl

end Json

namespace Procedure

open Json (Blanks Written Items Members Glyph Literal comma spots)

variable (g : Attribution)

/-- The program of an object that begins at a place. -/
def programOf (place : Nat × Nat) (gap : Blanks) : Members → Program
  | .nil => .empty (valueToken g 0 place (.object gap .nil))
  | .cons lead key before after value trail others =>
    let here := spots (advance place ('{' :: gap.1)) lead key before after value trail
    .members (emit g.annotate 0 place "lbrace" ['{'])
      (value.member g 1 here.value (keyToken g 1 here.key key)
        (emit g.annotate 1 here.colon "colon" [':']))
      (others.tail g 0 here.last) (others.closing g false 0 here.last)

/-- The tokens of a member but its divider, and of what comes after it. -/
theorem pieces_member (first : Bool) (depth : Nat) (place : Nat × Nat) (lead : Blanks)
    (key : Literal) (before after : Blanks) (value : Written) (trail : Blanks) (others : Members) :
    (Members.cons lead key before after value trail others).pieces (emit g.annotate) first depth
        place =
      let here := spots (advance place (comma first)) lead key before after value trail
      divider (emit g.annotate) .member first (depth + 1) place ++
        (stringPiece (emit g.annotate) .member (depth + 1) here.key key ::
          .token (emit g.annotate (depth + 1) here.colon "colon" [':']) ::
          (value.pieces (emit g.annotate) .member (depth + 1) here.value ++
            others.pieces (emit g.annotate) false depth here.last)) := by
  simp only [Members.pieces, spots, advance_append]

theorem tokens_plain {w : Written} (single : w.isBraced = false) (depth : Nat) (place : Nat × Nat)
    (head colon : Token) : (w.member g depth place head colon).tokens =
      head :: colon ::
        (w.pieces (emit g.annotate) .member depth place).map (Piece.folded g.combine) := by
  rw [w.member_plain g single, map_folded_pieces g depth place single]
  rfl

mutual

/-- A value and the tokens before it are the tokens of its member. -/
theorem tokens_member : ∀ (w : Written) (depth : Nat) (place : Nat × Nat) (head colon : Token),
    (w.member g depth place head colon).tokens =
      head :: colon ::
        (w.pieces (emit g.annotate) .member depth place).map (Piece.folded g.combine)
  | .object gap (.cons lead key before after value trail others), depth, place, head, colon => by
    rw [Written.member, Member.tokens, tokens_member value, tokens_tail others, Written.pieces,
      Members.isNil, if_neg Bool.false_ne_true, pieces_member]
    simp only [comma, divider, if_true, List.nil_append, List.map_cons, List.map_append]
    rfl
  | .object gap .nil, depth, place, head, colon => tokens_plain g rfl depth place head colon
  | .array gap items, depth, place, head, colon => tokens_plain g rfl depth place head colon
  | .string l, depth, place, head, colon => tokens_plain g rfl depth place head colon
  | .number n, depth, place, head, colon => tokens_plain g rfl depth place head colon
  | .bool b, depth, place, head, colon => tokens_plain g rfl depth place head colon
  | .null, depth, place, head, colon => tokens_plain g rfl depth place head colon

/-- Members after the first are the tokens of a tail, and the closing brace comes last. -/
theorem tokens_tail : ∀ (members : Members) (depth : Nat) (place : Nat × Nat),
    (members.tail g depth place).tokens ++ [members.closing g false depth place] =
      (members.pieces (emit g.annotate) false depth place).map (Piece.folded g.combine)
  | .nil, depth, place => rfl
  | .cons lead key before after value trail others, depth, place => by
    rw [Members.tail, MemberTail.tokens, Members.closing, List.cons_append, List.append_assoc]
    rw [tokens_member value]
    have later := tokens_tail others depth
      (spots (advance place (comma false)) lead key before after value trail).last
    change _ :: (_ ++ ((others.tail g depth (spots (advance place (comma false)) lead key before
      after value trail).last).tokens ++ _)) = _
    rw [later, pieces_member]
    simp only [comma, divider, Bool.false_eq_true, if_false, List.cons_append, List.nil_append,
      List.map_cons, List.map_append]
    rfl

end

/-- Folding leaves the tokens of a program. -/
theorem tokens_programOf (place : Nat × Nat) (gap : Blanks) (members : Members) :
    (programOf g place gap members).tokens =
      ((Written.object gap members).pieces (emit g.annotate) .member 0 place).map
        (Piece.folded g.combine) := by
  cases members with
  | nil => rfl
  | cons lead key before after value trail others =>
    rw [programOf, Program.tokens]
    have inside := tokens_member g (.object gap (.cons lead key before after value trail others))
      0 place default default
    rw [Written.member, Member.tokens] at inside
    simpa using inside

/-- What the tokens of keys and values are called. -/
def partNames : List String := [
  "let_form", "ref_form", "doc_form", "unknown_form", "string", "empty_string", "null", "boolean",
  "number", "array", "empty_array", "empty_object"]

theorem literal_mem_partNames (l : Literal) : l.terminal ∈ partNames := by
  unfold Literal.terminal formTerminal
  split
  · split
    · decide
    · split
      · decide
      · split <;> decide
  · split <;> decide

theorem value_mem_partNames {w : Written} (single : w.isBraced = false) :
    w.terminal ∈ partNames := by
  cases w with
  | null => decide
  | bool b => exact (by decide : "boolean" ∈ partNames)
  | number n => exact (by decide : "number" ∈ partNames)
  | string l => exact literal_mem_partNames l
  | array gap items =>
    rw [Written.terminal]
    split <;> decide
  | object gap members =>
    cases members with
    | nil => exact (by decide : "empty_object" ∈ partNames)
    | cons => cases single

theorem isPunctuation_part : ∀ name ∈ partNames, isPunctuation name = false := by decide

theorem framed_plain {w : Written} (single : w.isBraced = false) {depth : Nat} {place : Nat × Nat}
    {head colon : Token} (plain : isPunctuation head.name = false) (named : colon.name = "colon") :
    (w.member g depth place head colon).Framed := by
  rw [w.member_plain g single]
  refine ⟨plain, named, ?_⟩
  rw [valueToken_name]
  exact isPunctuation_part _ (value_mem_partNames single)

theorem isPunctuation_key (depth : Nat) (place : Nat × Nat) (l : Literal) :
    isPunctuation (keyToken g depth place l).name = false := by
  rw [keyToken_name]
  exact isPunctuation_part _ (literal_mem_partNames l)

theorem closing_name (members : Members) (first : Bool) (depth : Nat) (place : Nat × Nat) :
    (members.closing g first depth place).name = "rbrace" := by
  cases members with
  | nil => exact (makes_emit g).name _ _ _ _
  | cons lead key before after value trail others => exact closing_name others false depth _

mutual

theorem framed_member : ∀ (w : Written) {depth : Nat} {place : Nat × Nat} {head colon : Token},
    isPunctuation head.name = false → colon.name = "colon" →
      (w.member g depth place head colon).Framed
  | .object gap (.cons lead key before after value trail others), _, _, _, _, plain, named => by
    have makes := makes_emit g
    exact ⟨plain, named, makes.name _ _ _ _,
      framed_member value (isPunctuation_key g _ _ key) (makes.name _ _ _ _),
      framed_tail others _ _, closing_name g others _ _ _⟩
  | .object gap .nil, _, _, _, _, plain, named => framed_plain g rfl plain named
  | .array gap items, _, _, _, _, plain, named => framed_plain g rfl plain named
  | .string l, _, _, _, _, plain, named => framed_plain g rfl plain named
  | .number n, _, _, _, _, plain, named => framed_plain g rfl plain named
  | .bool b, _, _, _, _, plain, named => framed_plain g rfl plain named
  | .null, _, _, _, _, plain, named => framed_plain g rfl plain named

theorem framed_tail : ∀ (members : Members) (depth : Nat) (place : Nat × Nat),
    (members.tail g depth place).Framed
  | .nil, _, _ => trivial
  | .cons lead key before after value trail others, _, _ => by
    have makes := makes_emit g
    exact ⟨makes.name _ _ _ _,
      framed_member value (isPunctuation_key g _ _ key) (makes.name _ _ _ _),
      framed_tail others _ _⟩

end

theorem framed_programOf (place : Nat × Nat) (gap : Blanks) (members : Members) :
    (programOf g place gap members).Framed := by
  have makes := makes_emit g
  cases members with
  | nil =>
    change isPunctuation (valueToken g 0 place (.object gap .nil)).name = false
    rw [valueToken_name]
    exact isPunctuation_part _ (value_mem_partNames rfl)
  | cons lead key before after value trail others =>
    exact ⟨makes.name _ _ _ _,
      framed_member g value (isPunctuation_key g _ _ key) (makes.name _ _ _ _),
      framed_tail g others _ _, closing_name g others _ _ _⟩

end Procedure

end AttrGrammar
