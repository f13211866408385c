import AttrGrammar.Procedure.Environment
import AttrGrammar.Proofs.Attribution.Combining
import AttrGrammar.Proofs.Procedure.Folding
import AttrGrammar.Proofs.Procedure.Scanning

/-!
Documents: the texts that can pass the check of the input, and the tokens they come to.

A document is an object as it is written, with blanks around it. If no array in it holds an object,
scanning and folding make one token of each of its pieces; otherwise the scanner stops.
-/

namespace AttrGrammar.Procedure

open Scanner (advance)
open Json (Blanks Written Items Members Glyph Literal Numeral comma)

/-- A maker whose tokens have the names and the texts that they are made of. -/
structure Makes (make : Maker) : Prop where
  name : ∀ depth place n text, (make depth place n text).name = n
  lexeme : ∀ depth place n text, (make depth place n text).lexeme = String.ofList text

theorem makes_emit (g : Attribution) : Makes (emit g.annotate) where
  name _ _ _ _ := (g.annotate_text _ _).1
  lexeme _ _ _ _ := (g.annotate_text _ _).2

theorem joins_combine (g : Attribution) : Joins g.combine where
  name _ _ := rfl
  join _ _ _ _ _ := Attribution.combine_combine

/-- Where values of members and items of arrays stand. -/
def Region.Stands : Region → Option Group → Prop
  | .member, around => around = none
  | .item, around => around = some .array ∨ around = some .itemArray

/-- A token that is no brace is clear of what follows. -/
theorem clear_token {t : Token} (other : t.name ≠ "lbrace") (rest : List Piece) :
    Piece.Clear (.token t) rest := by
  cases rest with
  | nil => trivial
  | cons p rest =>
    cases p with
    | token u => exact fun both => other both.1
    | group k opening inside closing => trivial

variable {make : Maker} {around : Option Group} {r : Region} {rest : List Piece}

theorem fit_token (makes : Makes make) {n : String} (listed : n ∈ tokensIn around)
    (other : n ≠ "lbrace") (depth : Nat) (place : Nat × Nat) (text : List Char)
    (fit : Fit around rest) : Fit around (.token (make depth place n text) :: rest) := by
  refine ⟨?_, clear_token ?_ rest, fit⟩
  · rw [Piece.Fits, makes.name]
    exact listed
  · rw [makes.name]
    exact other

theorem fit_contents (makes : Makes make) (stands : Region.Stands r around) (depth : Nat) :
    ∀ (glyphs : List Glyph) (place : Nat × Nat),
      Fit (some r.string) ((contents make depth place glyphs).map .token)
  | [], place => by
    rw [contents]
    trivial
  | g :: glyphs, place => by
    rw [contents]
    split
    · exact fit_token makes (by cases r <;> decide) (by decide) _ _ _
        (fit_contents makes stands depth _ _)
    · exact fit_token makes (by cases r <;> decide) (by decide) _ _ _
        (fit_contents makes stands depth _ _)
termination_by glyphs => glyphs.length
decreasing_by
  · exact Nat.lt_succ_self _
  · exact Nat.lt_succ_of_le (List.dropWhile_sublist _).length_le

theorem fit_string (makes : Makes make) (stands : Region.Stands r around) (depth : Nat)
    (place : Nat × Nat) (l : Literal) (fit : Fit around rest) :
    Fit around (stringPiece make r depth place l :: rest) := by
  unfold stringPiece
  split
  · next form =>
    obtain ⟨rfl, _⟩ := form
    subst stands
    unfold formTerminal
    split
    · exact fit_token makes (by decide) (by decide) _ _ _ fit
    · split
      · exact fit_token makes (by decide) (by decide) _ _ _ fit
      · split
        · exact fit_token makes (by decide) (by decide) _ _ _ fit
        · exact fit_token makes (by decide) (by decide) _ _ _ fit
  · have among : r.string ∈ groupsIn around := by
      cases r with
      | member =>
        subst stands
        decide
      | item => rcases stands with rfl | rfl <;> decide
    have inside := fit_contents makes stands depth l.glyphs (advance place ['"'])
    exact ⟨⟨among, makes.name _ _ _ _, makes.name _ _ _ _, inside⟩, trivial, fit⟩

theorem fit_divider (makes : Makes make) (stands : Region.Stands r around) (first : Bool)
    (depth : Nat) (place : Nat × Nat) (fit : Fit around rest) :
    Fit around (divider make r first depth place ++ rest) := by
  cases first with
  | true => exact fit
  | false =>
    refine fit_token makes ?_ (by cases r <;> decide) _ _ _ fit
    cases r with
    | member =>
      subst stands
      decide
    | item => rcases stands with rfl | rfl <;> decide

mutual

/-- The pieces of a value fit where it stands. -/
theorem fit_value (makes : Makes make) : ∀ (w : Written) {r : Region} {around : Option Group}
    {rest : List Piece} (depth : Nat) (place : Nat × Nat), w.plain r = true →
      Region.Stands r around → Fit around rest →
        Fit around (w.pieces make r depth place ++ rest)
  | .null, r, around, rest, depth, place, _, stands, fit => by
    refine fit_token makes ?_ (by cases r <;> decide) _ _ _ fit
    cases r with
    | member => subst stands; decide
    | item => rcases stands with rfl | rfl <;> decide
  | .bool b, r, around, rest, depth, place, _, stands, fit => by
    refine fit_token makes ?_ (by cases r <;> decide) _ _ _ fit
    cases r with
    | member => subst stands; decide
    | item => rcases stands with rfl | rfl <;> decide
  | .number n, r, around, rest, depth, place, _, stands, fit => by
    refine fit_token makes ?_ (by cases r <;> decide) _ _ _ fit
    cases r with
    | member => subst stands; decide
    | item => rcases stands with rfl | rfl <;> decide
  | .string l, r, around, rest, depth, place, _, stands, fit =>
    fit_string makes stands depth place l fit
  | .array gap items, r, around, rest, depth, place, plain, stands, fit => by
    have among : r.array ∈ groupsIn around := by
      cases r with
      | member => subst stands; decide
      | item => rcases stands with rfl | rfl <;> decide
    have inside := fit_items makes items (r := r) true (depth + 1) (advance place ('[' :: gap.1)) plain
    exact ⟨⟨among, makes.name _ _ _ _, makes.name _ _ _ _, inside⟩, trivial, fit⟩
  | .object gap members, r, around, rest, depth, place, plain, stands, fit => by
    simp only [Written.plain, Bool.and_eq_true, beq_iff_eq] at plain
    obtain ⟨rfl, plain⟩ := plain
    subst stands
    have inside := fit_members makes members true depth (advance place ('{' :: gap.1)) plain fit
    cases members with
    | nil =>
      exact ⟨⟨by decide, makes.name _ _ _ _, makes.name _ _ _ _, trivial⟩, trivial, fit⟩
    | cons lead key before after value trail others =>
      refine ⟨?_, ?_, inside⟩
      · rw [Piece.Fits, makes.name]
        decide
      · change Piece.Clear _ (stringPiece make .member _ _ key :: _)
        unfold stringPiece
        split
        · intro both
          rw [makes.name, makes.name] at both
          have other : formTerminal key.body ≠ "rbrace" := by
            unfold formTerminal
            split <;> (try split) <;> (try split) <;> decide
          exact other both.2
        · trivial

theorem fit_items (makes : Makes make) : ∀ (items : Items) {r : Region} (first : Bool) (depth : Nat)
    (place : Nat × Nat), items.plain = true →
      Fit (some r.array) (items.pieces make first depth place)
  | .nil, _, _, _, _, _ => trivial
  | .cons lead item trail others, r, first, depth, place, plain => by
    simp only [Items.plain, Bool.and_eq_true] at plain
    have stands : Region.Stands .item (some r.array) := by
      cases r with
      | member => exact Or.inl rfl
      | item => exact Or.inr rfl
    exact fit_divider makes stands first depth place (fit_value makes item depth _ plain.1 stands
      (fit_items makes others false depth _ plain.2))

theorem fit_members (makes : Makes make) : ∀ (members : Members) {rest : List Piece} (first : Bool)
    (depth : Nat) (place : Nat × Nat), members.plain = true → Fit none rest →
      Fit none (members.pieces make first depth place ++ rest)
  | .nil, rest, first, depth, place, _, fit => fit_token makes (by decide) (by decide) _ _ _ fit
  | .cons lead key before after value trail others, rest, first, depth, place, plain, fit => by
    simp only [Members.plain, Bool.and_eq_true] at plain
    have stands : Region.Stands .member none := rfl
    rw [Members.pieces]
    simp only [List.append_assoc, List.cons_append]
    refine fit_divider makes stands first (depth + 1) place ?_
    refine fit_string makes stands (depth + 1) _ key ?_
    refine fit_token makes (by decide) (by decide) (depth + 1) _ [':'] ?_
    exact fit_value makes value (depth + 1) _ plain.1 stands
      (fit_members makes others false depth _ plain.2 fit)

end

end AttrGrammar.Procedure
