import AttrGrammar.Attribution
import AttrGrammar.Proofs.Folding.Names

/-!
Tokens of an attribution: hooks leave names and lexemes alone, and folding in steps comes to the
same as folding at once.
-/

namespace AttrGrammar.Attribution

variable {g : Attribution}

theorem annotate_text (g : Attribution) (token : Token) (context : ScanContext) :
    (g.annotate token context).name = token.name ∧
      (g.annotate token context).lexeme = token.lexeme := by
  unfold annotate
  induction g.decls generalizing token with
  | nil => exact ⟨rfl, rfl⟩
  | cons decl decls ih =>
    rw [List.foldl_cons]
    split
    · exact ih _
    · exact ih token

theorem joins_combine (g : Attribution) : Fold.Joins g.combine := fun _ _ => rfl

variable {a : Attr} {n m : String} {xs ys zs : List Token}

/-- Whether a token has a synthesized value for an attribute. -/
def has (a : Attr) (t : Token) : Bool := (t.attrs.synthesized.get? a).isSome

theorem get?_combine : (g.combine n ys).attrs.synthesized.get? a = g.foldedValue? ys a := by
  cases a <;> rfl

theorem keptValue?_isSome (any : ys.any (has a) = true) {policy : FoldPolicy}
    (kept : policy ≠ .drop) : (keptValue? policy a ys).isSome = true := by
  cases policy with
  | first => simpa [keptValue?, has, List.any_eq_true] using any
  | concat => rfl
  | drop => exact absurd rfl kept

/-- A folded token has a value if a part has one, unless values are dropped. -/
theorem has_combine (kept : g.foldPolicy a ≠ .drop) :
    has a (g.combine n ys) = ys.any (has a) := by
  rw [has, get?_combine, foldedValue?]
  cases any : ys.any (has a) with
  | false => exact congrArg Option.isSome (if_neg (by simpa [has] using any))
  | true =>
    rw [if_pos (by simpa [has] using any)]
    exact keptValue?_isSome any kept

/-- Joined values are those of the parts. -/
theorem valueText_combine (policy : g.foldPolicy a = .concat) :
    valueText a (g.combine n ys) = String.join (ys.map (valueText a)) := by
  rw [valueText, get?_combine, foldedValue?, policy]
  cases any : ys.any (has a) with
  | true =>
    rw [if_pos (by simpa [has] using any)]
    rfl
  | false =>
    rw [if_neg (by simpa [has] using any)]
    have lexemes : ys.map (valueText a) = ys.map (·.lexeme) := by
      refine List.map_congr_left fun t member => ?_
      have absent : t.attrs.synthesized.get? a = none := by
        have nothing := List.any_eq_false.1 any t member
        simpa [has] using nothing
      rw [valueText, absent]
    rw [lexemes]
    rfl

theorem findSome?_combine (policy : g.foldPolicy a = .first) :
    (g.combine n ys).attrs.synthesized.get? a =
      ys.findSome? fun t => t.attrs.synthesized.get? a := by
  rw [get?_combine, foldedValue?, policy]
  split
  · rfl
  · next absent =>
    have nothing : ∀ t ∈ ys, t.attrs.synthesized.get? a = .none := by
      simpa using absent
    exact (List.findSome?_eq_none_iff.2 nothing).symm

/-- A value is the same whether some parts were folded before or not. -/
theorem foldedValue?_combine :
    g.foldedValue? (xs ++ g.combine m ys :: zs) a = g.foldedValue? (xs ++ (ys ++ zs)) a := by
  by_cases dropped : g.foldPolicy a = .drop
  · rw [foldedValue?, foldedValue?, dropped]
    split <;> split <;> rfl
  have any : (xs ++ g.combine m ys :: zs).any (has a) = (xs ++ (ys ++ zs)).any (has a) := by
    simp [has_combine dropped]
  have kept : keptValue? (g.foldPolicy a) a (xs ++ g.combine m ys :: zs) =
      keptValue? (g.foldPolicy a) a (xs ++ (ys ++ zs)) := by
    cases policy : g.foldPolicy a with
    | first =>
      simp only [keptValue?, List.findSome?_append, List.findSome?_cons, findSome?_combine policy]
      cases ys.findSome? fun t => t.attrs.synthesized.get? a <;> simp
    | concat =>
      simp only [keptValue?, List.map_append, List.map_cons, String.join_append, String.join_cons,
        valueText_combine policy]
    | drop => exact absurd policy dropped
  change (if (xs ++ g.combine m ys :: zs).any (has a) then _ else _) =
    if (xs ++ (ys ++ zs)).any (has a) then _ else _
  rw [any, kept]

theorem combine_combine :
    g.combine n (xs ++ g.combine m ys :: zs) = g.combine n (xs ++ (ys ++ zs)) := by
  have lexeme : Token.joinLexemes (xs ++ g.combine m ys :: zs) =
      Token.joinLexemes (xs ++ (ys ++ zs)) := by
    have joined : (g.combine m ys).lexeme = String.join (ys.map (·.lexeme)) := rfl
    simp only [Token.joinLexemes, List.map_append, List.map_cons, String.join_append,
      String.join_cons, joined]
  rw [combine, lexeme, foldedValue?_combine, foldedValue?_combine, foldedValue?_combine,
    foldedValue?_combine]
  rfl

end AttrGrammar.Attribution
