import AttrGrammar.Proofs.Folding
import AttrGrammar.Proofs.Procedure.Pieces

/-!
Folding strings.

Both quotes of a string are the same terminal, so strings that stand side by side are told apart only
by going through them in order: what lies between the quotes is joined first, then strings with
something inside are folded, and the quotes that are left over then come in pairs. The folds of a
round are in this order, so its first folds make one token of each string, and leave no quote.
-/

namespace AttrGrammar.Procedure

/-- A combiner that does not tell tokens from what they were combined of. -/
structure Joins (combine : Combiner) : Prop where
  name : ∀ n parts, (combine n parts).name = n
  join : ∀ n m xs ys zs, combine n (xs ++ combine m ys :: zs) = combine n (xs ++ (ys ++ zs))

namespace Group

/-- What a run of tokens inside a group is folded into. -/
def content? : Group → Option String
  | string | itemString => some "string_content"
  | array | itemArray => some "array_items"
  | object => none

/-- The tokens that are folded together inside a group. -/
def items : Group → List String
  | string | itemString => ["chars", "escape"]
  | array | itemArray => arrayItems
  | object => []

/-- Whether a group is a string. -/
def isQuoted : Group → Bool
  | string | itemString => true
  | array | itemArray | object => false

end Group

/-- The tokens that stand by themselves inside a group, or outside all of them. -/
def tokensIn : Option Group → List String
  | none => ["lbrace", "rbrace", "colon", "member_divider", "number", "boolean", "null", "let_form",
    "ref_form", "doc_form", "unknown_form"]
  | some .string | some .itemString => ["chars", "escape"]
  | some .array | some .itemArray => ["item_number", "item_boolean", "item_null", "item_divider"]
  | some .object => []

def groupsIn : Option Group → List Group
  | none => [.string, .array, .object]
  | some .array | some .itemArray => [.itemString, .itemArray]
  | _ => []

/-- Two braces do not stand side by side. -/
def Piece.Clear : Piece → List Piece → Prop
  | .token t, .token u :: _ => ¬ (t.name = "lbrace" ∧ u.name = "rbrace")
  | _, _ => True

mutual

/-- A piece is named as the place where it stands allows. -/
def Piece.Fits (around : Option Group) : Piece → Prop
  | .token t => t.name ∈ tokensIn around
  | .group k opening inside closing =>
    k ∈ groupsIn around ∧ opening.name = k.opening ∧ closing.name = k.closing ∧
      Fit (some k) inside

def Fit (around : Option Group) : List Piece → Prop
  | [] => True
  | p :: rest => p.Fits around ∧ p.Clear rest ∧ Fit around rest

end

theorem Fit.drop {around : Option Group} {qs ps : List Piece} (fit : Fit around (qs ++ ps)) :
    Fit around ps := by
  induction qs with
  | nil => exact fit
  | cons q qs ih => exact ih fit.2.2

variable {combine : Combiner} {around : Option Group}

theorem folded_name (joins : Joins combine) (k : Group) (opening : Token) (inside : List Piece)
    (closing : Token) :
    ((Piece.group k opening inside closing).folded combine).name =
      if inside.isEmpty then k.empty else k.full := joins.name _ _

/-- A string holds tokens only, which are characters and escapes. -/
theorem glyphs_of_fit {k : Group} (quoted : k.isQuoted = true) {inside : List Piece}
    (fit : Fit (some k) inside) : ∀ t ∈ rawAll inside, t.name ∈ ["chars", "escape"] := by
  have plain : tokensIn (some k) = ["chars", "escape"] ∧ groupsIn (some k) = [] := by
    cases k <;> first | exact ⟨rfl, rfl⟩ | cases quoted
  induction inside with
  | nil => exact List.forall_mem_nil _
  | cons p inside ih =>
    obtain ⟨here, _, later⟩ := fit
    cases p with
    | token t =>
      rw [rawAll, Piece.raw, List.singleton_append]
      exact List.forall_mem_cons.2 ⟨plain.1 ▸ here, ih later⟩
    | group k' opening inside' closing =>
      have among := here.1
      rw [plain.2] at among
      cases among

theorem rawAll_eq_nil {ps : List Piece} : rawAll ps = [] ↔ ps = [] := by
  cases ps with
  | nil => simp [rawAll]
  | cons p ps => cases p <;> simp [rawAll, Piece.raw]

/-- What the tokens inside a string are joined into. -/
def joined (combine : Combiner) (inside : List Token) : List Token :=
  if inside = [] then [] else [combine "string_content" inside]

mutual

/-- The tokens of a piece where the insides of strings are joined. Which strings are one token
already depends on their kind and on whether they are empty. -/
def Piece.midway (combine : Combiner) (shut : Group → Bool → Bool) : Piece → List Token
  | .token t => [t]
  | .group k opening inside closing =>
    if k.isQuoted then
      if shut k inside.isEmpty then [(Piece.group k opening inside closing).folded combine]
      else opening :: (joined combine (rawAll inside) ++ [closing])
    else opening :: (midwayAll combine shut inside ++ [closing])

def midwayAll (combine : Combiner) (shut : Group → Bool → Bool) : List Piece → List Token
  | [] => []
  | p :: rest => p.midway combine shut ++ midwayAll combine shut rest

end

/-- The place is not inside a string. -/
def Unquoted (around : Option Group) : Prop := ∀ k, around = some k → k.isQuoted = false

theorem Unquoted.none : Unquoted none := nofun

theorem Unquoted.some {k : Group} (bracketed : k.isQuoted = false) : Unquoted (some k) := by
  rintro _ ⟨⟩
  exact bracketed

def quoteNames : List String := ["quote", "item_quote"]

def glyphNames : List String := ["chars", "escape", "string_content"]

/-- Tokens outside strings do not have the names that strings are made of. -/
def Outside (n : String) : Prop := n ∉ quoteNames ∧ n ∉ glyphNames

instance (n : String) : Decidable (Outside n) := inferInstanceAs (Decidable (_ ∧ _))

theorem outside_token (unquoted : Unquoted around) {n : String} (listed : n ∈ tokensIn around) :
    Outside n := by
  revert n
  cases around with
  | none => decide
  | some k => cases k <;> first | decide | cases unquoted _ rfl

theorem outside_bracket {k : Group} (bracketed : k.isQuoted = false) :
    Outside k.opening ∧ Outside k.closing := by
  cases k <;> first | decide | cases bracketed

theorem outside_folded (joins : Joins combine) (k : Group) (opening : Token) (inside : List Piece)
    (closing : Token) : Outside ((Piece.group k opening inside closing).folded combine).name := by
  rw [folded_name joins]
  split <;> cases k <;> decide

theorem opening_injective {k k' : Group} (same : k.opening = k'.opening) : k = k' := by
  revert same
  cases k <;> cases k' <;> decide

theorem quote_names {k : Group} (quoted : k.isQuoted = true) :
    k.opening ∈ quoteNames ∧ k.closing = k.opening := by
  cases k <;> first | decide | cases quoted

theorem not_glyph_of_quote {n : String} (quote : n ∈ quoteNames) : n ∉ glyphNames := by
  revert n
  decide

/-- Tokens after the fold of characters and escapes. -/
def joinGlyphs (combine : Combiner) (tokens : List Token) : List Token :=
  (Fold.apply combine (.alternation "string_content" ["chars", "escape"]) tokens).1

variable {t : Token} {rest part : List Token}

theorem joinGlyphs_part (inside : ∀ u ∈ part, u.name ∈ ["chars", "escape"])
    (other : t.name ∉ glyphNames) :
    joinGlyphs combine (part ++ t :: rest) = joined combine part ++ t :: joinGlyphs combine rest := by
  have outside : (t.name == "string_content" || ["chars", "escape"].contains t.name) = false := by
    simp only [glyphNames, List.mem_cons, List.not_mem_nil, or_false, not_or] at other
    simp [other]
  have belongs : ∀ u ∈ part,
      (u.name == "string_content" || ["chars", "escape"].contains u.name) = true := by
    intro u member
    have listed := inside u member
    simp only [List.mem_cons, List.not_mem_nil, or_false] at listed
    simp [listed]
  have run : (Fold.closeRun combine "string_content" part).1 = joined combine part := by
    cases part with
    | nil => rfl
    | cons only more =>
      cases more with
      | cons => rfl
      | nil =>
        have named : only.name ≠ "string_content" := by
          have listed := inside only List.mem_cons_self
          simp only [List.mem_cons, List.not_mem_nil, or_false] at listed
          rcases listed with named | named <;> simp [named]
        rw [Fold.closeRun, if_neg named]
        rfl
  have folded := @Fold.foldRuns_part combine "string_content" _ t rest part [] outside belongs
  rw [List.nil_append, run] at folded
  exact folded

theorem joinGlyphs_other (other : t.name ∉ glyphNames) :
    joinGlyphs combine (t :: rest) = t :: joinGlyphs combine rest :=
  joinGlyphs_part (List.forall_mem_nil _) other

mutual

/-- What strings hold is joined, and the rest stays as it is. -/
theorem Piece.joinGlyphs_raw : ∀ (p : Piece) {around : Option Group} (rest : List Token),
    Unquoted around → p.Fits around →
      joinGlyphs combine (p.raw ++ rest) =
        p.midway combine (fun _ _ => false) ++ joinGlyphs combine rest
  | .token t, around, rest, unquoted, fit => joinGlyphs_other (outside_token unquoted fit).2
  | .group k opening inside closing, around, rest, unquoted, fit => by
    obtain ⟨_, opens, closes, fit⟩ := fit
    rw [Piece.raw, Piece.midway, List.cons_append, List.append_assoc, List.singleton_append]
    cases quoted : k.isQuoted with
    | true =>
      obtain ⟨quote, same⟩ := quote_names quoted
      rw [joinGlyphs_other (opens ▸ not_glyph_of_quote quote),
        joinGlyphs_part (glyphs_of_fit quoted fit) (closes ▸ same ▸ not_glyph_of_quote quote)]
      simp
    | false =>
      have outside := outside_bracket quoted
      rw [joinGlyphs_other (opens ▸ outside.1.2),
        joinGlyphs_rawAll inside (closing :: rest) (Unquoted.some quoted) fit,
        joinGlyphs_other (closes ▸ outside.2.2)]
      simp

theorem joinGlyphs_rawAll : ∀ (ps : List Piece) {around : Option Group} (rest : List Token),
    Unquoted around → Fit around ps →
      joinGlyphs combine (rawAll ps ++ rest) =
        midwayAll combine (fun _ _ => false) ps ++ joinGlyphs combine rest
  | [], _, _, _, _ => rfl
  | p :: ps, around, rest, unquoted, fit => by
    have first := p.joinGlyphs_raw (rawAll ps ++ rest) unquoted fit.1
    have later := joinGlyphs_rawAll ps rest unquoted fit.2.2
    rw [rawAll, midwayAll, List.append_assoc, first, later, List.append_assoc]

end

/-- The names in a string that is folded: the quotes, and what they hold unless it is empty. -/
def stringTerms (k : Group) (empty : Bool) : List String :=
  k.opening :: if empty then [k.closing] else ["string_content", k.closing]

def stringName (k : Group) (empty : Bool) : String := if empty then k.empty else k.full

/-- Tokens after the fold of the strings of a kind that are empty, or of those that are not. -/
def foldStrings (combine : Combiner) (k : Group) (empty : Bool) (tokens : List Token) :
    List Token :=
  (Fold.apply combine (.concatenation (stringName k empty) (stringTerms k empty)) tokens).1

/-- The strings that are one token after such a fold. -/
def shutBy (shut : Group → Bool → Bool) (k : Group) (empty : Bool) (k' : Group) (empty' : Bool) :
    Bool := shut k' empty' || (k' == k && empty' == empty)

/-- The first token is not what a string holds. -/
def NoContent (tokens : List Token) : Prop :=
  ∀ t, tokens.head? = some t → t.name ≠ "string_content"

section

variable {k : Group} {empty : Bool} {shut : Group → Bool → Bool}

theorem foldStrings_eq (k : Group) (empty : Bool) (tokens : List Token) :
    foldStrings combine k empty tokens =
      (Fold.foldStretches combine (stringName k empty) (stringTerms k empty) tokens).1 := by
  cases empty <;> cases k <;> rfl

theorem foldStrings_other (other : t.name ≠ k.opening) :
    foldStrings combine k empty (t :: rest) = t :: foldStrings combine k empty rest := by
  rw [foldStrings_eq, foldStrings_eq]
  refine Fold.foldStretches_other ?_
  rw [stringTerms, Fold.beginsWith, beq_false_of_ne other, Bool.false_and]

/-- Where nonempty strings are folded, a quote that no content follows stays. -/
theorem foldStrings_quote (free : NoContent rest) :
    foldStrings combine k false (t :: rest) = t :: foldStrings combine k false rest := by
  rw [foldStrings_eq, foldStrings_eq]
  refine Fold.foldStretches_other ?_
  cases rest with
  | nil => simp [stringTerms, Fold.beginsWith]
  | cons u rest => simp [stringTerms, Fold.beginsWith, free u rfl]

theorem foldStrings_part (names : part.map (·.name) = stringTerms k empty) :
    foldStrings combine k empty (part ++ rest) =
      combine (stringName k empty) part :: foldStrings combine k empty rest := by
  rw [foldStrings_eq, foldStrings_eq]
  exact Fold.foldStretches_part (List.cons_ne_nil _ _) names rest

theorem noContent_nil : NoContent [] := by
  rintro u ⟨⟩

theorem noContent_cons (other : t.name ≠ "string_content") : NoContent (t :: rest) := by
  rintro u ⟨⟩
  exact other

theorem ne_content_of_quote {n : String} (quote : n ∈ quoteNames) : n ≠ "string_content" := by
  revert n
  decide

theorem Outside.ne_content {n : String} (outside : Outside n) : n ≠ "string_content" := by
  rintro rfl
  exact outside.2 (by decide)

theorem Outside.ne_opening {n : String} (outside : Outside n) (quoted : k.isQuoted = true) :
    n ≠ k.opening := by
  rintro rfl
  exact outside.1 (quote_names quoted).1

theorem Piece.noContent_midway (joins : Joins combine) (unquoted : Unquoted around) {p : Piece}
    (fit : p.Fits around) : NoContent (p.midway combine shut ++ rest) := by
  cases p with
  | token t => exact noContent_cons (outside_token unquoted fit).ne_content
  | group k' opening inside closing =>
    rw [Piece.midway]
    cases quoted : k'.isQuoted with
    | false =>
      exact noContent_cons (fit.2.1 ▸ (outside_bracket quoted).1.ne_content)
    | true =>
      rw [if_pos rfl]
      split
      · exact noContent_cons (outside_folded joins _ _ _ _).ne_content
      · exact noContent_cons (fit.2.1 ▸ ne_content_of_quote (quote_names quoted).1)

theorem noContent_midwayAll (joins : Joins combine) (unquoted : Unquoted around) {ps : List Piece}
    (fit : Fit around ps) (free : NoContent rest) : NoContent (midwayAll combine shut ps ++ rest) := by
  cases ps with
  | nil => exact free
  | cons p ps =>
    rw [midwayAll, List.append_assoc]
    exact p.noContent_midway joins unquoted fit.1

/-- A string that is folded. -/
theorem combine_string (joins : Joins combine) (k : Group) (opening : Token) (inside : List Piece)
    (closing : Token) :
    combine (stringName k inside.isEmpty) (opening :: (joined combine (rawAll inside) ++ [closing])) =
      (Piece.group k opening inside closing).folded combine := by
  rw [Piece.folded, joined]
  cases inside with
  | nil => rfl
  | cons p inside =>
    rw [if_neg (mt rawAll_eq_nil.1 (List.cons_ne_nil p inside))]
    exact joins.join k.full "string_content" [opening] (rawAll (p :: inside)) [closing]

theorem names_string (joins : Joins combine) {opening closing : Token} (inside : List Piece)
    (opens : opening.name = k.opening) (closes : closing.name = k.closing) :
    (opening :: (joined combine (rawAll inside) ++ [closing])).map (·.name) =
      stringTerms k inside.isEmpty := by
  rw [List.map_cons, List.map_append, List.map_singleton, opens, closes, stringTerms, joined]
  cases inside with
  | nil => rfl
  | cons p inside =>
    rw [if_neg (mt rawAll_eq_nil.1 (List.cons_ne_nil p inside)), List.map_singleton, joins.name]
    rfl

/-- A string that is not folded yet is folded just if the fold is that of its kind. -/
theorem foldStrings_string (joins : Joins combine) (ready : empty = true → shut k false = true)
    {k' : Group} (quoted : k'.isQuoted = true) {opening closing : Token} {inside : List Piece}
    (opens : opening.name = k'.opening) (closes : closing.name = k'.closing)
    (before : shut k' inside.isEmpty = false) (free : NoContent rest) :
    foldStrings combine k empty (opening :: (joined combine (rawAll inside) ++ closing :: rest)) =
      (if k' == k && inside.isEmpty == empty then
          [(Piece.group k' opening inside closing).folded combine]
        else opening :: (joined combine (rawAll inside) ++ [closing])) ++
        foldStrings combine k empty rest := by
  obtain ⟨quote, same⟩ := quote_names quoted
  by_cases kind : k' = k
  · subst kind
    by_cases size : inside.isEmpty = empty
    · subst size
      have folded := @foldStrings_part combine rest _ _ _ (names_string joins inside opens closes)
      rw [combine_string joins, List.cons_append, List.append_assoc, List.singleton_append] at folded
      simpa using folded
    · -- Other strings of the kind are folded before empty ones, so this one is empty.
      cases empty with
      | true =>
        have shown : inside.isEmpty = false := by simpa using size
        rw [shown, ready rfl] at before
        cases before
      | false =>
        have hollow : inside = [] := by simpa using size
        subst hollow
        have middle : NoContent (closing :: rest) :=
          noContent_cons (closes ▸ same ▸ ne_content_of_quote quote)
        have first : foldStrings combine k' false (opening :: closing :: rest) =
            opening :: foldStrings combine k' false (closing :: rest) := foldStrings_quote middle
        have last : foldStrings combine k' false (closing :: rest) =
            closing :: foldStrings combine k' false rest := foldStrings_quote free
        simp [joined, rawAll, first, last]
  · -- Strings of the other kind have other quotes.
    have other : k'.opening ≠ k.opening := fun same => kind (opening_injective same)
    have middle : "string_content" ≠ k.opening := by cases k <;> decide
    have first := @foldStrings_other combine opening
      (joined combine (rawAll inside) ++ closing :: rest) k empty (opens ▸ other)
    have last := @foldStrings_other combine closing rest k empty (closes ▸ same ▸ other)
    have kept : foldStrings combine k empty (joined combine (rawAll inside) ++ closing :: rest) =
        joined combine (rawAll inside) ++ closing :: foldStrings combine k empty rest := by
      rw [joined]
      split
      · exact last
      · rw [List.singleton_append, List.singleton_append, ← last]
        exact foldStrings_other (joins.name _ _ ▸ middle)
    rw [first, kept]
    simp [kind]

mutual

/-- A fold makes one token of each string of a kind, and leaves the rest. If it is that of empty
strings, the others of the kind must be folded before. -/
theorem Piece.foldStrings_midway (joins : Joins combine) (quoted : k.isQuoted = true)
    (ready : empty = true → shut k false = true) : ∀ (p : Piece) {around : Option Group}
      {rest : List Token}, Unquoted around → p.Fits around → NoContent rest →
        foldStrings combine k empty (p.midway combine shut ++ rest) =
          p.midway combine (shutBy shut k empty) ++ foldStrings combine k empty rest
  | .token t, around, rest, unquoted, fit, _ =>
    foldStrings_other ((outside_token unquoted fit).ne_opening quoted)
  | .group k' opening inside closing, around, rest, unquoted, fit, free => by
    obtain ⟨_, opens, closes, fit⟩ := fit
    rw [Piece.midway, Piece.midway]
    cases quoted' : k'.isQuoted with
    | false =>
      have outside := outside_bracket quoted'
      have after : NoContent (closing :: rest) := noContent_cons (closes ▸ outside.2.ne_content)
      have within := foldStrings_midwayAll joins quoted ready inside (Unquoted.some quoted') fit after
      have first : opening.name ≠ k.opening := opens ▸ outside.1.ne_opening quoted
      have last : closing.name ≠ k.opening := closes ▸ outside.2.ne_opening quoted
      simp only [Bool.false_eq_true, if_false, List.cons_append, List.append_assoc, List.nil_append]
      rw [foldStrings_other first, within, foldStrings_other last]
    | true =>
      rw [if_pos rfl, if_pos rfl, shutBy]
      cases before : shut k' inside.isEmpty with
      | true => exact foldStrings_other ((outside_folded joins _ _ _ _).ne_opening quoted)
      | false =>
        have folded := foldStrings_string joins ready quoted' opens closes before free
        rw [Bool.false_or]
        simpa using folded

theorem foldStrings_midwayAll (joins : Joins combine) (quoted : k.isQuoted = true)
    (ready : empty = true → shut k false = true) : ∀ (ps : List Piece) {around : Option Group}
      {rest : List Token}, Unquoted around → Fit around ps → NoContent rest →
        foldStrings combine k empty (midwayAll combine shut ps ++ rest) =
          midwayAll combine (shutBy shut k empty) ps ++ foldStrings combine k empty rest
  | [], _, _, _, _, _ => rfl
  | p :: ps, around, rest, unquoted, fit, free => by
    have after : NoContent (midwayAll combine shut ps ++ rest) :=
      noContent_midwayAll joins unquoted fit.2.2 free
    have first := p.foldStrings_midway joins quoted ready unquoted fit.1 after
    have later := foldStrings_midwayAll joins quoted ready ps unquoted fit.2.2 free
    rw [midwayAll, midwayAll, List.append_assoc, first, later, List.append_assoc]

end

end

/-- The folds of the language after those of strings. -/
def bracketFolds : List Fold := standardFolds.drop 5

theorem standardFolds_eq : standardFolds =
    .alternation "string_content" ["chars", "escape"] ::
      .concatenation (stringName .string false) (stringTerms .string false) ::
      .concatenation (stringName .string true) (stringTerms .string true) ::
      .concatenation (stringName .itemString false) (stringTerms .itemString false) ::
      .concatenation (stringName .itemString true) (stringTerms .itemString true) :: bracketFolds :=
  rfl

theorem joinGlyphs_of_fit {ps : List Piece} (fit : Fit none ps) :
    joinGlyphs combine (rawAll ps) = midwayAll combine (fun _ _ => false) ps := by
  have all : joinGlyphs combine (rawAll ps ++ []) =
      midwayAll combine (fun _ _ => false) ps ++ [] := joinGlyphs_rawAll ps [] Unquoted.none fit
  rwa [List.append_nil, List.append_nil] at all

theorem foldStrings_of_fit (joins : Joins combine) {ps : List Piece} (fit : Fit none ps) {k : Group}
    {empty : Bool} (quoted : k.isQuoted = true) {shut : Group → Bool → Bool}
    (ready : empty = true → shut k false = true) :
    foldStrings combine k empty (midwayAll combine shut ps) =
      midwayAll combine (shutBy shut k empty) ps := by
  have all := foldStrings_midwayAll joins quoted ready ps Unquoted.none fit noContent_nil
  have rest : foldStrings combine k empty [] = [] := by
    rw [foldStrings_eq, Fold.foldStretches]
  rwa [rest, List.append_nil, List.append_nil] at all

/-- The first folds of a round make one token of each string. -/
theorem applyEach_rawAll (joins : Joins combine) {ps : List Piece} (fit : Fit none ps) :
    ∃ shut : Group → Bool → Bool, (∀ k empty, k.isQuoted = true → shut k empty = true) ∧
      (Fold.applyEach combine standardFolds (rawAll ps)).1 =
        (Fold.applyEach combine bracketFolds (midwayAll combine shut ps)).1 := by
  let halfShut := shutBy (fun _ _ => false) .string false
  let members := shutBy halfShut .string true
  let more := shutBy members .itemString false
  have content : joinGlyphs combine (rawAll ps) = midwayAll combine (fun _ _ => false) ps :=
    joinGlyphs_of_fit fit
  have first : foldStrings combine .string false (midwayAll combine (fun _ _ => false) ps) =
      midwayAll combine halfShut ps := foldStrings_of_fit joins fit rfl nofun
  have second : foldStrings combine .string true (midwayAll combine halfShut ps) =
      midwayAll combine members ps := foldStrings_of_fit joins fit rfl fun _ => rfl
  have third : foldStrings combine .itemString false (midwayAll combine members ps) =
      midwayAll combine more ps := foldStrings_of_fit joins fit rfl nofun
  have fourth : foldStrings combine .itemString true (midwayAll combine more ps) =
      midwayAll combine (shutBy more .itemString true) ps :=
    foldStrings_of_fit joins fit rfl fun _ => rfl
  refine ⟨shutBy more .itemString true, ?_, ?_⟩
  · intro k empty quoted
    cases k <;> cases empty <;> first | rfl | cases quoted
  · rw [← fourth, ← third, ← second, ← first, ← content, standardFolds_eq]
    rfl

end AttrGrammar.Procedure
