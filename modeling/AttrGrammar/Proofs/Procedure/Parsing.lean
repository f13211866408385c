import AttrGrammar.Proofs.Parsing.Lookahead
import AttrGrammar.Proofs.Procedure.Outline

/-!
The program grammar derives the well-formed programs and nothing else, each with its own parse tree.

What is used of the grammar is the list of its rules and the check that it is predictive.
-/

namespace AttrGrammar.Procedure

open Construct Forest

/-- A rule by what derivations ask of it. -/
def shapeOf (rule : Rule) : String × RuleKind × List String := (rule.name, rule.kind, rule.terms)

/-- The rules of the program grammar. -/
def programShape : List (String × RuleKind × List String) :=
  primitives.map (fun c => (c.name, .terminal, [])) ++
    folded.map (fun c => (c.name, .attrTerminal, [])) ++ [
      (document.name, .alternation, [program.name, emptyObject.name]),
      (program.name, .attrProduction, [lbrace.name, members.name, rbrace.name]),
      (members.name, .concatenation, [member.name, memberTail.name]),
      (memberTail.name, .repetition, [nextMember.name]),
      (nextMember.name, .concatenation, [memberDivider.name, member.name]),
      (member.name, .alternation, [bind.name, letMember.name, refMember.name, docMember.name]),
      (bind.name, .attrProduction, ["key", colon.name, "value"]),
      (letMember.name, .attrProduction, [letForm.name, colon.name, "params"]),
      (refMember.name, .attrProduction, [refForm.name, colon.name, string.name]),
      (docMember.name, .attrProduction, [docForm.name, colon.name, string.name]),
      ("params", .alternation, [array.name, emptyArray.name]),
      ("key", .alternation, [string.name, emptyString.name]),
      ("value", .alternation,
        ["literal", array.name, emptyArray.name, object.name, emptyObject.name]),
      ("literal", .alternation,
        [string.name, emptyString.name, number.name, boolean.name, null.name]),
      (object.name, .attrProduction, [lbrace.name, members.name, rbrace.name]),
      (nullable, .terminal, [])]

/-- How many rules can be entered one inside the other before a token is read. -/
def programRank (name : String) : Nat :=
  if ["key", "params", "literal", object.name, program.name, letMember.name, refMember.name,
    docMember.name, nextMember.name].contains name then 1
  else if [bind.name, "value", document.name, memberTail.name].contains name then 2
  else if name = member.name then 3
  else if name = members.name then 4
  else 0

/-- The program grammar, by its rules and the sets that were found for them. -/
structure IsProgramGrammar (g : Grammar) : Prop where
  top : g.top = document.name
  shape : g.rules.map shapeOf = programShape
  decided : ∀ rule ∈ g.rules, g.decides programRank rule = true
  ends : endOfInput ∈ g.followSet document.name

variable {g : Grammar}

/-- The rule of a name has the shape that is listed. -/
theorem IsProgramGrammar.find? (standard : IsProgramGrammar g) {name : String} {kind : RuleKind}
    {terms : List String}
    (listed : programShape.find? (·.1 == name) = some (name, kind, terms)) :
    ∃ rule, g.find? name = some rule ∧ rule.kind = kind ∧ rule.terms = terms := by
  have found : (g.rules.map shapeOf).find? (·.1 == name) = some (name, kind, terms) := by
    rw [standard.shape, listed]
  rw [List.find?_map, Option.map_eq_some_iff] at found
  obtain ⟨rule, known, shape⟩ := found
  cases shape
  exact ⟨rule, known, rfl, rfl⟩

theorem body_of_alternation {rule : Rule} {terms : List String} (kind : rule.kind = .alternation)
    (listed : rule.terms = terms) : rule.body = .alternation terms := by
  unfold Rule.kind Rule.terms at *
  cases body : rule.body <;> rw [body] at kind listed <;> cases kind
  exact congrArg _ listed

theorem body_of_repetition {rule : Rule} {term : String} (kind : rule.kind = .repetition)
    (listed : rule.terms = [term]) : rule.body = .repetition term := by
  unfold Rule.kind Rule.terms at *
  cases body : rule.body <;> rw [body] at kind listed <;> cases kind
  cases listed
  rfl

/-- A right-hand side that is a plain sequence allows that sequence only. -/
theorem allows_sequence {rule : Rule} {terms sequence : List String}
    (kind : rule.kind = .concatenation ∨ rule.kind = .attrProduction)
    (listed : rule.terms = terms) : rule.body.Allows sequence ↔ sequence = terms := by
  unfold Rule.kind Rule.terms at *
  subst listed
  cases body : rule.body <;> rw [body] at kind <;> rcases kind with kind | kind <;> cases kind <;>
    rfl

theorem derives_token (standard : IsProgramGrammar g) {token : Token} {name : String}
    (named : token.name = name)
    (listed : programShape.find? (·.1 == name) = some (name, leafKind name, []))
    (visible : name ≠ nullable) : g.Derives [name] (leaf token) [token] := by
  subst named
  obtain ⟨rule, found, kind, _⟩ := standard.find? listed
  have terminal : rule.isTerminal = true := by
    rw [Rule.isTerminal, kind, leafKind]
    split <;> rfl
  have derived := Grammar.Derives.token found terminal visible rfl .nil
  rw [kind] at derived
  exact derived

/-- The alternatives of a name. -/
def choicesOf (name : String) : List String :=
  match programShape.find? (·.1 == name) with
  | some (_, .alternation, terms) => terms
  | _ => []

theorem listed_of_mem_choices {name term : String} (member : term ∈ choicesOf name) :
    programShape.find? (·.1 == name) = some (name, .alternation, choicesOf name) := by
  unfold choicesOf at *
  split at member
  · next found =>
    have named := List.find?_some found
    simp only [beq_iff_eq] at named
    rw [found, named]
  · cases member

theorem derives_choice (standard : IsProgramGrammar g) {name term : String}
    (member : term ∈ choicesOf name) {f : Forest Label} {used : List Token}
    (derived : g.Derives [term] f used) : g.Derives [name] (choiceOf name f) used := by
  obtain ⟨rule, found, kind, same⟩ := standard.find? (listed_of_mem_choices member)
  have production : rule.isTerminal = false := by
    rw [Rule.isTerminal, kind]
    rfl
  have allowed : rule.body.Allows [term] := by
    rw [body_of_alternation kind same]
    exact ⟨term, member, rfl⟩
  have whole := Grammar.Derives.node found production allowed derived .nil
  rw [kind, List.append_nil] at whole
  exact whole

theorem derives_sequence (standard : IsProgramGrammar g) {name : String} {kind : RuleKind}
    {terms : List String} (listed : programShape.find? (·.1 == name) = some (name, kind, terms))
    (plain : kind = .concatenation ∨ kind = .attrProduction) {f : Forest Label}
    {used : List Token} (derived : g.Derives terms f used) :
    g.Derives [name] (.tree (.inner name kind) f) used := by
  obtain ⟨rule, found, same, terms⟩ := standard.find? listed
  have production : rule.isTerminal = false := by
    rw [Rule.isTerminal, same]
    rcases plain with rfl | rfl <;> rfl
  have allowed := (allows_sequence (same ▸ plain) terms).2 rfl
  have whole := Grammar.Derives.node found production allowed derived .nil
  rw [same, List.append_nil] at whole
  exact whole

theorem isKey_iff {name : String} :
    isKey name = true ↔ name = string.name ∨ name = emptyString.name := by
  simp [isKey]

theorem isLiteral_iff {name : String} :
    isLiteral name = true ↔ name = string.name ∨ name = emptyString.name ∨ name = number.name ∨
      name = boolean.name ∨ name = null.name := by
  simp [isLiteral]

theorem isContainer_iff {name : String} :
    isContainer name = true ↔
      name = array.name ∨ name = emptyArray.name ∨ name = emptyObject.name := by
  simp [isContainer]

theorem isArray_iff {name : String} :
    isArray name = true ↔ name = array.name ∨ name = emptyArray.name := by
  simp [isArray]

/-- The ways to pair a first token and a value of one token. -/
theorem pairOf?_cases {head value : String} {pair : Construct}
    (paired : pairOf? head value = some pair) :
    pair = .bind ∧ isKey head = true ∧ (isLiteral value = true ∨ isContainer value = true) ∨
      pair = .letMember ∧ head = letForm.name ∧ isArray value = true ∨
      pair = .refMember ∧ head = refForm.name ∧ value = string.name ∨
      pair = .docMember ∧ head = docForm.name ∧ value = string.name := by
  unfold pairOf? at paired
  split at paired
  · next key =>
    split at paired
    · next fits =>
      cases paired
      exact Or.inl ⟨rfl, key, by simpa using fits⟩
    · cases paired
  · split at paired
    · next form =>
      split at paired
      · next fits =>
        cases paired
        exact Or.inr (Or.inl ⟨rfl, form, fits⟩)
      · cases paired
    · split at paired
      · next text =>
        split at paired
        · next form =>
          cases paired
          exact Or.inr (Or.inr (Or.inl ⟨rfl, form, text⟩))
        · split at paired
          · next form =>
            cases paired
            exact Or.inr (Or.inr (Or.inr ⟨rfl, form, text⟩))
          · cases paired
      · cases paired

/-- The names of the tokens that are paired. -/
def pairedNames : List String := [
  letForm.name, refForm.name, docForm.name, string.name, emptyString.name, number.name, boolean.name,
  null.name, array.name, emptyArray.name, emptyObject.name]

theorem pairOf?_mem {head value : String} (paired : (pairOf? head value).isSome = true) :
    head ∈ pairedNames ∧ value ∈ pairedNames := by
  obtain ⟨pair, paired⟩ := Option.isSome_iff_exists.1 paired
  rcases pairOf?_cases paired with ⟨_, key, fits⟩ | ⟨_, rfl, list⟩ | ⟨_, rfl, rfl⟩ | ⟨_, rfl, rfl⟩
  · constructor
    · rcases isKey_iff.1 key with rfl | rfl <;> decide
    · rcases fits with literal | container
      · rcases isLiteral_iff.1 literal with rfl | rfl | rfl | rfl | rfl <;> decide
      · rcases isContainer_iff.1 container with rfl | rfl | rfl <;> decide
  · refine ⟨by decide, ?_⟩
    rcases isArray_iff.1 list with rfl | rfl <;> decide
  · decide
  · decide

theorem derives_key (standard : IsProgramGrammar g) {head : Token} (key : isKey head.name = true) :
    g.Derives ["key"] (headForest .bind head) [head] := by
  rcases isKey_iff.1 key with named | named
  · exact derives_choice standard (by decide)
      (derives_token standard named (by decide) (by decide))
  · exact derives_choice standard (by decide)
      (derives_token standard named (by decide) (by decide))

theorem derives_value (standard : IsProgramGrammar g) {value : Token}
    (fits : isLiteral value.name = true ∨ isContainer value.name = true) :
    g.Derives ["value"] (valueForest .bind value) [value] := by
  unfold valueForest
  by_cases literal : isLiteral value.name = true
  · rw [if_pos literal]
    refine derives_choice standard (by decide : "literal" ∈ choicesOf "value") ?_
    rcases isLiteral_iff.1 literal with named | named | named | named | named <;>
      exact derives_choice standard (by decide)
        (derives_token standard named (by decide) (by decide))
  · rw [if_neg literal]
    rcases isContainer_iff.1 (fits.resolve_left literal) with named | named | named <;>
      exact derives_choice standard (by decide)
        (derives_token standard named (by decide) (by decide))

theorem derives_params (standard : IsProgramGrammar g) {value : Token}
    (list : isArray value.name = true) :
    g.Derives ["params"] (valueForest .letMember value) [value] := by
  rcases isArray_iff.1 list with named | named <;>
    exact derives_choice standard (by decide)
      (derives_token standard named (by decide) (by decide))

/-- A member is derived from the derivations of its two ends. -/
theorem derives_pair (standard : IsProgramGrammar g) {pair : Construct} {first last : String}
    (listed : programShape.find? (·.1 == pair.name) =
      some (pair.name, .attrProduction, [first, colon.name, last]))
    (member : pair.name ∈ choicesOf Construct.member.name)
    {middle : Token} (named : middle.name = colon.name) {front back : Forest Label}
    {before after : List Token} (derivedFirst : g.Derives [first] front before)
    (derivedLast : g.Derives [last] back after) :
    g.Derives [Construct.member.name] (pairForest pair front middle back)
      (before ++ middle :: after) := by
  refine derives_choice standard member
    (derives_sequence standard listed (Or.inr rfl) ?_)
  exact derivedFirst.append
    ((derives_token standard named (by decide) (by decide)).append derivedLast)

theorem derives_plain (standard : IsProgramGrammar g) {head middle value : Token}
    (named : middle.name = colon.name) {pair : Construct}
    (paired : pairOf? head.name value.name = some pair) :
    g.Derives [member.name] (pairForest pair (headForest pair head) middle (valueForest pair value))
      [head, middle, value] := by
  rcases pairOf?_cases paired with ⟨rfl, key, fits⟩ | ⟨rfl, form, list⟩ | ⟨rfl, form, text⟩ |
    ⟨rfl, form, text⟩
  · exact derives_pair standard (by decide) (by decide) named (derives_key standard key)
      (derives_value standard fits)
  · exact derives_pair standard (by decide) (by decide) named
      (derives_token standard form (by decide) (by decide)) (derives_params standard list)
  · exact derives_pair standard (by decide) (by decide) named
      (derives_token standard form (by decide) (by decide))
      (derives_token standard text (by decide) (by decide))
  · exact derives_pair standard (by decide) (by decide) named
      (derives_token standard form (by decide) (by decide))
      (derives_token standard text (by decide) (by decide))

theorem derives_rounds (standard : IsProgramGrammar g) {n : Nat} {f : Forest Label}
    {used : List Token} (derived : g.Derives (List.replicate n nextMember.name) f used) :
    g.Derives [memberTail.name] (.tree (.inner memberTail.name .repetition) f) used := by
  obtain ⟨rule, found, kind, terms⟩ := standard.find?
    (by decide : _ = some (memberTail.name, RuleKind.repetition, [nextMember.name]))
  have production : rule.isTerminal = false := by
    rw [Rule.isTerminal, kind]
    rfl
  have allowed : rule.body.Allows (List.replicate n nextMember.name) := by
    rw [body_of_repetition kind terms]
    exact ⟨n, rfl⟩
  have whole := Grammar.Derives.node found production allowed derived .nil
  rw [kind, List.append_nil] at whole
  exact whole

/-- Members in braces are derived from the derivations of the members. -/
theorem derives_braced (standard : IsProgramGrammar g) {c : Construct}
    (listed : programShape.find? (·.1 == c.name) =
      some (c.name, .attrProduction, [lbrace.name, members.name, rbrace.name]))
    {opening closing : Token} (opens : opening.name = lbrace.name)
    (closes : closing.name = rbrace.name) {first others : Forest Label} {front back : List Token}
    (derivedFirst : g.Derives [member.name] first front) {n : Nat}
    (derivedOthers : g.Derives (List.replicate n nextMember.name) others back) :
    g.Derives [c.name]
      (bracedForest c opening (first ++ .tree (.inner memberTail.name .repetition) others) closing)
      (opening :: (front ++ (back ++ [closing]))) := by
  have inside := derives_sequence standard (by decide : _ = some (members.name, _, _)) (Or.inl rfl)
    (derivedFirst.append (derives_rounds standard derivedOthers))
  have whole := (derives_token standard opens (by decide) (by decide)).append
    (inside.append (derives_token standard closes (by decide) (by decide)))
  have derived := derives_sequence standard listed (Or.inr rfl) whole
  rw [List.append_assoc] at derived
  exact derived

mutual

/-- A well-formed member is derived with its tree. -/
theorem Member.derives (standard : IsProgramGrammar g) :
    ∀ m : Member, m.WellFormed → g.Derives [member.name] m.forest m.tokens
  | .plain head middle value, wellFormed => by
    obtain ⟨named, paired⟩ := wellFormed
    obtain ⟨pair, paired⟩ := Option.isSome_iff_exists.1 paired
    rw [Member.forest, Member.tokens, paired]
    exact derives_plain standard named paired
  | .nested head middle opening first others closing, wellFormed => by
    obtain ⟨key, named, opens, wellFirst, wellOthers, closes⟩ := wellFormed
    obtain ⟨n, derivedOthers⟩ := others.derives standard wellOthers
    have braced := derives_braced standard (by decide : _ = some (object.name, _, _)) opens closes
      (first.derives standard wellFirst) derivedOthers
    exact derives_pair standard (by decide) (by decide) named (derives_key standard key)
      (derives_choice standard (by decide) braced)

/-- So are the members after the first, one round for each. -/
theorem MemberTail.derives (standard : IsProgramGrammar g) :
    ∀ t : MemberTail, t.WellFormed →
      ∃ n, g.Derives (List.replicate n nextMember.name) t.forest t.tokens
  | .nil, _ => ⟨0, .nil⟩
  | .cons divider m others, wellFormed => by
    obtain ⟨named, wellMember, wellOthers⟩ := wellFormed
    obtain ⟨n, derivedOthers⟩ := others.derives standard wellOthers
    have next := (derives_token standard named (by decide) (by decide)).append
      (m.derives standard wellMember)
    exact ⟨n + 1, (derives_sequence standard (by decide : _ = some (nextMember.name, _, _))
      (Or.inl rfl) next).append derivedOthers⟩

end

/-- A well-formed program is derived with its tree. -/
theorem Program.derives (standard : IsProgramGrammar g) (o : Program)
    (wellFormed : o.WellFormed) : g.Derives [document.name] o.forest o.tokens := by
  cases o with
  | empty token =>
    exact derives_choice standard (by decide)
      (derives_token standard wellFormed (by decide) (by decide))
  | members opening first others closing =>
    obtain ⟨opens, wellFirst, wellOthers, closes⟩ := wellFormed
    obtain ⟨n, derivedOthers⟩ := others.derives standard wellOthers
    have braced := derives_braced standard (by decide : _ = some (program.name, _, _)) opens closes
      (first.derives standard wellFirst) derivedOthers
    exact derives_choice standard (by decide) braced

/-- A term that is no terminal derives one tree over what its rule allows. -/
theorem node_of_derives (standard : IsProgramGrammar g) {name : String} {kind : RuleKind}
    {terms : List String} (listed : programShape.find? (·.1 == name) = some (name, kind, terms))
    (production : kind.isTerminal = false) {f : Forest Label} {used : List Token}
    (derived : g.Derives [name] f used) :
    ∃ (rule : Rule) (sequence : List String) (children : Forest Label),
      rule.kind = kind ∧ rule.terms = terms ∧ rule.body.Allows sequence ∧
      f = .tree (.inner name kind) children ∧ g.Derives sequence children used := by
  obtain ⟨rule, found, same, listed⟩ := standard.find? listed
  have shape : rule.isTerminal = false := by rw [Rule.isTerminal, same, production]
  cases derived with
  | nothing known terminal _ =>
    cases known.symm.trans found
    rw [shape] at terminal
    cases terminal
  | token known terminal _ _ _ =>
    cases known.symm.trans found
    rw [shape] at terminal
    cases terminal
  | node known _ allowed body others =>
    cases known.symm.trans found
    cases others
    rw [List.append_nil, same]
    exact ⟨rule, _, _, same, listed, allowed, rfl, body⟩

theorem leaf_of_derives (standard : IsProgramGrammar g) {name : String}
    (listed : programShape.find? (·.1 == name) = some (name, leafKind name, []))
    (visible : name ≠ nullable) {f : Forest Label} {used : List Token}
    (derived : g.Derives [name] f used) :
    ∃ token, token.name = name ∧ f = leaf token ∧ used = [token] := by
  obtain ⟨rule, found, same, _⟩ := standard.find? listed
  have shape : rule.isTerminal = true := by
    rw [Rule.isTerminal, same, leafKind]
    split <;> rfl
  cases derived with
  | nothing => exact absurd rfl visible
  | token known _ _ named others =>
    cases known.symm.trans found
    cases others
    refine ⟨_, named, ?_, rfl⟩
    rw [leaf, named, same]
    rfl
  | node known production _ _ _ =>
    cases known.symm.trans found
    rw [shape] at production
    cases production

theorem choice_of_derives (standard : IsProgramGrammar g) {name : String} {terms : List String}
    (listed : programShape.find? (·.1 == name) = some (name, .alternation, terms))
    {f : Forest Label} {used : List Token} (derived : g.Derives [name] f used) :
    ∃ term ∈ terms, ∃ child, f = choiceOf name child ∧ g.Derives [term] child used := by
  obtain ⟨rule, sequence, children, kind, same, allowed, rfl, body⟩ :=
    node_of_derives standard listed rfl derived
  rw [body_of_alternation kind same] at allowed
  obtain ⟨term, member, rfl⟩ := allowed
  exact ⟨term, member, children, rfl, body⟩

theorem sequence_of_derives (standard : IsProgramGrammar g) {name : String} {kind : RuleKind}
    {terms : List String} (listed : programShape.find? (·.1 == name) = some (name, kind, terms))
    (plain : kind = .concatenation ∨ kind = .attrProduction) {f : Forest Label}
    {used : List Token} (derived : g.Derives [name] f used) :
    ∃ children, f = .tree (.inner name kind) children ∧ g.Derives terms children used := by
  have production : kind.isTerminal = false := by rcases plain with rfl | rfl <;> rfl
  obtain ⟨rule, sequence, children, same, listed, allowed, rfl, body⟩ :=
    node_of_derives standard listed production derived
  cases (allows_sequence (same ▸ plain) listed).1 allowed
  exact ⟨children, rfl, body⟩

/-- Three terms in sequence have their own shares. -/
theorem three_of_derives {a b c : String} {f : Forest Label} {used : List Token}
    (derived : g.Derives [a, b, c] f used) :
    ∃ x y z i j k, f = x ++ (y ++ z) ∧ used = i ++ (j ++ k) ∧ g.Derives [a] x i ∧
      g.Derives [b] y j ∧ g.Derives [c] z k := by
  obtain ⟨x, _, i, _, rfl, rfl, first, others⟩ := derived.uncons
  obtain ⟨y, z, j, k, rfl, rfl, second, third⟩ := others.uncons
  exact ⟨x, y, z, i, j, k, rfl, rfl, first, second, third⟩

theorem key_of_derives (standard : IsProgramGrammar g) {f : Forest Label} {used : List Token}
    (derived : g.Derives ["key"] f used) :
    ∃ token, isKey token.name = true ∧ f = headForest .bind token ∧ used = [token] := by
  obtain ⟨term, member, child, rfl, inner⟩ := choice_of_derives standard
    (by decide : _ = some (_, _, [string.name, emptyString.name])) derived
  simp only [List.mem_cons, List.not_mem_nil, or_false] at member
  rcases member with rfl | rfl
  · obtain ⟨token, named, rfl, rfl⟩ := leaf_of_derives standard (by decide) (by decide) inner
    exact ⟨token, isKey_iff.2 (Or.inl named), rfl, rfl⟩
  · obtain ⟨token, named, rfl, rfl⟩ := leaf_of_derives standard (by decide) (by decide) inner
    exact ⟨token, isKey_iff.2 (Or.inr named), rfl, rfl⟩

theorem params_of_derives (standard : IsProgramGrammar g) {f : Forest Label} {used : List Token}
    (derived : g.Derives ["params"] f used) :
    ∃ token, isArray token.name = true ∧ f = valueForest .letMember token ∧ used = [token] := by
  obtain ⟨term, member, child, rfl, inner⟩ := choice_of_derives standard
    (by decide : _ = some (_, _, [array.name, emptyArray.name])) derived
  simp only [List.mem_cons, List.not_mem_nil, or_false] at member
  rcases member with rfl | rfl
  · obtain ⟨token, named, rfl, rfl⟩ := leaf_of_derives standard (by decide) (by decide) inner
    exact ⟨token, isArray_iff.2 (Or.inl named), rfl, rfl⟩
  · obtain ⟨token, named, rfl, rfl⟩ := leaf_of_derives standard (by decide) (by decide) inner
    exact ⟨token, isArray_iff.2 (Or.inr named), rfl, rfl⟩

theorem literal_of_derives (standard : IsProgramGrammar g) {f : Forest Label} {used : List Token}
    (derived : g.Derives ["literal"] f used) :
    ∃ token, isLiteral token.name = true ∧ f = choiceOf "literal" (leaf token) ∧
      used = [token] := by
  obtain ⟨term, member, child, rfl, inner⟩ := choice_of_derives standard
    (by decide : _ = some (_, _, [string.name, emptyString.name, number.name, boolean.name,
      null.name])) derived
  have literal : isLiteral term = true := List.contains_iff_mem.2 member
  have terminals : ∀ t ∈ [string.name, emptyString.name, number.name, boolean.name, null.name],
      programShape.find? (·.1 == t) = some (t, leafKind t, []) ∧ t ≠ nullable := by decide
  obtain ⟨listed, visible⟩ := terminals term member
  obtain ⟨token, rfl, rfl, rfl⟩ := leaf_of_derives standard listed visible inner
  exact ⟨token, literal, rfl, rfl⟩

/-- A member of fewer tokens than a number is one of a well-formed program. -/
def MembersTo (g : Grammar) (n : Nat) : Prop :=
  ∀ {f : Forest Label} {used : List Token}, used.length < n → g.Derives [member.name] f used →
    ∃ m : Member, m.WellFormed ∧ f = m.forest ∧ used = m.tokens

theorem tail_of_derives (standard : IsProgramGrammar g) {n rounds : Nat} (below : MembersTo g n)
    {f : Forest Label} {used : List Token} (few : used.length < n)
    (derived : g.Derives (List.replicate rounds nextMember.name) f used) :
    ∃ t : MemberTail, t.WellFormed ∧ f = t.forest ∧ used = t.tokens := by
  induction rounds generalizing f used with
  | zero =>
    cases derived
    exact ⟨.nil, trivial, rfl, rfl⟩
  | succ rounds ih =>
    obtain ⟨front, back, here, later, rfl, rfl, first, others⟩ := derived.uncons
    rw [List.length_append] at few
    obtain ⟨children, rfl, inside⟩ := sequence_of_derives standard
      (by decide : _ = some (_, _, [memberDivider.name, member.name])) (Or.inl rfl) first
    obtain ⟨_, child, divided, rest, rfl, rfl, divides, next⟩ := inside.uncons
    obtain ⟨divider, named, rfl, rfl⟩ := leaf_of_derives standard (by decide) (by decide) divides
    rw [List.length_append] at few
    obtain ⟨m, wellMember, rfl, rfl⟩ := below (by omega) next
    obtain ⟨t, wellTail, rfl, rfl⟩ := ih (by omega) others
    exact ⟨.cons divider m t, ⟨named, wellMember, wellTail⟩, rfl, rfl⟩

theorem braced_of_derives (standard : IsProgramGrammar g) {n : Nat} (below : MembersTo g n)
    {c : Construct}
    (listed : programShape.find? (·.1 == c.name) =
      some (c.name, .attrProduction, [lbrace.name, members.name, rbrace.name]))
    {f : Forest Label} {used : List Token} (few : used.length ≤ n + 1)
    (derived : g.Derives [c.name] f used) :
    ∃ opening first others closing, opening.name = lbrace.name ∧ first.WellFormed ∧
      others.WellFormed ∧ closing.name = rbrace.name ∧
      f = bracedForest c opening (membersForest first others) closing ∧
      used = opening :: (first.tokens ++ (others.tokens ++ [closing])) := by
  obtain ⟨children, rfl, inside⟩ := sequence_of_derives standard listed (Or.inr rfl) derived
  obtain ⟨_, body, _, _, between, _, rfl, rfl, opens, derivedBody, closes⟩ :=
    three_of_derives inside
  obtain ⟨opening, namedOpening, rfl, rfl⟩ :=
    leaf_of_derives standard (by decide) (by decide) opens
  obtain ⟨closing, namedClosing, rfl, rfl⟩ :=
    leaf_of_derives standard (by decide) (by decide) closes
  simp only [List.length_append, List.length_cons, List.length_nil] at few
  obtain ⟨children, rfl, listedMembers⟩ := sequence_of_derives standard
    (by decide : _ = some (_, _, [member.name, memberTail.name])) (Or.inl rfl) derivedBody
  obtain ⟨front, back, here, later, rfl, rfl, derivedFirst, derivedTail⟩ := listedMembers.uncons
  rw [List.length_append] at few
  obtain ⟨rule, sequence, rounds, kind, same, allowed, rfl, derivedRounds⟩ := node_of_derives
    standard (by decide : _ = some (_, .repetition, [nextMember.name])) rfl derivedTail
  rw [body_of_repetition kind same] at allowed
  obtain ⟨k, rfl⟩ := allowed
  obtain ⟨first, wellFirst, rfl, rfl⟩ := below (by omega) derivedFirst
  obtain ⟨others, wellOthers, rfl, rfl⟩ := tail_of_derives standard below (by omega) derivedRounds
  refine ⟨opening, first, others, closing, namedOpening, wellFirst, wellOthers, namedClosing,
    rfl, ?_⟩
  simp only [List.cons_append, List.nil_append, List.append_assoc]

theorem pairOf?_bind {head value : String} (key : isKey head = true)
    (fits : isLiteral value = true ∨ isContainer value = true) :
    pairOf? head value = some .bind := by
  rw [pairOf?, if_pos key, if_pos (by simpa using fits)]

theorem pairOf?_let {head value : String} (form : head = letForm.name)
    (list : isArray value = true) : pairOf? head value = some .letMember := by
  subst form
  rw [pairOf?, if_neg (by decide), if_pos rfl, if_pos list]

theorem pairOf?_ref : pairOf? refForm.name string.name = some .refMember := by decide

theorem pairOf?_doc : pairOf? docForm.name string.name = some .docMember := by decide

/-- A member whose value is one token is a plain one. -/
theorem plain_of_pair {head middle value : Token} {pair : Construct}
    (named : middle.name = colon.name) (paired : pairOf? head.name value.name = some pair) :
    ∃ m : Member, m.WellFormed ∧
      pairForest pair (headForest pair head) middle (valueForest pair value) = m.forest ∧
      [head, middle, value] = m.tokens := by
  refine ⟨.plain head middle value, ⟨named, by rw [paired]; rfl⟩, ?_, rfl⟩
  rw [Member.forest, paired]
  rfl

theorem value_of_derives (standard : IsProgramGrammar g) {f : Forest Label} {used : List Token}
    (derived : g.Derives ["value"] f used) :
    (∃ token, (isLiteral token.name = true ∨ isContainer token.name = true) ∧
        f = valueForest .bind token ∧ used = [token]) ∨
      ∃ child, f = choiceOf "value" child ∧ g.Derives [object.name] child used := by
  obtain ⟨term, member, child, rfl, inner⟩ := choice_of_derives standard
    (by decide : _ = some (_, _, ["literal", array.name, emptyArray.name, object.name,
      emptyObject.name])) derived
  have alone : isContainer term = true → programShape.find? (·.1 == term) =
        some (term, leafKind term, []) → term ≠ nullable → isLiteral term = false →
      ∃ token, (isLiteral token.name = true ∨ isContainer token.name = true) ∧
        choiceOf "value" child = valueForest .bind token ∧ used = [token] := by
    intro container listed visible notLiteral
    obtain ⟨token, rfl, rfl, rfl⟩ := leaf_of_derives standard listed visible inner
    refine ⟨token, Or.inr container, ?_, rfl⟩
    rw [valueForest, if_neg (by simp [notLiteral])]
  simp only [List.mem_cons, List.not_mem_nil, or_false] at member
  rcases member with rfl | rfl | rfl | rfl | rfl
  · obtain ⟨token, literal, rfl, rfl⟩ := literal_of_derives standard inner
    refine Or.inl ⟨token, Or.inl literal, ?_, rfl⟩
    rw [valueForest, if_pos literal]
  · exact Or.inl (alone (by decide) (by decide) (by decide) (by decide))
  · exact Or.inl (alone (by decide) (by decide) (by decide) (by decide))
  · exact Or.inr ⟨child, rfl, inner⟩
  · exact Or.inl (alone (by decide) (by decide) (by decide) (by decide))

/-- What is derived as a member is one, by induction on the number of tokens. -/
theorem membersTo (standard : IsProgramGrammar g) (n : Nat) : MembersTo g n := by
  induction n with
  | zero =>
    intro f used few
    exact absurd few (Nat.not_lt_zero _)
  | succ n below =>
    intro f used few derived
    obtain ⟨term, member, child, rfl, inner⟩ := choice_of_derives standard
      (by decide : _ = some (_, _, [bind.name, letMember.name, refMember.name,
        docMember.name])) derived
    simp only [List.mem_cons, List.not_mem_nil, or_false] at member
    rcases member with rfl | rfl | rfl | rfl
    · obtain ⟨_, rfl, inside⟩ := sequence_of_derives standard
        (by decide : _ = some (_, _, ["key", colon.name, "value"])) (Or.inr rfl) inner
      obtain ⟨_, _, _, _, _, _, rfl, rfl, first, second, third⟩ := three_of_derives inside
      obtain ⟨head, key, rfl, rfl⟩ := key_of_derives standard first
      obtain ⟨middle, named, rfl, rfl⟩ := leaf_of_derives standard (by decide) (by decide) second
      rcases value_of_derives standard third with ⟨value, fits, rfl, rfl⟩ | ⟨child, rfl, object⟩
      · exact plain_of_pair named (pairOf?_bind key fits)
      · simp only [List.length_append, List.length_cons, List.length_nil] at few
        obtain ⟨opening, head', others, closing, opens, wellFirst, wellOthers, closes, rfl, rfl⟩ :=
          braced_of_derives standard below (by decide) (by omega) object
        exact ⟨.nested head middle opening head' others closing,
          ⟨key, named, opens, wellFirst, wellOthers, closes⟩, rfl, rfl⟩
    · obtain ⟨_, rfl, inside⟩ := sequence_of_derives standard
        (by decide : _ = some (_, _, [letForm.name, colon.name, "params"])) (Or.inr rfl) inner
      obtain ⟨_, _, _, _, _, _, rfl, rfl, first, second, third⟩ := three_of_derives inside
      obtain ⟨head, form, rfl, rfl⟩ := leaf_of_derives standard (by decide) (by decide) first
      obtain ⟨middle, named, rfl, rfl⟩ := leaf_of_derives standard (by decide) (by decide) second
      obtain ⟨value, list, rfl, rfl⟩ := params_of_derives standard third
      exact plain_of_pair named (pairOf?_let form list)
    · obtain ⟨_, rfl, inside⟩ := sequence_of_derives standard
        (by decide : _ = some (_, _, [refForm.name, colon.name, string.name])) (Or.inr rfl) inner
      obtain ⟨_, _, _, _, _, _, rfl, rfl, first, second, third⟩ := three_of_derives inside
      obtain ⟨head, form, rfl, rfl⟩ := leaf_of_derives standard (by decide) (by decide) first
      obtain ⟨middle, named, rfl, rfl⟩ := leaf_of_derives standard (by decide) (by decide) second
      obtain ⟨value, text, rfl, rfl⟩ := leaf_of_derives standard (by decide) (by decide) third
      exact plain_of_pair named (by rw [form, text]; exact pairOf?_ref)
    · obtain ⟨_, rfl, inside⟩ := sequence_of_derives standard
        (by decide : _ = some (_, _, [docForm.name, colon.name, string.name])) (Or.inr rfl) inner
      obtain ⟨_, _, _, _, _, _, rfl, rfl, first, second, third⟩ := three_of_derives inside
      obtain ⟨head, form, rfl, rfl⟩ := leaf_of_derives standard (by decide) (by decide) first
      obtain ⟨middle, named, rfl, rfl⟩ := leaf_of_derives standard (by decide) (by decide) second
      obtain ⟨value, text, rfl, rfl⟩ := leaf_of_derives standard (by decide) (by decide) third
      exact plain_of_pair named (by rw [form, text]; exact pairOf?_doc)

theorem program_of_derives (standard : IsProgramGrammar g) {f : Forest Label} {used : List Token}
    (derived : g.Derives [document.name] f used) :
    ∃ o : Program, o.WellFormed ∧ f = o.forest ∧ used = o.tokens := by
  obtain ⟨term, member, child, rfl, inner⟩ := choice_of_derives standard
    (by decide : _ = some (_, _, [program.name, emptyObject.name])) derived
  simp only [List.mem_cons, List.not_mem_nil, or_false] at member
  rcases member with rfl | rfl
  · obtain ⟨opening, first, others, closing, opens, wellFirst, wellOthers, closes, rfl, rfl⟩ :=
      braced_of_derives standard (membersTo standard _) (by decide) (Nat.le_succ _) inner
    exact ⟨.members opening first others closing, ⟨opens, wellFirst, wellOthers, closes⟩, rfl, rfl⟩
  · obtain ⟨token, named, rfl, rfl⟩ := leaf_of_derives standard (by decide) (by decide) inner
    exact ⟨.empty token, named, rfl, rfl⟩

theorem not_punctuation_of_pair {head value : String}
    (paired : (pairOf? head value).isSome = true) :
    isPunctuation head = false ∧ isPunctuation value = false := by
  have plain : ∀ n ∈ pairedNames, isPunctuation n = false := by decide
  obtain ⟨first, second⟩ := pairOf?_mem paired
  exact ⟨plain head first, plain value second⟩

theorem not_punctuation_of_key {name : String} (key : isKey name = true) :
    isPunctuation name = false := by
  rcases isKey_iff.1 key with rfl | rfl <;> decide

mutual

theorem Member.WellFormed.framed : ∀ {m : Member}, m.WellFormed → m.Framed
  | .plain .., ⟨named, paired⟩ =>
    ⟨(not_punctuation_of_pair paired).1, named, (not_punctuation_of_pair paired).2⟩
  | .nested .., ⟨key, named, opens, wellFirst, wellOthers, closes⟩ =>
    ⟨not_punctuation_of_key key, named, opens, wellFirst.framed, wellOthers.framed, closes⟩

theorem MemberTail.WellFormed.framed : ∀ {t : MemberTail}, t.WellFormed → t.Framed
  | .nil, _ => trivial
  | .cons .., ⟨named, wellMember, wellOthers⟩ => ⟨named, wellMember.framed, wellOthers.framed⟩

end

theorem Program.WellFormed.framed {o : Program} (wellFormed : o.WellFormed) : o.Framed := by
  cases o with
  | empty token =>
    have named : token.name = emptyObject.name := wellFormed
    change isPunctuation token.name = false
    rw [named]
    decide
  | members opening first others closing =>
    obtain ⟨opens, wellFirst, wellOthers, closes⟩ := wellFormed
    exact ⟨opens, wellFirst.framed, wellOthers.framed, closes⟩

/-- The tree that is built of the tokens of a program. -/
def Program.tree (o : Program) : ParseTree :=
  { nodes := ((o.forest.plant 0).nodes none 0).toArray, root := (o.forest.plant 0).tops.head? }

/-- A tree that is built records a well-formed program. -/
theorem program_of_buildTree (standard : IsProgramGrammar g) {tokens : List Token}
    {tree : ParseTree} (built : g.buildTree tokens = .ok tree) :
    ∃ o : Program, o.WellFormed ∧ tokens = o.tokens ∧ tree = o.tree := by
  obtain ⟨top, place, known, parsed, rest⟩ := Grammar.buildTree_eq_ok built
  obtain ⟨_, used, read, ⟨all, _⟩, rfl⟩ := Grammar.parse_reads known parsed
  rw [rest, List.append_nil] at all
  cases all
  obtain ⟨f, derived, same⟩ := read.records.derivation
  rw [same]
  rw [standard.top] at derived
  obtain ⟨o, wellFormed, rfl, rfl⟩ := program_of_derives standard derived
  exact ⟨o, wellFormed, rfl, rfl⟩

/-- Where punctuation frames a program, the parser accepts it if and only if it is well formed, and
builds its tree. -/
theorem buildTree_eq_ok_iff (standard : IsProgramGrammar g) {o : Program} (framed : o.Framed)
    (tree : ParseTree) :
    g.buildTree o.tokens = .ok tree ↔ o.WellFormed ∧ tree = o.tree := by
  constructor
  · intro built
    obtain ⟨o', wellFormed, same, rfl⟩ := program_of_buildTree standard built
    cases Program.eq_of_tokens framed wellFormed.framed same
    exact ⟨wellFormed, rfl⟩
  · rintro ⟨wellFormed, rfl⟩
    obtain ⟨top, found, _⟩ := standard.find?
      (listed_of_mem_choices (by decide : program.name ∈ choicesOf document.name))
    have ends := standard.ends
    rw [Grammar.followSet_eq found] at ends
    have known : g.find? g.top = some top := standard.top ▸ found
    obtain ⟨tree, built⟩ := ((Grammar.predictive_of_decides standard.decided).buildTree_iff known
      ends o.tokens).2 ⟨o.forest, standard.top ▸ o.derives standard wellFormed⟩
    obtain ⟨o', wellFormed', same, rfl⟩ := program_of_buildTree standard built
    cases Program.eq_of_tokens framed wellFormed'.framed same
    exact built

end AttrGrammar.Procedure
