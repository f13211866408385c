import AttrGrammar.Parsing.Descent
import AttrGrammar.Proofs.Parsing.Derivation

/-!
Derivations and the stored sets of a grammar.

Where the FIRST and FOLLOW sets of a grammar are closed under their equations, what is derived shows
in them: a sequence that reads nothing can read nothing by the sets, the first token of a sequence is
in its FIRST set, and the token after any occurrence of a rule is in its FOLLOW set.
-/

namespace AttrGrammar

/-- The name that a parser sees at the start of some tokens. -/
def ahead (tokens : List Token) : String := (Place.mk 0 tokens).lookahead

namespace Grammar

/-- The stored FIRST set of a name. -/
def firstSet (g : Grammar) (name : String) : NameSet := (g.find? name).elim ∅ Rule.first

/-- The stored FOLLOW set of a name. -/
def followSet (g : Grammar) (name : String) : NameSet := (g.find? name).elim ∅ Rule.follow

/-- Every term of a sequence can read nothing. -/
def Vanishes (g : Grammar) (sequence : List String) : Prop :=
  ∀ term ∈ sequence, nullable ∈ g.firstSet term

/-- By the FIRST sets, a sequence of terms can stand where the next token is called `next`, when
`after` are the names that can come after the sequence. -/
def Meets (g : Grammar) (next : String) (after : NameSet) : List String → Prop
  | [] => next ∈ after
  | term :: rest =>
    next ∈ g.firstSet term ∨ nullable ∈ g.firstSet term ∧ g.Meets next after rest

/-- The FIRST and FOLLOW sets of a grammar are closed under their equations. -/
structure Analysed (g : Grammar) : Prop where
  known : ∀ {name rule}, g.find? name = some rule →
    ∀ term ∈ rule.terms, ∃ r, g.find? term = some r
  terminal : ∀ {name rule}, g.find? name = some rule → rule.isTerminal = true →
    name ∈ rule.first
  first : ∀ {name rule sequence next}, g.find? name = some rule → rule.body.Allows sequence →
    next ≠ nullable → g.Meets next ∅ sequence → next ∈ rule.first
  vanishing : ∀ {name rule sequence}, g.find? name = some rule → rule.body.Allows sequence →
    g.Vanishes sequence → nullable ∈ rule.first
  follow : ∀ {name rule before term after next}, g.find? name = some rule →
    rule.body.Allows (before ++ term :: after) → next ≠ nullable →
    g.Meets next rule.follow after → next ∈ g.followSet term

variable {g : Grammar}

theorem firstSet_eq {name : String} {rule : Rule} (found : g.find? name = some rule) :
    g.firstSet name = rule.first := by
  rw [firstSet, found]
  rfl

theorem followSet_eq {name : String} {rule : Rule} (found : g.find? name = some rule) :
    g.followSet name = rule.follow := by
  rw [followSet, found]
  rfl

theorem Meets.cons_of_vanishes {next : String} {after : NameSet} {sequence : List String}
    (vanishes : g.Vanishes sequence) (ends : next ∈ after) : g.Meets next after sequence := by
  induction sequence with
  | nil => exact ends
  | cons term rest ih =>
    refine Or.inr ⟨vanishes term List.mem_cons_self, ih fun t member => ?_⟩
    exact vanishes t (List.mem_cons_of_mem _ member)

theorem Meets.mono {next : String} {first second : NameSet} {sequence : List String}
    (grows : next ∈ first → next ∈ second) (meets : g.Meets next first sequence) :
    g.Meets next second sequence := by
  induction sequence with
  | nil => exact grows meets
  | cons term rest ih =>
    rcases meets with here | ⟨silent, later⟩
    · exact Or.inl here
    · exact Or.inr ⟨silent, ih later⟩

/-- The first term of a sequence has its own share of the trees and tokens. -/
theorem Derives.uncons {term : String} {rest : List String} {f : Forest Label}
    {used : List Token} (derives : g.Derives (term :: rest) f used) :
    ∃ front back here later, f = front ++ back ∧ used = here ++ later ∧
      g.Derives [term] front here ∧ g.Derives rest back later := by
  cases derives with
  | nothing known terminal others =>
    exact ⟨.nil, _, [], _, rfl, rfl, .nothing known terminal .nil, others⟩
  | token known terminal visible named others =>
    exact ⟨.tree _ .nil, _, [_], _, rfl, rfl, .token known terminal visible named .nil, others⟩
  | node known production allowed body others =>
    have single := Derives.node known production allowed body .nil
    rw [List.append_nil] at single
    exact ⟨.tree _ _, _, _, _, rfl, rfl, single, others⟩

theorem Derives.visible {sequence : List String} {f : Forest Label} {used : List Token}
    (derives : g.Derives sequence f used) : ∀ token ∈ used, token.name ≠ nullable := by
  induction derives with
  | nil => simp
  | nothing _ _ _ ih => exact ih
  | token _ _ visible named _ ih =>
    intro token member
    rcases List.mem_cons.1 member with rfl | later
    · exact named ▸ visible
    · exact ih token later
  | node _ _ _ _ _ ihBody ihOthers =>
    intro token member
    rcases List.mem_append.1 member with inside | later
    · exact ihBody token inside
    · exact ihOthers token later

/-- What reads nothing can read nothing by the FIRST sets. -/
theorem Derives.vanishes (analysed : g.Analysed) {sequence : List String}
    {f : Forest Label} {used : List Token} (derives : g.Derives sequence f used)
    (nothing : used = []) : g.Vanishes sequence := by
  induction derives with
  | nil => simp [Vanishes]
  | nothing known terminal _ ih =>
    intro term member
    rcases List.mem_cons.1 member with rfl | later
    · rw [firstSet_eq known]
      exact analysed.terminal known terminal
    · exact ih nothing term later
  | token => cases nothing
  | node known _ allowed _ _ ihBody ihOthers =>
    obtain ⟨inside, others⟩ := List.append_eq_nil_iff.1 nothing
    intro term member
    rcases List.mem_cons.1 member with rfl | later
    · rw [firstSet_eq known]
      exact analysed.vanishing known allowed (ihBody inside)
    · exact ihOthers others term later

/-- The first token that a sequence reads is in its FIRST set. -/
theorem Derives.begins (analysed : g.Analysed) {sequence : List String}
    {f : Forest Label} {used : List Token} (derives : g.Derives sequence f used)
    {token : Token} {later : List Token} (split : used = token :: later) :
    g.Meets token.name ∅ sequence := by
  induction derives generalizing later with
  | nil => cases split
  | nothing known terminal _ ih =>
    refine Or.inr ⟨?_, ih split⟩
    rw [firstSet_eq known]
    exact analysed.terminal known terminal
  | token known terminal _ named _ _ =>
    cases split
    left
    rw [firstSet_eq known, named]
    exact analysed.terminal known terminal
  | @node name rule sequence rest children trees inside tokens known _ allowed body others ihBody
      ihOthers =>
    cases inside with
    | nil =>
      refine Or.inr ⟨?_, ihOthers split⟩
      rw [firstSet_eq known]
      exact analysed.vanishing known allowed (body.vanishes analysed rfl)
    | cons head tail =>
      obtain ⟨rfl, _⟩ := List.cons.inj split
      left
      rw [firstSet_eq known]
      exact analysed.first known allowed (body.visible _ List.mem_cons_self) (ihBody rfl)

/-- A derived sequence meets the token that comes next, in it or after it. -/
theorem Derives.meets (analysed : g.Analysed) {sequence : List String}
    {f : Forest Label} {used rest : List Token} {after : NameSet}
    (derives : g.Derives sequence f used) (follows : ahead rest ∈ after) :
    g.Meets (ahead (used ++ rest)) after sequence := by
  cases used with
  | nil => exact .cons_of_vanishes (derives.vanishes analysed rfl) follows
  | cons token later => exact (derives.begins analysed rfl).mono (by simp)

theorem Derives.ahead_ne {sequence : List String} {f : Forest Label} {used rest : List Token}
    (derives : g.Derives sequence f used) (real : ahead rest ≠ nullable) :
    ahead (used ++ rest) ≠ nullable := by
  cases used with
  | nil => exact real
  | cons token later => exact derives.visible token List.mem_cons_self

/-- An occurrence of `name` in a derivation, with the tokens that come after what it derives. -/
inductive Occurs (g : Grammar) (name : String) :
    List String → Forest Label → List Token → List Token → Prop
  | here {rest : List String} {front back : Forest Label} {used others : List Token}
      (first : g.Derives [name] front used) (later : g.Derives rest back others) :
      Occurs g name (name :: rest) (front ++ back) (used ++ others) others
  | later {term : String} {rest : List String} {front back : Forest Label}
      {used tokens following : List Token} (first : g.Derives [term] front used)
      (occurs : Occurs g name rest back tokens following) :
      Occurs g name (term :: rest) (front ++ back) (used ++ tokens) following
  | inside {term : String} {rule : Rule} {sequence rest : List String}
      {children trees : Forest Label} {used tokens following : List Token}
      (known : g.find? term = some rule) (production : rule.isTerminal = false)
      (allowed : rule.body.Allows sequence)
      (occurs : Occurs g name sequence children used following)
      (others : g.Derives rest trees tokens) :
      Occurs g name (term :: rest) (.node (.inner term rule.kind) children trees)
        (used ++ tokens) (following ++ tokens)

/-- A sequence in which a name occurs is derived as a whole. -/
theorem Occurs.derives {name : String} {sequence : List String} {f : Forest Label}
    {tokens following : List Token} (occurs : g.Occurs name sequence f tokens following) :
    g.Derives sequence f tokens := by
  induction occurs with
  | here first later => exact first.append later
  | later first _ ih => exact first.append ih
  | inside known production allowed _ others ih => exact .node known production allowed ih others

/-- The FOLLOW sets of the terms of a sequence hold what can come after them, when `after` are the
names that can come after the sequence. -/
def Covers (g : Grammar) (after : NameSet) (sequence : List String) : Prop :=
  ∀ before term others next, sequence = before ++ term :: others → next ≠ nullable →
    g.Meets next after others → next ∈ g.followSet term

theorem Covers.tail {after : NameSet} {term : String} {rest : List String}
    (covers : g.Covers after (term :: rest)) : g.Covers after rest :=
  fun before other others next split =>
    covers (term :: before) other others next (congrArg (term :: ·) split)

theorem Occurs.ahead_mem (analysed : g.Analysed) {name : String} {sequence : List String}
    {f : Forest Label} {tokens following : List Token}
    (occurs : g.Occurs name sequence f tokens following) {after : NameSet} {rest : List Token}
    (covers : g.Covers after sequence) (follows : ahead rest ∈ after)
    (real : ahead rest ≠ nullable) : ahead (following ++ rest) ∈ g.followSet name := by
  induction occurs generalizing after rest with
  | here _ later =>
    exact covers [] _ _ _ rfl (later.ahead_ne real) (later.meets analysed follows)
  | later _ _ ih => exact ih covers.tail follows real
  | @inside term rule _ _ _ _ _ _ _ known _ allowed _ others ih =>
    have next := covers [] term _ _ rfl (others.ahead_ne real) (others.meets analysed follows)
    rw [followSet_eq known] at next
    rw [List.append_assoc]
    exact ih (fun before other rest' x split => analysed.follow known (split ▸ allowed)) next
      (others.ahead_ne real)

/-- The token right after an occurrence of a rule is in its FOLLOW set, and so is the end of the input
after the last token. -/
theorem Occurs.follow (analysed : g.Analysed) (ends : endOfInput ∈ g.followSet g.top)
    {name : String} {f : Forest Label} {tokens following : List Token}
    (occurs : g.Occurs name [g.top] f tokens following) :
    ahead following ∈ g.followSet name := by
  have covers : g.Covers (.singleton endOfInput) [g.top] := by
    intro before term others next split _ meets
    cases before with
    | nil =>
      obtain ⟨rfl, rfl⟩ := List.cons.inj split
      exact NameSet.mem_singleton.1 meets ▸ ends
    | cons first before => simp at split
  have last := occurs.ahead_mem analysed covers
    (NameSet.mem_singleton.2 (rfl : ahead [] = endOfInput)) (by decide)
  rwa [List.append_nil] at last

end Grammar

end AttrGrammar
