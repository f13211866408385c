import AttrGrammar.Grammar.Basic
import AttrGrammar.Proofs.Tree.Forest

/-!
What a grammar derives: sequences of terms, with the trees and the tokens that they stand for.

The meaning of a rule is the set of sequences of terms that its right-hand side allows. A terminal
stands for a token of its name, the terminal that reads nothing for no token and no tree, and any
other rule for one tree over a sequence that it allows.
-/

namespace AttrGrammar

/-- The sequences of terms that a right-hand side allows. -/
def RuleBody.Allows : RuleBody → List String → Prop
  | .terminal _, _ | .attrTerminal, _ => False
  | .concatenation terms, sequence | .attrProduction terms, sequence => sequence = terms
  | .alternation terms, sequence => ∃ term ∈ terms, sequence = [term]
  | .repetition term, sequence => ∃ n, sequence = List.replicate n term
  | .option term, sequence => sequence = [] ∨ sequence = [term]

/-- A right-hand side allows only terms that it names. -/
theorem RuleBody.Allows.mem_terms {body : RuleBody} {sequence : List String}
    (allowed : body.Allows sequence) : ∀ term ∈ sequence, term ∈ body.terms := by
  intro term member
  cases body with
  | terminal | attrTerminal => exact allowed.elim
  | concatenation terms | attrProduction terms => exact allowed ▸ member
  | alternation terms =>
    obtain ⟨only, listed, rfl⟩ := allowed
    exact List.mem_singleton.1 member ▸ listed
  | repetition only =>
    obtain ⟨n, rfl⟩ := allowed
    exact List.mem_singleton.2 (List.eq_of_mem_replicate member)
  | option only =>
    rcases allowed with rfl | rfl
    · cases member
    · exact member

/-- A sequence of terms derives trees over tokens. -/
inductive Grammar.Derives (g : Grammar) : List String → Forest Label → List Token → Prop
  | nil : Derives g [] .nil []
  | nothing {rule : Rule} {rest : List String} {trees : Forest Label} {tokens : List Token}
      (known : g.find? nullable = some rule) (terminal : rule.isTerminal = true)
      (others : Derives g rest trees tokens) : Derives g (nullable :: rest) trees tokens
  | token {name : String} {rule : Rule} {token : Token} {rest : List String}
      {trees : Forest Label} {tokens : List Token} (known : g.find? name = some rule)
      (terminal : rule.isTerminal = true) (visible : name ≠ nullable)
      (named : token.name = name) (others : Derives g rest trees tokens) :
      Derives g (name :: rest) (.node (.ofToken token rule.kind) .nil trees) (token :: tokens)
  | node {name : String} {rule : Rule} {sequence rest : List String}
      {children trees : Forest Label} {inside tokens : List Token}
      (known : g.find? name = some rule) (production : rule.isTerminal = false)
      (allowed : rule.body.Allows sequence) (body : Derives g sequence children inside)
      (others : Derives g rest trees tokens) :
      Derives g (name :: rest) (.node (.inner name rule.kind) children trees) (inside ++ tokens)

theorem findRule?_name {rules : List Rule} {name : String} {rule : Rule}
    (found : findRule? rules name = some rule) : rule.name = name := by
  have found := List.find?_some found
  exact eq_of_beq found

namespace Grammar

variable {g : Grammar}

theorem find?_name {name : String} {rule : Rule} (found : g.find? name = some rule) :
    rule.name = name := findRule?_name found

theorem Derives.append {first second : List String} {f h : Forest Label}
    {used after : List Token} (front : g.Derives first f used) (back : g.Derives second h after) :
    g.Derives (first ++ second) (f ++ h) (used ++ after) := by
  induction front with
  | nil => exact back
  | nothing known terminal _ ih => exact .nothing known terminal ih
  | token known terminal visible named _ ih => exact .token known terminal visible named ih
  | node known production allowed body _ _ ih =>
    rw [List.append_assoc]
    exact .node known production allowed body ih

/-- A rule derives what its right-hand side does. -/
theorem exists_derives_iff {name : String} {rule : Rule} {tokens : List Token}
    (known : g.find? name = some rule) (production : rule.isTerminal = false) :
    (∃ f, g.Derives [name] f tokens) ↔
      ∃ sequence children, rule.body.Allows sequence ∧ g.Derives sequence children tokens := by
  constructor
  · rintro ⟨f, derives⟩
    cases derives with
    | nothing found terminal =>
      cases found.symm.trans known
      exact absurd terminal (by simp [production])
    | token found terminal =>
      cases found.symm.trans known
      exact absurd terminal (by simp [production])
    | node found _ allowed body others =>
      cases found.symm.trans known
      cases others
      rw [List.append_nil]
      exact ⟨_, _, allowed, body⟩
  · rintro ⟨sequence, children, allowed, body⟩
    have derives : g.Derives [name] _ (tokens ++ []) := .node known production allowed body .nil
    rw [List.append_nil] at derives
    exact ⟨_, derives⟩

/-- One term derives at most one tree. -/
theorem Derives.single {name : String} {f : Forest Label} {used : List Token}
    (derives : g.Derives [name] f used) :
    f = .nil ∨ ∃ label children, f = .tree label children := by
  cases derives with
  | nothing _ _ others =>
    cases others
    exact Or.inl rfl
  | token _ _ _ _ others =>
    cases others
    exact Or.inr ⟨_, _, rfl⟩
  | node _ _ _ _ others =>
    cases others
    exact Or.inr ⟨_, _, rfl⟩

/-- The leaves of derived trees are the tokens, in order and unchanged. -/
theorem Derives.leaves {sequence : List String} {f : Forest Label} {used : List Token}
    (derives : g.Derives sequence f used) :
    (f.preorder.filter Label.isLeaf).map (fun l => (l.token, l.name, l.attrs)) =
      used.map fun token => (some token, token.name, token.attrs) := by
  induction derives with
  | nil => rfl
  | nothing _ _ _ ih => exact ih
  | token _ _ _ _ _ ih =>
    rw [Forest.preorder, Forest.preorder, List.nil_append,
      List.filter_cons_of_pos (by rfl), List.map_cons, List.map_cons, ih]
    rfl
  | node _ _ _ _ _ ihBody ihOthers =>
    rw [Forest.preorder, List.filter_cons_of_neg (by simp [Label.inner, Label.isLeaf]), List.filter_append,
      List.map_append, List.map_append, ihBody, ihOthers]

end Grammar

end AttrGrammar
