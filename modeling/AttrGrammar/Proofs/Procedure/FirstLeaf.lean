import AttrGrammar.Grammar.Draft
import AttrGrammar.Parsing.Descent
import AttrGrammar.Procedure.Canonical
import AttrGrammar.Procedure.Symbols
import AttrGrammar.Proofs.Outcome
import AttrGrammar.Proofs.Tree.Ancestry
import AttrGrammar.Proofs.Tree.Order

/-!
The first token of a node.

The way down first children ends at a leaf or at an inner node that has no children, such as an
option leaves that read nothing. If it ends at a leaf, that is the first of the leaves under the
node, and lines and blanks are taken from it. Otherwise no leaf is found, although there may be
leaves under later children.
-/

namespace AttrGrammar

open Forest Relation

namespace ParseTree

variable {t : ParseTree} {parent : Option NodeId} {level : Nat} {f : Planted} {id last : NodeId}

/-- The way down first children, through inner nodes. -/
def Leftmost (t : ParseTree) : NodeId → NodeId → Prop :=
  ReflTransGen fun p c => t.isLeaf p = false ∧ (t.children p).head? = some c

/-- Where the way down first children ends. -/
structure LeftEnd (t : ParseTree) (id last : NodeId) : Prop where
  way : t.Leftmost id last
  ends : t.isLeaf last = true ∨ t.children last = []

theorem LeftEnd.refl (ends : t.isLeaf id = true ∨ t.children id = []) : t.LeftEnd id id :=
  ⟨.refl, ends⟩

theorem LeftEnd.head {c : NodeId} (inner : t.isLeaf id = false)
    (first : (t.children id).head? = some c) (left : t.LeftEnd c last) : t.LeftEnd id last :=
  ⟨.head ⟨inner, first⟩ left.way, left.ends⟩

/-- From a node the way goes on to its first child or ends. -/
theorem leftEnd_iff : t.LeftEnd id last ↔
    if t.isLeaf id = true ∨ t.children id = [] then last = id
    else ∃ c, (t.children id).head? = some c ∧ t.LeftEnd c last := by
  split
  · next ends =>
    constructor
    · rintro ⟨way, -⟩
      rcases way.cases_head with rfl | ⟨c, ⟨inner, first⟩, -⟩
      · rfl
      · rcases ends with leaf | bare
        · cases inner.symm.trans leaf
        · rw [bare] at first
          cases first
    · rintro rfl
      exact .refl ends
  · next goes =>
    obtain ⟨inner, -⟩ := not_or.1 goes
    constructor
    · rintro ⟨way, ends⟩
      rcases way.cases_head with rfl | ⟨c, ⟨-, first⟩, rest⟩
      · exact absurd ends goes
      · exact ⟨c, first, rest, ends⟩
    · rintro ⟨c, first, left⟩
      exact .head (Bool.eq_false_iff.2 inner) first left

theorem Holds.isLeaf {k : NodeId} {l : Label} {children rest : Planted}
    (held : t.Holds parent level (node (k, l) children rest)) : t.isLeaf k = l.isLeaf := by
  rw [ParseTree.isLeaf, held.1]
  rfl

/-- In a planted forest the way from its first tree ends at one node. A leaf there is the first leaf
of the forest. -/
theorem Holds.exists_leftEnd (held : t.Holds parent level f) {top : NodeId}
    (first : f.tops.head? = some top) :
    ∃ last, (∀ other, t.LeftEnd top other ↔ other = last) ∧
      firstLeafOf f = (if t.isLeaf last then some last else none) ∧
      (t.isLeaf last = true → (f.places.filter t.isLeaf).head? = some last) := by
  induction f generalizing parent level top with
  | nil => cases first
  | node entry children rest ih _ =>
    obtain ⟨k, l⟩ := entry
    cases first
    by_cases leaf : t.isLeaf k = true
    · refine ⟨k, fun other => ?_, ?_, fun _ => ?_⟩
      · rw [leftEnd_iff, if_pos (.inl leaf)]
      · rw [firstLeafOf, ← held.isLeaf, if_pos leaf, if_pos leaf]
      · rw [places_node, List.filter_cons_of_pos leaf]
        rfl
    · have inner : firstLeafOf (node (k, l) children rest) = firstLeafOf children := by
        rw [firstLeafOf, ← held.isLeaf, if_neg leaf]
      cases below : children.tops.head? with
      | none =>
        obtain rfl : children = nil := eq_nil_of_tops (List.head?_eq_none_iff.1 below)
        refine ⟨k, fun other => ?_, ?_, fun there => absurd there leaf⟩
        · rw [leftEnd_iff, if_pos (.inr held.children_eq)]
        · rw [inner, if_neg leaf]
          rfl
      | some c =>
        obtain ⟨last, only, found, among⟩ := ih held.2.1 below
        have goes : ¬ (t.isLeaf k = true ∨ t.children k = []) := by
          rintro (here | bare)
          · exact leaf here
          · rw [← held.children_eq, bare] at below
            cases below
        refine ⟨last, fun other => ?_, inner.trans found, fun there => ?_⟩
        · rw [leftEnd_iff, if_neg goes, held.children_eq, below]
          simp only [Option.some.injEq, exists_eq_left', only]
        · rw [places_node, List.filter_cons_of_neg leaf, List.filter_append, List.head?_append,
            among there]
          rfl

@[simp] theorem isLeaf_shut (t : ParseTree) (id : NodeId) : t.shut.isLeaf id = t.isLeaf id := by
  rw [isLeaf, isLeaf, node?_shut]
  cases t.node? id <;> rfl

@[simp] theorem leaves_shut (t : ParseTree) (id : NodeId) : t.shut.leaves id = t.leaves id := by
  rw [leaves, leaves, below, below, size_shut, preOrderFrom_shut, funext (isLeaf_shut t)]

@[simp] theorem firstLeaf?_shut (t : ParseTree) (id : NodeId) :
    t.shut.firstLeaf? id = t.firstLeaf? id := by
  have walk : ∀ fuel, t.shut.firstLeafFrom fuel = t.firstLeafFrom fuel := by
    intro fuel
    induction fuel with
    | zero => rfl
    | succ fuel ih =>
      funext id
      rw [firstLeafFrom, firstLeafFrom, isLeaf_shut, children_shut, ih]
  rw [firstLeaf?, firstLeaf?, size_shut, walk]

@[simp] theorem leftEnd_shut (t : ParseTree) (id last : NodeId) :
    t.shut.LeftEnd id last ↔ t.LeftEnd id last := by
  have ways : t.shut.Leftmost = t.Leftmost := by
    unfold Leftmost
    simp only [isLeaf_shut, children_shut]
  constructor
  · intro ⟨way, ends⟩
    rw [ways] at way
    rw [isLeaf_shut, children_shut] at ends
    exact ⟨way, ends⟩
  · intro ⟨way, ends⟩
    rw [← ways] at way
    rw [← isLeaf_shut, ← children_shut] at ends
    exact ⟨way, ends⟩

theorem Holds.firstLeaf? (held : t.Holds parent level f) (distinct : f.places.Nodup)
    (member : id ∈ f.places) :
    ∃ last, (∀ other, t.LeftEnd id other ↔ other = last) ∧
      t.firstLeaf? id = (if t.isLeaf last then some last else none) ∧
      (t.isLeaf last = true → (t.leaves id).head? = some last) := by
  obtain ⟨l, above, depth, held⟩ := held.tree_under member
  have enough := held.size_le (nodup_tree_under distinct id l)
  obtain ⟨last, only, found, among⟩ := held.exists_leftEnd rfl
  have walk : t.leaves id = (tree (id, l) (f.under id)).places.filter t.isLeaf :=
    congrArg (List.filter t.isLeaf) (preOrderFrom_tops held _ enough)
  exact ⟨last, only, (firstLeafFrom_holds held enough).trans found, walk ▸ among⟩

theorem Carries.firstLeaf? (carries : t.Carries f) (member : id ∈ f.places) :
    ∃ last, (∀ other, t.LeftEnd id other ↔ other = last) ∧
      t.firstLeaf? id = (if t.isLeaf last then some last else none) ∧
      (t.isLeaf last = true → (t.leaves id).head? = some last) := by
  have walk := carries.held.firstLeaf? carries.distinct member
  simpa only [leftEnd_shut, firstLeaf?_shut, isLeaf_shut, leaves_shut] using walk

end ParseTree

namespace Parsing

open ParseTree

/-- The tree that a step leaves. -/
def treeOf {α : Type} : EStateM.Result ParseError ParseTree α → ParseTree
  | .ok _ t | .error _ t => t

/-- Whether a step builds on any tree that is built. -/
def Builds {α : Type} (step : ParseM α) : Prop :=
  ∀ t, Built (fun _ => True) t → Built (fun _ => True) (treeOf (step t))

variable {α β : Type}

theorem builds_pure (a : α) : Builds (pure a) := fun _ built => built

theorem builds_throw (e : ParseError) : Builds (throw e : ParseM α) := fun _ built => built

theorem builds_modify {change : ParseTree → ParseTree}
    (builds : ∀ t, Built (fun _ => True) t → Built (fun _ => True) (change t)) :
    Builds (modify change) := builds

theorem Builds.bind {first : ParseM α} (builds : Builds first) {next : α → ParseM β}
    (later : ∀ a, Builds (next a)) : Builds (first >>= next) := by
  intro t built
  have between := builds t built
  simp only [Bind.bind, EStateM.bind]
  cases done : first t with
  | ok a after => exact later a after (by rwa [done] at between)
  | error e after => rwa [done] at between

/-- What a reader leaves of the empty tree may be merged. -/
theorem Builds.merge {read : ParseM α} (builds : Builds read) {a : α} {scratch : ParseTree}
    (tried : read.run {} = .ok a scratch) : Builds (modify (·.merge scratch)) := by
  have scratches := builds {} .empty
  have tried : read {} = .ok a scratch := tried
  rw [tried] at scratches
  exact builds_modify fun t built => built.merge scratches trivial

variable {g : Grammar} {read : Reader}

theorem builds_resolve (name : String) (p : Place) : Builds (resolve g name p) := by
  unfold resolve
  split
  · exact builds_pure _
  · exact builds_throw _

theorem builds_parseTerminal (rule : Rule) (p : Place) : Builds (parseTerminal rule p) := by
  unfold parseTerminal
  split
  · exact builds_pure p
  · split
    · next token rest _ =>
      split
      · exact (builds_modify fun t built => built.leaf token rule.kind).bind fun _ => builds_pure _
      · exact builds_throw _
    · exact builds_throw _

theorem builds_candidates (terms : List String) (p : Place) : Builds (candidates g p terms) := by
  induction terms with
  | nil => exact builds_pure []
  | cons term rest ih =>
    exact (builds_resolve term p).bind fun rule => ih.bind fun others => builds_pure (rule :: others)

section Readers

variable (builds : ∀ rule p, Builds (read rule p))

include builds

theorem builds_parseSequence (terms : List String) (p : Place) :
    Builds (parseSequence g read terms p) := by
  induction terms generalizing p with
  | nil => exact builds_pure p
  | cons term rest ih => exact (builds_resolve term p).bind fun rule => (builds rule p).bind ih

theorem builds_parseAlternation (rule : Rule) (terms : List String) (p : Place) :
    Builds (parseAlternation g read rule terms p) := by
  refine (builds_candidates terms p).bind fun terms => ?_
  cases choose rule terms p with
  | ok term => exact builds term p
  | error fault => exact builds_throw _

theorem builds_parseOption (rule : Rule) (term : String) (p : Place) :
    Builds (parseOption g read rule term p) := by
  refine (builds_resolve term p).bind fun term => ?_
  cases tried : (read term p).run {} with
  | ok next scratch => exact ((builds term p).merge tried).bind fun _ => builds_pure next
  | error e scratch =>
    dsimp only
    split
    · exact builds_pure p
    · exact builds_throw e

theorem builds_parseRounds (rule term : Rule) (rounds : Nat) (p : Place) :
    Builds (parseRounds read rule term rounds p) := by
  induction rounds generalizing p with
  | zero => exact builds_pure p
  | succ rounds ih =>
    rw [parseRounds]
    split
    · exact builds_pure p
    · cases tried : (read term p).run {} with
      | ok next scratch =>
        dsimp only
        split
        · exact builds_pure p
        · exact ((builds term p).merge tried).bind fun _ => ih next
      | error e scratch =>
        dsimp only
        split
        · exact builds_pure p
        · exact builds_throw e

theorem builds_parseBody (rule : Rule) (p : Place) : Builds (parseBody g read rule p) := by
  unfold parseBody
  cases rule.body with
  | terminal | attrTerminal => exact builds_parseTerminal rule p
  | concatenation terms | attrProduction terms => exact builds_parseSequence builds terms p
  | alternation terms => exact builds_parseAlternation builds rule terms p
  | repetition term =>
    exact (builds_resolve term p).bind fun term => builds_parseRounds builds rule term _ p
  | option term => exact builds_parseOption builds rule term p

end Readers

theorem builds_parseRule (fuel : Nat) (rule : Rule) (p : Place) : Builds (parseRule g fuel rule p) := by
  induction fuel generalizing rule p with
  | zero => exact builds_throw _
  | succ fuel ih =>
    rw [parseRule]
    split
    · exact builds_parseTerminal rule p
    · exact (builds_modify fun t built => built.enter rule.name rule.kind).bind fun _ =>
        (builds_parseBody ih rule p).bind fun next =>
          (builds_modify fun t built => built.close).bind fun _ => builds_pure next

end Parsing

/-- Parsing takes steps that build trees. -/
theorem Grammar.built_of_buildTree {g : Grammar} {tokens : List Token} {t : ParseTree}
    (parsed : g.buildTree tokens = .ok t) : ParseTree.Built (fun _ => True) t := by
  unfold Grammar.buildTree at parsed
  split at parsed
  · cases parsed
  · next top _ =>
    have built := Parsing.builds_parseRule (g := g) (g.rules.length * (tokens.length + 1) + 1) top
      (.start tokens) {} .empty
    split at parsed
    · cases parsed
    · next p after done =>
      have done : Parsing.parseRule g (g.rules.length * (tokens.length + 1) + 1) top (.start tokens)
        {} = .ok p after := done
      rw [done] at built
      split at parsed
      · cases parsed
        exact built
      · cases parsed

namespace ParseTree

/-- The trees that are built step by step or parsed. -/
def Made (t : ParseTree) : Prop :=
  Built (fun _ => True) t ∨ ∃ (g : Grammar) (tokens : List Token), g.buildTree tokens = .ok t

theorem Made.carries {t : ParseTree} (made : t.Made) : ∃ f, t.Carries f := by
  rcases made with built | ⟨g, tokens, parsed⟩
  · exact built.invariant.1
  · exact (Grammar.built_of_buildTree parsed).invariant.1

/-- The way down first children from a node ends at one node. A leaf there is both what is found and
the first of the leaves; otherwise nothing is found. So what is found is the first of the leaves just
if the way ends at a leaf or there are no leaves, and then lines and blanks are taken from it. -/
theorem firstLeaf?_of_made {t : ParseTree} (made : t.Made) {id : NodeId}
    (reachable : t.Reachable id) :
    ∃ last, (∀ other, t.LeftEnd id other ↔ other = last) ∧
      (∀ leaf, t.firstLeaf? id = some leaf ↔ leaf = last ∧ t.isLeaf last = true) ∧
      (∀ leaf, t.firstLeaf? id = some leaf → (t.leaves id).head? = some leaf) ∧
      (t.firstLeaf? id = (t.leaves id).head? ↔ t.isLeaf last = true ∨ t.leaves id = []) ∧
      (t.isLeaf last = true ∨ t.leaves id = [] →
        Procedure.lineOf t id = (t.leaves id).head?.bind
          (fun leaf => (t.node? leaf).bind (·.attrs.line?)) ∧
        ∀ layout, Procedure.pad layout t id = layout.indent (((t.leaves id).head?.bind
          fun leaf => (t.node? leaf).bind (·.attrs.indent?)).getD 0)) := by
  obtain ⟨f, carries⟩ := made.carries
  have member : id ∈ f.places :=
    carries.mem_places_iff.2 ((carries.represents.reached id).2 reachable)
  obtain ⟨last, only, found, among⟩ := carries.firstLeaf? member
  have same : t.firstLeaf? id = (t.leaves id).head? ↔ t.isLeaf last = true ∨ t.leaves id = [] := by
    rw [found]
    by_cases leaf : t.isLeaf last = true
    · rw [if_pos leaf, among leaf]
      exact ⟨fun _ => .inl leaf, fun _ => rfl⟩
    · rw [if_neg leaf, eq_comm, List.head?_eq_none_iff, or_iff_right leaf]
  refine ⟨last, only, fun leaf => ?_, fun leaf here => ?_, same, fun agree => ?_⟩
  · rw [found]
    split
    · next ends => rw [Option.some.injEq, eq_comm, and_iff_left ends]
    · next ends => exact ⟨nofun, fun there => absurd there.2 ends⟩
  · rw [found] at here
    split at here
    · next ends =>
      cases here
      exact among ends
    · cases here
  · have same := same.2 agree
    exact ⟨by rw [Procedure.lineOf, same], fun layout => by rw [Procedure.pad, same]⟩

/-- Numbers whose sign may be left out. -/
def signedNumbers : Except GrammarError Grammar := do
  let d ← ({} : Draft).addTerminal "sign" "sign"
  let d ← d.addTerminal "digit" "digit"
  let d ← d.addOption "maybe_sign" "sign"
  let d ← d.addConcatenation "number" ["maybe_sign", "digit"]
  d.build "numbers" none

/-- The tree of tokens with these names. -/
def numberOf (names : List String) : Except String ParseTree := do
  let g ← signedNumbers.mapError GrammarError.message
  (g.buildTree (names.map fun name => { name, lexeme := name, attrs := {} })).mapError
    ParseError.message

theorem made_of_numberOf {names : List String} {t : ParseTree} (parsed : numberOf names = .ok t) :
    t.Made := by
  obtain ⟨g, _, built⟩ := except_bind_eq_ok.1 parsed
  exact .inr ⟨g, _, ok_of_mapError built⟩

theorem firstLeaf?_of_made_signed : ∃ t : ParseTree, t.Made ∧ t.Reachable 0 ∧
    t.outline = "(number (maybe_sign sign) digit)" ∧ t.firstLeaf? 0 = some 2 ∧
    (t.leaves 0).head? = some 2 := by
  have parsed : (numberOf ["sign", "digit"]).toOption.any (fun t => decide (t.root = some 0 ∧
      t.outline = "(number (maybe_sign sign) digit)" ∧ t.firstLeaf? 0 = some 2)) = true := by
    decide +kernel
  obtain ⟨t, parsed, facts⟩ := exists_ok_of_any parsed
  obtain ⟨root, outline, found⟩ := of_decide_eq_true facts
  have made := made_of_numberOf parsed
  have reachable : t.Reachable 0 := ⟨0, root, .refl⟩
  obtain ⟨_, _, _, first, _⟩ := firstLeaf?_of_made made reachable
  exact ⟨t, made, reachable, outline, found, first 2 found⟩

/-- Where the sign is left out, the way down ends at the option, before the digit. -/
theorem firstLeaf?_misses : ∃ t : ParseTree, t.Made ∧ t.Reachable 0 ∧
    t.outline = "(number maybe_sign digit)" ∧ t.firstLeaf? 0 = none ∧ t.leaves 0 = [2] := by
  have parsed : (numberOf ["digit"]).toOption.any (fun t => decide (t.root = some 0 ∧
      t.outline = "(number maybe_sign digit)" ∧ t.firstLeaf? 0 = none ∧ t.leaves 0 = [2])) = true := by
    decide +kernel
  obtain ⟨t, parsed, facts⟩ := exists_ok_of_any parsed
  obtain ⟨root, facts⟩ := of_decide_eq_true facts
  exact ⟨t, made_of_numberOf parsed, ⟨0, root, .refl⟩, facts⟩

end ParseTree

end AttrGrammar
