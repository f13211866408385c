import AttrGrammar.Parsing.Descent

/-!
Parsing does not look at attributes.

What is left of a tree without its attributes is the tree of the tokens without theirs: every change
of a growing tree commutes with taking attributes away, and every choice of the parser depends on the
names of tokens only. So the parser goes the same way on bare tokens, and ends with the bare tree or
with the error whose tokens are bare.
-/

namespace AttrGrammar

/-- A token without attributes. -/
def Token.bare (t : Token) : Token := { t with attrs := {} }

/-- A node without attributes, and without those of its token. -/
def Node.bare (n : Node) : Node := { n with token := n.token.map Token.bare, attrs := {} }

/-- A tree without attributes. -/
def ParseTree.bare (t : ParseTree) : ParseTree := { t with nodes := t.nodes.map Node.bare }

def Place.bare (p : Place) : Place := { p with rest := p.rest.map Token.bare }

/-- An error whose tokens have no attributes, so that it has no line either. -/
def ParseError.bare (e : ParseError) : ParseError := { e with tokens := e.tokens.map Token.bare }

namespace ParseTree

theorem bare_node? (t : ParseTree) (id : NodeId) : t.bare.node? id = (t.node? id).map Node.bare :=
  Array.getElem?_map ..

@[simp] theorem bare_empty : ({} : ParseTree).bare = {} := by
  rw [bare, Array.map_empty]

theorem bare_attachPoint (t : ParseTree) : t.bare.attachPoint = t.attachPoint := rfl

theorem bare_levelUnder (t : ParseTree) (parent : Option NodeId) :
    t.bare.levelUnder parent = t.levelUnder parent := by
  cases parent with
  | none => rfl
  | some p =>
    rw [levelUnder, levelUnder, bare_node?]
    cases t.node? p <;> rfl

theorem bare_parent? (t : ParseTree) (id : NodeId) : t.bare.parent? id = t.parent? id := by
  rw [parent?, parent?, bare_node?]
  cases t.node? id <;> rfl

/-- A change that leaves attributes alone. -/
theorem bare_modify {change : Node → Node} (blind : ∀ n, (change n).bare = change n.bare)
    (t : ParseTree) (id : NodeId) : (t.modify id change).bare = t.bare.modify id change := by
  have nodes : (t.nodes.modify id change).map Node.bare =
      (t.nodes.map Node.bare).modify id change := by
    refine Array.ext_getElem? fun i => ?_
    simp only [Array.getElem?_map, Array.getElem?_modify]
    split
    · cases t.nodes[i]? with
      | none => rfl
      | some n => exact congrArg some (blind n)
    · rfl
  rw [bare, modify, nodes]
  rfl

theorem bare_attach (t : ParseTree) (parent : Option NodeId) (child : NodeId) :
    (t.attach parent child).bare = t.bare.attach parent child := by
  cases parent with
  | none => rfl
  | some p => exact bare_modify (fun _ => by rfl) t p

theorem bare_push (t : ParseTree) (n : Node) :
    (t.push n).1 = (t.bare.push n.bare).1 ∧ (t.push n).2.bare = (t.bare.push n.bare).2 := by
  refine ⟨(Array.size_map ..).symm, ?_⟩
  rw [push, push]
  dsimp only
  rw [bare_attach, bare_levelUnder, bare_attachPoint]
  simp only [bare, Array.map_push, Array.size_map]
  rfl

theorem bare_enter (t : ParseTree) (name : String) (kind : RuleKind) :
    (t.enter name kind).2.bare = (t.bare.enter name kind).2 := by
  obtain ⟨id, after⟩ := bare_push t (.inner name kind)
  have same : (Node.inner name kind).bare = .inner name kind := rfl
  rw [same] at id after
  rw [enter, enter]
  dsimp only
  rw [← id, ← after]
  rfl

theorem bare_leaf (t : ParseTree) (token : Token) (kind : RuleKind) :
    (t.leaf token kind).2.bare = (t.bare.leaf token.bare kind).2 :=
  (bare_push t (.ofToken token kind)).2

theorem bare_close (t : ParseTree) : t.close.2.bare = t.bare.close.2 := by
  have active : t.bare.active = t.active := rfl
  rw [close, close, active]
  cases t.active with
  | none => rfl
  | some id =>
    have closed : (t.modify id fun n => { n with isOpen := false }).bare =
        t.bare.modify id fun n => { n with isOpen := false } := bare_modify (fun _ => by rfl) t id
    dsimp only
    rw [bare_parent?, ← closed]
    rfl

theorem bare_merge (t other : ParseTree) : (t.merge other).bare = t.bare.merge other.bare := by
  have root : other.bare.root = other.root := rfl
  rw [merge, merge, root]
  cases other.root with
  | none => rfl
  | some top =>
    have size : t.bare.nodes.size = t.nodes.size := Array.size_map ..
    have moved : other.bare.nodes.map (shifted t.nodes.size (t.levelUnder t.attachPoint)) =
        (other.nodes.map (shifted t.nodes.size (t.levelUnder t.attachPoint))).map Node.bare := by
      rw [bare, Array.map_map, Array.map_map]
      rfl
    dsimp only
    rw [bare_attachPoint, bare_levelUnder, size, moved]
    have grown : ∀ more : Array Node, ({ t with nodes := t.nodes ++ more } : ParseTree).bare =
        { t.bare with nodes := t.bare.nodes ++ more.map Node.bare } := fun more => by
      rw [bare, Array.map_append]
      rfl
    rw [← grown, ← bare_attach]
    cases t.attachPoint with
    | none => rfl
    | some p => exact bare_modify (fun _ => by rfl) _ _

end ParseTree

namespace Parsing

variable {α β : Type} {f : α → α} {k : β → β}

/-- A result without attributes, where `f` takes them from the value. -/
def bareResult (f : α → α) :
    EStateM.Result ParseError ParseTree α → EStateM.Result ParseError ParseTree α
  | .ok a t => .ok (f a) t.bare
  | .error e t => .error e.bare t.bare

/-- One step does on bare trees what the other does on trees. -/
def Erases (f : α → α) (step onBare : ParseM α) : Prop :=
  ∀ t : ParseTree, onBare.run t.bare = bareResult f (step.run t)

theorem erases_pure (a : α) : Erases f (pure a) (pure (f a)) := fun _ => rfl

theorem erases_throw (e : ParseError) : Erases f (throw e) (throw e.bare) := fun _ => rfl

theorem erases_modify {change onBare : ParseTree → ParseTree}
    (blind : ∀ t, (change t).bare = onBare t.bare) : Erases id (modify change) (modify onBare) :=
  fun t => congrArg (EStateM.Result.ok ()) (blind t).symm

theorem Erases.bind {first onBare : ParseM α} (erases : Erases f first onBare)
    {next nextOnBare : α → ParseM β} (later : ∀ a, Erases k (next a) (nextOnBare (f a))) :
    Erases k (first >>= next) (onBare >>= nextOnBare) := by
  intro t
  have here := erases t
  unfold EStateM.run at here ⊢
  simp only [Bind.bind, EStateM.bind, here]
  cases first t with
  | ok a t => exact later a t
  | error e t => rfl

/-- A reader that goes the same way on bare tokens. -/
def Blind (read : Reader) : Prop :=
  ∀ (rule : Rule) (p : Place), Erases Place.bare (read rule p) (read rule p.bare)

/-- A reader on a tree of its own. -/
theorem Blind.trial {read : Reader} (blind : Blind read) (rule : Rule) (p : Place) :
    (read rule p.bare).run {} = bareResult Place.bare ((read rule p).run {}) := by
  have erases := blind rule p {}
  rwa [ParseTree.bare_empty] at erases

theorem lookahead_bare (p : Place) : p.bare.lookahead = p.lookahead := by
  obtain ⟨index, rest⟩ := p
  cases rest <;> rfl

theorem erases_fail {rule : String} {fault : ParseFault} {p : Place} :
    Erases f (fail rule fault p) (fail rule fault p.bare) := fun _ => rfl

variable (g : Grammar) {read : Reader}

theorem erases_resolve (name : String) (p : Place) :
    Erases id (resolve g name p) (resolve g name p.bare) := by
  unfold resolve
  cases g.find? name with
  | none => exact erases_fail
  | some rule => exact erases_pure rule

theorem blind_parseTerminal : Blind parseTerminal := by
  intro rule p
  unfold parseTerminal
  split
  · exact erases_pure p
  · obtain ⟨index, rest⟩ := p
    cases rest with
    | nil => exact erases_fail
    | cons token rest =>
      change Erases _ (if token.name = rule.name then _ else _)
        (if token.name = rule.name then _ else fail _ _ (Place.bare ⟨index, token :: rest⟩))
      split
      · exact (erases_modify fun t => ParseTree.bare_leaf t token rule.kind).bind fun _ =>
          erases_pure (f := Place.bare) ⟨index + 1, rest⟩
      · exact erases_fail

theorem erases_parseSequence (blind : Blind read) (terms : List String) (p : Place) :
    Erases Place.bare (parseSequence g read terms p) (parseSequence g read terms p.bare) := by
  induction terms generalizing p with
  | nil => exact erases_pure p
  | cons term rest ih =>
    exact (erases_resolve g term p).bind fun rule => (blind rule p).bind fun p => ih p

theorem erases_candidates (terms : List String) (p : Place) :
    Erases id (candidates g p terms) (candidates g p.bare terms) := by
  induction terms with
  | nil => exact erases_pure []
  | cons term rest ih =>
    exact (erases_resolve g term p).bind fun rule => ih.bind fun others => erases_pure (rule :: others)

theorem choose_bare (rule : Rule) (terms : List Rule) (p : Place) :
    choose rule terms p.bare = choose rule terms p := by
  obtain ⟨index, rest⟩ := p
  cases rest <;> rfl

theorem erases_parseAlternation (blind : Blind read) (rule : Rule) (terms : List String) (p : Place) :
    Erases Place.bare (parseAlternation g read rule terms p)
      (parseAlternation g read rule terms p.bare) := by
  refine (erases_candidates g terms p).bind fun terms => ?_
  rw [id, choose_bare]
  cases choose rule terms p with
  | ok term => exact blind term p
  | error fault => exact erases_fail

theorem erases_parseOption (blind : Blind read) (rule : Rule) (term : String) (p : Place) :
    Erases Place.bare (parseOption g read rule term p) (parseOption g read rule term p.bare) := by
  refine (erases_resolve g term p).bind fun term => ?_
  rw [id, blind.trial, lookahead_bare]
  cases (read term p).run {} with
  | ok next scratch =>
    exact (erases_modify fun t => ParseTree.bare_merge t scratch).bind fun _ => erases_pure next
  | error e scratch =>
    dsimp only [bareResult]
    split
    · exact erases_pure p
    · exact erases_throw e

theorem erases_parseRounds (blind : Blind read) (rule term : Rule) (rounds : Nat) (p : Place) :
    Erases Place.bare (parseRounds read rule term rounds p)
      (parseRounds read rule term rounds p.bare) := by
  induction rounds generalizing p with
  | zero => exact erases_pure p
  | succ rounds ih =>
    have ended : p.bare.rest.isEmpty = p.rest.isEmpty := List.isEmpty_map ..
    rw [parseRounds, parseRounds, ended, blind.trial, lookahead_bare]
    split
    · exact erases_pure p
    · cases (read term p).run {} with
      | ok next scratch =>
        dsimp only [bareResult]
        change Erases _ _ (if next.index = p.index then _ else _)
        split
        · exact erases_pure p
        · exact (erases_modify fun t => ParseTree.bare_merge t scratch).bind fun _ => ih next
      | error e scratch =>
        dsimp only [bareResult]
        split
        · exact erases_pure p
        · exact erases_throw e

theorem erases_parseRepetition (blind : Blind read) (rule : Rule) (term : String) (p : Place) :
    Erases Place.bare (parseRepetition g read rule term p)
      (parseRepetition g read rule term p.bare) := by
  refine (erases_resolve g term p).bind fun term => ?_
  have length : p.bare.rest.length = p.rest.length := List.length_map ..
  rw [id, length]
  exact erases_parseRounds blind rule term _ p

theorem blind_parseBody (blind : Blind read) : Blind (parseBody g read) := by
  intro rule p
  unfold parseBody
  cases rule.body with
  | terminal | attrTerminal => exact blind_parseTerminal rule p
  | concatenation terms | attrProduction terms => exact erases_parseSequence g blind terms p
  | alternation terms => exact erases_parseAlternation g blind rule terms p
  | repetition term => exact erases_parseRepetition g blind rule term p
  | option term => exact erases_parseOption g blind rule term p

theorem blind_parseRule (fuel : Nat) : Blind (parseRule g fuel) := by
  induction fuel with
  | zero => exact fun rule p => erases_fail
  | succ fuel ih =>
    intro rule p
    rw [parseRule, parseRule]
    split
    · exact blind_parseTerminal rule p
    · exact (erases_modify fun t => ParseTree.bare_enter t rule.name rule.kind).bind fun _ =>
        (blind_parseBody g ih rule p).bind fun next =>
          (erases_modify ParseTree.bare_close).bind fun _ => erases_pure next

end Parsing

open Parsing

theorem Grammar.parse_bare (g : Grammar) (rule : Rule) (tokens : List Token) :
    g.parse rule (tokens.map Token.bare) {} = bareResult Place.bare (g.parse rule tokens {}) := by
  rw [parse, parse, List.length_map]
  exact (blind_parseRule g _).trial rule (.start tokens)

/-- Building a tree of bare tokens. -/
theorem Grammar.buildTree_bare (g : Grammar) (tokens : List Token) :
    g.buildTree (tokens.map Token.bare) =
      ((g.buildTree tokens).map ParseTree.bare).mapError ParseError.bare := by
  rw [buildTree, buildTree]
  cases g.find? g.top with
  | none => rfl
  | some top =>
    dsimp only
    rw [g.parse_bare]
    cases g.parse top tokens {} with
    | error e t => rfl
    | ok p t =>
      obtain ⟨index, rest⟩ := p
      cases rest <;> rfl

end AttrGrammar
