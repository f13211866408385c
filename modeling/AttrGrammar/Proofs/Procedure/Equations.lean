import AttrGrammar.Proofs.Procedure.Rendering
import AttrGrammar.Proofs.Tree.Bulk

/-!
Scopes and renderings solve their equations.

Evaluation solves the equations of all attributions whose hooks look only at what comes before in the
tree. Scopes look at the parent, renderings at the children and at first leaves; so the attributions
of the language are of this kind, one by one and together.
-/

namespace AttrGrammar.Procedure

open ParseTree

variable {g : Attribution} {t : ParseTree}

theorem made_tokenizerOf (l : Language) : (tokenizerOf l).Made :=
  ((Attribution.Made.new "tokenizer" l).declare
    { attr := .line, kind := .synthesized
      tokenHook := some fun _ context => some (.int context.line) }).declare
    { attr := .indent, kind := .synthesized
      tokenHook := some fun _ context => some (.int context.depth) }

/-- Without hooks on nodes there is nothing to look at. -/
theorem orderly_tokenizerOf (l : Language) (t : ParseTree) : (tokenizerOf l).Orderly t := by
  have hookless : ∀ decl ∈ (tokenizerOf l).decls, decl.nodeHook = .none := by
    simp [tokenizerOf]
  constructor <;> intro decl listed hook runs _ <;> rw [hookless decl listed] at runs <;> cases runs

theorem made_semantic (made : g.Made) : (semantic g).Made := (made.derive _).declare _

theorem made_printer (made : g.Made) (layout : Layout) : (printer g layout).Made :=
  (made.derive _).declare _

theorem orderly_semantic (orderly : g.Orderly t) : (semantic g).Orderly t := by
  refine (orderly.derive "semantic").declare (fun hook runs _ => ?_) nofun
  cases runs
  exact readsOnly_scope t

theorem orderly_printer (orderly : g.Orderly t) (layout : Layout) {f : Planted}
    (rooted : t.Rooted f) : (printer g layout).Orderly t := by
  refine (orderly.derive "printer").declare nofun fun hook runs _ => ?_
  cases runs
  exact readsOnly_render layout rooted

/-- The attributions that find scopes, renderings or both. -/
def standardAttributions (l : Language) (layout : Layout) : List Attribution :=
  let base := tokenizerOf l
  [semantic base, printer base layout, semantic (printer base layout), printer (semantic base) layout]

/-- On a closed tree, evaluation solves the equations of every attribution whose hooks look only where
they may, and the attributions of the language are of this kind. -/
theorem solves_of_built {graft : ParseTree → Prop} (built : Built graft t)
    (closed : t.isClosed = true) :
    (∀ g : Attribution, g.Made → g.Orderly t → g.Solves t (g.evaluate t)) ∧
      ∀ (l : Language) (layout : Layout), ∀ g ∈ standardAttributions l layout,
        g.Made ∧ g.Orderly t := by
  obtain ⟨⟨f, carries⟩, _⟩ := built.invariant
  have rooted := carries.rooted closed
  refine ⟨fun g made orderly => Attribution.solves_evaluate made rooted orderly, fun l layout => ?_⟩
  have base := made_tokenizerOf l
  have start := orderly_tokenizerOf l t
  have scopes := orderly_semantic start
  have texts := orderly_printer start layout rooted
  simp only [standardAttributions, List.forall_mem_cons]
  exact ⟨⟨made_semantic base, scopes⟩, ⟨made_printer base layout, texts⟩,
    ⟨made_semantic (made_printer base layout), orderly_semantic texts⟩,
    ⟨made_printer (made_semantic base) layout, orderly_printer scopes layout rooted⟩,
    List.forall_mem_nil _⟩

/-- One more than the depth of the parent, if that has one. -/
def depthHook : NodeHook := fun tree id =>
  ((tree.parent? id).bind fun p => (tree.attr? p .inherited .indent).bind AttrValue.int?).map
    fun depth => .int (depth + 1)

/-- The line of the first child. -/
def lineHook : NodeHook := fun tree id =>
  (tree.children id).head?.bind fun child => tree.attr? child .synthesized .line

/-- Depths of all nodes, and lines of items and lists. -/
def placing : Attribution :=
  (({ name := "placing", language := default } : Attribution).declare
    { attr := .indent, kind := .inherited, nodeHook := some depthHook }).declare
    { attr := .line, kind := .synthesized, appliesTo := .only (NameSet.ofList ["item", "list"])
      nodeHook := some lineHook }

/-- A document with a depth, whose item has values that are out of date. -/
def placedList : ParseTree :=
  (((itemList.setAttr 0 .inherited .indent (.int 5)).setAttr 2 .inherited .indent (.int 99)).setAttr
    2 .synthesized .line (.int 99)).setAttr 3 .synthesized .line (.int 7)

theorem orderly_placing {f : Planted} (rooted : t.Rooted f) : placing.Orderly t := by
  have start := Attribution.orderly_new "placing" default t
  refine (start.declare (fun hook runs _ => ?_) (fun _ _ other => by cases other)).declare
    (fun _ _ other => by cases other) fun hook runs _ => ?_
  · cases runs
    intro u u' shape shape' id _ agree
    rw [depthHook, depthHook, shape.parent?, shape'.parent?]
    cases up : t.parent? id with
    | none => rfl
    | some p => rw [Option.bind_some, Option.bind_some, agree p .inherited ⟨rfl, .single up⟩]
  · cases runs
    intro u u' shape shape' id member agree
    rw [lineHook, lineHook, shape.children, shape'.children]
    cases inside : t.children id with
    | nil => rfl
    | cons child others =>
      rw [rooted.preOrder_eq] at member
      have up := rooted.parent_of_child member (inside ▸ List.mem_cons_self)
      exact agree child .synthesized (Or.inr (Or.inr (.single up))) .line

/-- The depth of the document stays, as its hook has no value. The item gets new values, and from it
the list, but the document has no line. -/
theorem solves_of_built_placing : Built (fun _ => False) placedList ∧ placedList.isClosed = true ∧
    placing.Made ∧ placing.Orderly placedList ∧ placing.Solves placedList (placing.evaluate placedList) ∧
    (placing.evaluate placedList).preOrder.map
      (fun id => ((placing.evaluate placedList).attr? id .inherited .indent,
        (placing.evaluate placedList).attr? id .synthesized .line)) =
      [(some (.int 5), none), (some (.int 6), some (.int 7)), (some (.int 7), some (.int 7)),
        (some (.int 8), some (.int 7)), (some (.int 7), none)] ∧
    ∀ g ∈ standardAttributions default {}, g.Solves placedList (g.evaluate placedList) := by
  have built : Built (fun _ => False) placedList :=
    ((((built_itemList _).setAttr _ _ _ _).setAttr _ _ _ _).setAttr _ _ _ _).setAttr _ _ _ _
  have closed : placedList.isClosed = true := by decide +kernel
  have made : placing.Made := ((Attribution.Made.new _ _).declare _).declare _
  obtain ⟨⟨f, carries⟩, _⟩ := built.invariant
  have orderly : placing.Orderly placedList := orderly_placing (carries.rooted closed)
  obtain ⟨solves, standard⟩ := solves_of_built built closed
  refine ⟨built, closed, made, orderly, solves placing made orderly, by decide +kernel, ?_⟩
  intro g listed
  obtain ⟨made, orderly⟩ := standard default {} g listed
  exact solves g made orderly

end AttrGrammar.Procedure
