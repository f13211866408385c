import AttrGrammar.Procedure.Environment
import AttrGrammar.Proofs.Attribution.Equations

/-!
Scopes on evaluated trees.

If scopes are declared as `semantic` declares them, every node of an evaluated tree has the scope
that `scopeFor` finds on that tree itself. So scopes can be followed from parents to children without
the order in which they were found.
-/

namespace AttrGrammar

open Forest

namespace ParseTree

/-- The scope of a node. -/
def scope? (t : ParseTree) (id : NodeId) : Option String := (t.node? id).bind (·.attrs.scope?)

theorem scope?_eq (t : ParseTree) (id : NodeId) :
    t.scope? id = (t.attr? id .inherited .scope).bind AttrValue.text? := by
  rw [scope?, attr?]
  cases t.node? id <;> rfl

end ParseTree

namespace Procedure

variable {g : Attribution} {t u : ParseTree}

/-- Finding a scope looks at the scope of the parent, and beside that only at the shape of the
tree. -/
theorem scopeFor_congr (same : t.SameShape u) (id : NodeId)
    (above : ∀ p, t.parent? id = some p → u.scope? p = t.scope? p) :
    scopeFor u id = scopeFor t id := by
  unfold scopeFor
  rw [same.parent?]
  cases up : t.parent? id with
  | none => rfl
  | some p =>
    have scope := above p up
    unfold ParseTree.scope? at scope
    have name : (u.node? p).any (·.name == Construct.bind.name) =
        (t.node? p).any (·.name == Construct.bind.name) := by
      rcases same.cases p with ⟨here, there⟩ | ⟨n, attrs, here, there⟩ <;> rw [here, there]
      rfl
    have key : bindKey? u p = bindKey? t p := by
      unfold bindKey?
      rw [same.children, funext same.lexemeOf]
    dsimp only
    rw [scope, name, key, memberValue?, memberValue?, same.children]

/-- The declaration of scopes. -/
def scopeDecl : AttrDecl :=
  { attr := .scope
    kind := .inherited
    nodeHook := some fun tree id => some (.text (scopeFor tree id)) }

/-- Scopes are not declared, or as `semantic` declares them. -/
def StandardScope (g : Attribution) : Prop := ∀ decl ∈ g.decls, decl.attr = .scope → decl = scopeDecl

/-- With scopes the declaration of them is there. -/
theorem withScope_declares (standard : StandardScope g) :
    scopeDecl ∈ (withScope g).decls ∧ StandardScope (withScope g) := by
  unfold withScope
  split
  · next declared =>
    obtain ⟨decl, found⟩ := Option.isSome_iff_exists.1 declared
    have named : decl.attr = .scope := by simpa using List.find?_some found
    have listed := List.mem_of_find?_eq_some found
    exact ⟨standard decl listed named ▸ listed, standard⟩
  · refine ⟨List.mem_append_right _ List.mem_cons_self, fun decl listed named => ?_⟩
    rcases List.mem_append.1 listed with before | added
    · have other := (List.mem_filter.1 before).2
      rw [named] at other
      cases other
    · exact List.mem_singleton.1 added

/-- The hook that `semantic` declares. -/
def scopeHook : NodeHook := fun tree id => some (.text (scopeFor tree id))

theorem defines_scope (declared : scopeDecl ∈ g.decls) (standard : StandardScope g) :
    Attribution.Defines (g.hooked .inherited) .inherited .scope .all scopeHook := by
  refine ⟨⟨_, Attribution.mem_hooked declared rfl rfl, rfl, rfl⟩, fun entry listed _ named => ?_⟩
  obtain ⟨inside, _, runs⟩ := Attribution.hooked_kind g .inherited entry listed
  have only := standard entry.1 inside named
  rw [only] at runs ⊢
  exact ⟨rfl, (Option.some.inj runs).symm⟩

/-- Finding scopes looks at the parent. -/
theorem readsOnly_scope (t : ParseTree) : Attribution.ReadsOnly scopeHook t t.ReadsAbove := by
  intro u u' shape shape' id _ agree
  refine congrArg (fun text => some (AttrValue.text text))
    (scopeFor_congr (shape.symm.trans shape') id fun p up => ?_)
  rw [shape.parent?] at up
  rw [ParseTree.scope?_eq, ParseTree.scope?_eq, agree p .inherited ⟨rfl, .single up⟩]

/-- Every node of an evaluated tree has its scope. -/
theorem scope?_evaluate (declared : scopeDecl ∈ g.decls) (standard : StandardScope g) {f : Planted}
    (rooted : t.Rooted f) {id : NodeId} (member : id ∈ f.places) :
    (g.evaluate t).scope? id = some (scopeFor (g.evaluate t) id) := by
  obtain ⟨n, found, _⟩ := rooted.held.found member
  rw [ParseTree.scope?_eq, Attribution.attr?_evaluate_above rooted (defines_scope declared standard)
    (readsOnly_scope t) (by rw [rooted.preOrder_eq]; exact member) found rfl]
  rfl

end Procedure

end AttrGrammar
