import AttrGrammar.Proofs.Procedure.Parsing
import AttrGrammar.Proofs.Tree.Splicing

/-!
What simplifying makes of the parse tree of a program: one node for each construct.

The three cuts are first taken on forests of labels, where they commute with the making of the parse
tree, and then on the array that holds it.
-/

namespace AttrGrammar.Procedure

open Construct Forest

mutual

/-- A member with its first token and its value. -/
def Member.abstract : Member → Forest Label
  | .plain head _ value =>
    .tree (.inner ((pairOf? head.name value.name).getD .bind).name .attrProduction)
      (leaf head ++ leaf value)
  | .nested head _ _ first others _ =>
    .tree (.inner bind.name .attrProduction)
      (leaf head ++ .tree (.inner object.name .attrProduction) (first.abstract ++ others.abstract))

def MemberTail.abstract : MemberTail → Forest Label
  | .nil => .nil
  | .cons _ m others => m.abstract ++ others.abstract

end

def Program.abstract : Program → Forest Label
  | .empty token => leaf token
  | .members _ first others _ =>
    .tree (.inner program.name .attrProduction) (first.abstract ++ others.abstract)

/-- A cut by labels and numbers of children, as a reduction makes it. -/
def collapsed (m : NodeMatch) (f : Forest Label) : Forest Label :=
  f.cut fun l children => m.selects l && decide (children.roots.length = 1)

/-- A cut by labels alone. -/
def dissolved (m : NodeMatch) (f : Forest Label) : Forest Label := f.cut fun l _ => m.selects l

theorem collapsed_tree {l : Label} (f : Forest Label)
    (production : (l.kind == .alternation) = false) :
    collapsed (.kind .alternation) (tree l f) = tree l (collapsed (.kind .alternation) f) := by
  have selects : (NodeMatch.kind .alternation).selects l = false := production
  rw [collapsed, cut_tree, if_neg (by simp [selects])]
  rfl

theorem dissolved_listed {names : List String} {l : Label} (f : Forest Label)
    (listed : names.contains l.name = true) :
    dissolved (.anyOf names) (tree l f) = dissolved (.anyOf names) f := by
  have selects : (NodeMatch.anyOf names).selects l = true := listed
  rw [dissolved, cut_tree, if_pos selects]
  rfl

theorem dissolved_unlisted {names : List String} {l : Label} (f : Forest Label)
    (unlisted : names.contains l.name = false) :
    dissolved (.anyOf names) (tree l f) = tree l (dissolved (.anyOf names) f) := by
  have selects : (NodeMatch.anyOf names).selects l = false := unlisted
  rw [dissolved, cut_tree, if_neg (by simp [selects])]
  rfl

/-- All three cuts. -/
def reduced (f : Forest Label) : Forest Label :=
  dissolved (.anyOf punctuation) (dissolved (.anyOf plumbing) (collapsed (.kind .alternation) f))

@[simp] theorem reduced_append (f g : Forest Label) :
    reduced (f ++ g) = reduced f ++ reduced g := by
  simp only [reduced, collapsed, dissolved, cut_append]

/-- An alternation gives way to its one child. -/
theorem reduced_choiceOf {name : String} {child : Forest Label}
    (single : child.roots.length = 1) : reduced (choiceOf name child) = reduced child := by
  have selects : ((NodeMatch.kind .alternation).selects (.inner name .alternation) &&
      decide (child.roots.length = 1)) = true := by
    rw [single]
    rfl
  rw [reduced, choiceOf, collapsed, cut_tree, if_pos selects]
  rfl

/-- A node that only strings others together gives way to them. -/
theorem reduced_plumbing {name : String} {kind : RuleKind} (f : Forest Label)
    (listed : plumbing.contains name = true) (production : (kind == .alternation) = false) :
    reduced (tree (.inner name kind) f) = reduced f := by
  rw [reduced, collapsed_tree f production, dissolved_listed _ listed]
  rfl

/-- Any other node stays over what is left of its children. -/
theorem reduced_tree {l : Label} (f : Forest Label) (production : (l.kind == .alternation) = false)
    (notPlumbing : plumbing.contains l.name = false)
    (notPunctuation : punctuation.contains l.name = false) :
    reduced (tree l f) = tree l (reduced f) := by
  rw [reduced, collapsed_tree f production, dissolved_unlisted _ notPlumbing,
    dissolved_unlisted _ notPunctuation]
  rfl

theorem leafKind_ne (name : String) : (leafKind name == .alternation) = false := by
  rw [leafKind]
  split <;> rfl

theorem reduced_leaf {token : Token} (notPlumbing : plumbing.contains token.name = false)
    (notPunctuation : isPunctuation token.name = false) : reduced (leaf token) = leaf token :=
  reduced_tree .nil (leafKind_ne token.name) notPlumbing notPunctuation

theorem reduced_punctuation {token : Token} (listed : isPunctuation token.name = true) :
    reduced (leaf token) = .nil := by
  have dissolves : punctuation.contains
      (Label.ofToken token (leafKind token.name)).name = true := listed
  have outside : ∀ name ∈ punctuation, plumbing.contains name = false := by decide
  have notPlumbing := outside _ (List.contains_iff_mem.1 listed)
  rw [reduced, leaf, collapsed_tree .nil (leafKind_ne token.name),
    dissolved_unlisted _ notPlumbing,
    dissolved_listed _ dissolves]
  rfl

theorem reduced_named {token : Token} {name : String} (named : token.name = name)
    (notPlumbing : plumbing.contains name = false) (notPunctuation : isPunctuation name = false) :
    reduced (leaf token) = leaf token :=
  reduced_leaf (named ▸ notPlumbing) (named ▸ notPunctuation)

theorem reduced_key {head : Token} (key : isKey head.name = true) :
    reduced (headForest .bind head) = leaf head := by
  rw [headForest, if_pos rfl, reduced_choiceOf rfl]
  rcases isKey_iff.1 key with named | named <;> exact reduced_named named (by decide) (by decide)

theorem reduced_pair {pair : Construct} {head middle : Token} {first last : Forest Label}
    (listed : pair ∈ [bind, letMember, refMember, docMember])
    (named : middle.name = colon.name) (front : reduced first = leaf head)
    {back : Forest Label} (rear : reduced last = back) :
    reduced (pairForest pair first middle last) =
      .tree (.inner pair.name .attrProduction) (leaf head ++ back) := by
  have stays : ∀ c ∈ [bind, letMember, refMember, docMember],
      plumbing.contains c.name = false ∧ punctuation.contains c.name = false := by decide
  obtain ⟨notPlumbing, notPunctuation⟩ := stays pair listed
  rw [pairForest, reduced_choiceOf rfl, reduced_tree _ rfl notPlumbing notPunctuation,
    reduced_append, reduced_append, front, rear,
    reduced_punctuation (by rw [named]; decide), nil_append]

theorem reduced_plain {head middle value : Token} (named : middle.name = colon.name)
    {pair : Construct} (paired : pairOf? head.name value.name = some pair) :
    reduced (pairForest pair (headForest pair head) middle (valueForest pair value)) =
      .tree (.inner pair.name .attrProduction) (leaf head ++ leaf value) := by
  rcases pairOf?_cases paired with ⟨rfl, key, fits⟩ | ⟨rfl, form, list⟩ | ⟨rfl, form, text⟩ |
    ⟨rfl, form, text⟩
  · refine reduced_pair (by decide) named (reduced_key key) ?_
    rw [valueForest, reduced_choiceOf (by split <;> rfl)]
    split
    · next literal =>
      rw [reduced_choiceOf rfl]
      rcases isLiteral_iff.1 literal with named | named | named | named | named <;>
        exact reduced_named named (by decide) (by decide)
    · next notLiteral =>
      rcases isContainer_iff.1 (fits.resolve_left notLiteral) with named | named | named <;>
        exact reduced_named named (by decide) (by decide)
  · refine reduced_pair (by decide) named (reduced_named form (by decide) (by decide)) ?_
    rw [valueForest, reduced_choiceOf rfl]
    rcases isArray_iff.1 list with named | named <;>
      exact reduced_named named (by decide) (by decide)
  · exact reduced_pair (by decide) named (reduced_named form (by decide) (by decide))
      (reduced_named text (by decide) (by decide))
  · exact reduced_pair (by decide) named (reduced_named form (by decide) (by decide))
      (reduced_named text (by decide) (by decide))

theorem reduced_braced {c : Construct} {opening closing : Token} (members : Forest Label)
    (stays : plumbing.contains c.name = false ∧ punctuation.contains c.name = false)
    (opens : opening.name = lbrace.name) (closes : closing.name = rbrace.name) :
    reduced (bracedForest c opening members closing) =
      .tree (.inner c.name .attrProduction) (reduced members) := by
  rw [bracedForest, reduced_tree _ rfl stays.1 stays.2, reduced_append, reduced_append,
    reduced_punctuation (by rw [opens]; decide), reduced_punctuation (by rw [closes]; decide),
    reduced_plumbing _ (by decide) rfl, nil_append, append_nil]

mutual

theorem Member.reduced_forest : ∀ {m : Member}, m.WellFormed → reduced m.forest = m.abstract
  | .plain head middle value, wellFormed => by
    obtain ⟨named, paired⟩ := wellFormed
    obtain ⟨pair, paired⟩ := Option.isSome_iff_exists.1 paired
    rw [Member.forest, Member.abstract, paired]
    exact reduced_plain named paired
  | .nested head middle opening first others closing, wellFormed => by
    obtain ⟨key, named, opens, wellFirst, wellOthers, closes⟩ := wellFormed
    rw [Member.forest, Member.abstract]
    refine reduced_pair (by decide) named (reduced_key key) ?_
    rw [reduced_choiceOf rfl, reduced_braced _ (by decide) opens closes, reduced_append,
      reduced_plumbing _ (by decide) rfl, first.reduced_forest wellFirst,
      others.reduced_forest wellOthers]

theorem MemberTail.reduced_forest :
    ∀ {t : MemberTail}, t.WellFormed → reduced t.forest = t.abstract
  | .nil, _ => rfl
  | .cons divider m others, wellFormed => by
    obtain ⟨named, wellMember, wellOthers⟩ := wellFormed
    rw [MemberTail.forest, MemberTail.abstract, ← tree_append, reduced_append,
      reduced_plumbing _ (by decide) rfl, reduced_append,
      reduced_punctuation (by rw [named]; decide), nil_append, m.reduced_forest wellMember,
      others.reduced_forest wellOthers]

end

theorem Program.reduced_forest {o : Program} (wellFormed : o.WellFormed) :
    reduced o.forest = o.abstract := by
  cases o with
  | empty token =>
    rw [Program.forest, reduced_choiceOf rfl]
    exact reduced_named wellFormed (by decide) (by decide)
  | members opening first others closing =>
    obtain ⟨opens, wellFirst, wellOthers, closes⟩ := wellFormed
    rw [Program.forest, reduced_choiceOf rfl, reduced_braced _ (by decide) opens closes,
      membersForest, reduced_append, reduced_plumbing _ (by decide) rfl,
      first.reduced_forest wellFirst, others.reduced_forest wellOthers]
    rfl

@[simp] theorem map_snd_plant (n : Nat) (f : Forest Label) : (f.plant n).map Prod.snd = f := by
  induction f generalizing n with
  | nil => rfl
  | node l children rest ihChildren ihRest => rw [plant, map, ihChildren, ihRest]

/-- The array that a parser fills holds its parse tree. -/
theorem rooted_plant {f : Forest Label} (single : f.roots.length ≤ 1) :
    ({ nodes := ((f.plant 0).nodes none 0).toArray
       root := (f.plant 0).tops.head? } : ParseTree).Rooted (f.plant 0) := by
  refine ⟨ParseTree.holds_of_nodes f [] [] ?_, ?_, rfl, ?_, rfl⟩
  · rw [List.append_nil]
    rfl
  · rw [places_plant]
    exact List.nodup_range'
  · rwa [tops, List.length_map, ← List.length_map (f := Prod.snd), ← roots_map, map_snd_plant]

theorem collapsed_map (m : NodeMatch) (f : Planted) :
    (f.cut fun entry children => m.selects entry.2 && decide (children.tops.length = 1)).map
      Prod.snd = collapsed m (f.map Prod.snd) :=
  map_cut (fun entry children => by rw [tops, roots_map, List.length_map, List.length_map]) f

theorem dissolved_map (m : NodeMatch) (f : Planted) :
    (f.cut fun entry _ => m.selects entry.2).map Prod.snd = dissolved m (f.map Prod.snd) := by
  have same : ∀ (entry : NodeId × Label) (children : Planted),
      m.selects entry.2 = (fun (l : Label) (_ : Forest Label) => m.selects l) (Prod.snd entry)
        (children.map Prod.snd) := fun _ _ => rfl
  exact map_cut same f

theorem cut_ok {how : ParseTree → Except TreeError (Nat × ParseTree)} {t t' : ParseTree} {n : Nat}
    (done : how t = .ok (n, t')) : cut how t = .ok () t' := by
  rw [cut, done]

/-- The root of a parse tree is left alone once the alternation at the top is gone. -/
theorem roots_collapsed {o : Program} (wellFormed : o.WellFormed) :
    ∀ l ∈ (collapsed (.kind .alternation) o.forest).roots,
      plumbing.contains l.name = false ∧ punctuation.contains l.name = false := by
  have gone : ∀ child : Forest Label, child.roots.length = 1 →
      collapsed (.kind .alternation) (choiceOf document.name child) =
        collapsed (.kind .alternation) child := by
    intro child single
    have selects : ((NodeMatch.kind .alternation).selects (.inner document.name .alternation) &&
        decide (child.roots.length = 1)) = true := by
      rw [single]
      rfl
    rw [choiceOf, collapsed, cut_tree, if_pos selects]
    rfl
  intro l member
  cases o with
  | empty token =>
    have named : token.name = emptyObject.name := wellFormed
    rw [Program.forest, gone _ rfl, leaf, collapsed_tree _ (leafKind_ne token.name)] at member
    cases List.mem_singleton.1 member
    change plumbing.contains token.name = false ∧ punctuation.contains token.name = false
    rw [named]
    decide
  | members opening first others closing =>
    rw [Program.forest, gone _ rfl, bracedForest, collapsed_tree _ rfl] at member
    cases List.mem_singleton.1 member
    decide

theorem length_roots_forest (o : Program) : o.forest.roots.length = 1 := by
  cases o <;> rfl

/-- The parse tree of a program simplifies to its abstract syntax. -/
theorem simplified_tree {o : Program} (wellFormed : o.WellFormed) :
    ∃ t f, simplified o.tree = .ok t ∧ t.Rooted f ∧ f.map Prod.snd = o.abstract := by
  have start : o.tree.Rooted (o.forest.plant 0) :=
    rooted_plant (Nat.le_of_eq (length_roots_forest o))
  obtain ⟨_, t₁, first, rooted₁⟩ := start.collapseAll (.kind .alternation)
  have labels₁ := collapsed_map (.kind .alternation) (o.forest.plant 0)
  rw [map_snd_plant] at labels₁
  generalize (o.forest.plant 0).cut _ = f₁ at rooted₁ labels₁
  have stays := roots_collapsed wellFormed
  rw [← labels₁] at stays
  have keptBy : ∀ names ∈ [plumbing, punctuation], ∀ entry ∈ f₁.roots,
      (NodeMatch.anyOf names).selects entry.2 = false := by
    intro names listed entry root
    obtain ⟨notPlumbing, notPunctuation⟩ := stays entry.2
      (by rw [roots_map]; exact List.mem_map_of_mem root)
    simp only [List.mem_cons, List.not_mem_nil, or_false] at listed
    rcases listed with rfl | rfl
    · exact notPlumbing
    · exact notPunctuation
  obtain ⟨_, t₂, second, rooted₂⟩ :=
    rooted₁.dissolveAll (.anyOf plumbing) (keptBy plumbing (by decide))
  have labels₂ := dissolved_map (.anyOf plumbing) f₁
  have roots := roots_cut_kept fun entry root (_ : Planted) =>
    keptBy plumbing (by decide) entry root
  obtain ⟨_, t₃, third, rooted₃⟩ := rooted₂.dissolveAll (.anyOf punctuation) (by
    rw [roots]
    exact keptBy punctuation (by decide))
  refine ⟨t₃, _, ?_, rooted₃, ?_⟩
  · rw [simplified, simplify, EStateM.run, Parsing.bind_ok (cut_ok first),
      Parsing.bind_ok (cut_ok second), cut_ok third]
  · rw [dissolved_map, labels₂, labels₁]
    exact o.reduced_forest wellFormed

end AttrGrammar.Procedure
