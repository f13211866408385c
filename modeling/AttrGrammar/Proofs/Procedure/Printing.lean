import AttrGrammar.Proofs.Procedure.Laid
import AttrGrammar.Proofs.Procedure.Programs
import AttrGrammar.Proofs.Procedure.Rendering

/-!
What programs render as.

The text of a program is put together from what its tokens render as, member by member. If these
tokens come from a text, it is that text in canonical layout.
-/

namespace AttrGrammar.Procedure

open Scanner (advance)
open Json (Blanks Written Items Members Literal comma spots)

variable (l : Layout)

mutual

/-- What a member renders as. -/
def Member.shown : Member → String
  | .plain head _ value => l.indent head.depth ++ head.shown ++ ": " ++ value.shown
  | .nested head _ opening first others _ =>
    l.indent head.depth ++ head.shown ++ ": " ++
      ("\x7b\n" ++ (first.shown ++ others.shown) ++ "\n" ++ l.indent opening.depth ++ "\x7d")

def MemberTail.shown : MemberTail → String
  | .nil => ""
  | .cons _ member others => ",\n" ++ member.shown ++ others.shown

end

def Program.shown : Program → String
  | .empty token => token.shown ++ (if l.trailingNewline then "\n" else "")
  | .members opening first others _ =>
    "\x7b\n" ++ (first.shown l ++ others.shown l) ++ "\n" ++ l.indent opening.depth ++ "\x7d" ++
      (if l.trailingNewline then "\n" else "")

def Member.head : Member → Token
  | .plain head .. | .nested head .. => head

variable {l}

theorem shown_leaf (token : Token) : shown l (leaf token) = [(token.shown, token.depth)] := rfl

theorem shown_tree (name : String) (kind : RuleKind) (f : Forest Label) :
    shown l (.tree (.inner name kind) f) =
      let depth := ((shown l f).map Prod.snd).headD 0
      [(shownNode l name ((shown l f).map Prod.fst) depth, depth)] := rfl

/-- A node of an alternation renders as its child. -/
theorem shown_choiceOf {name : String} {f : Forest Label} {text : String} {depth : Nat}
    (joins : shownNode l name [text] depth = text) (inside : shown l f = [(text, depth)]) :
    shown l (choiceOf name f) = [(text, depth)] := by
  rw [choiceOf, shown_tree, inside]
  exact congrArg (fun text => [(text, depth)]) joins

theorem join_single (text : String) : String.join [text] = text := by simp

theorem shown_pairForest {pair : Construct}
    (isPair : pair = .bind ∨ pair = .letMember ∨ pair = .refMember ∨ pair = .docMember)
    {head value : Forest Label} {key text : String} {depth depth' : Nat}
    (first : shown l head = [(key, depth)]) (colon : Token)
    (second : shown l value = [(text, depth')]) :
    shown l (pairForest pair head colon value) = [(l.indent depth ++ key ++ ": " ++ text, depth)] := by
  refine shown_choiceOf (join_single _) ?_
  rw [shown_tree, shown_append, shown_append, first, second]
  rcases isPair with rfl | rfl | rfl | rfl <;> rfl

theorem shown_bracedForest {c : Construct} (braced : c = .program ∨ c = .object)
    (members : Forest Label) (opening closing : Token) :
    shown l (bracedForest c opening members closing) =
      [("\x7b\n" ++ String.join ((shown l members).map Prod.fst) ++ "\n" ++
        l.indent opening.depth ++ "\x7d", opening.depth)] := by
  rw [bracedForest, shown_tree, shown_append, shown_append, shown_leaf, shown_leaf, shown_tree]
  rcases braced with rfl | rfl <;> rfl

theorem shown_headForest {pair : Construct} (head : Token) :
    shown l (headForest pair head) = [(head.shown, head.depth)] := by
  unfold headForest
  split
  · exact shown_choiceOf (join_single _) (shown_leaf head)
  · exact shown_leaf head

theorem shown_valueForest (pair : Construct) (value : Token) :
    shown l (valueForest pair value) = [(value.shown, value.depth)] := by
  unfold valueForest
  split
  · refine shown_choiceOf (join_single _) ?_
    split
    · exact shown_choiceOf (join_single _) (shown_leaf value)
    · exact shown_leaf value
  · exact shown_choiceOf (join_single _) (shown_leaf value)
  · exact shown_leaf value

theorem pairOf?_getD (head value : String) :
    (pairOf? head value).getD .bind = .bind ∨ (pairOf? head value).getD .bind = .letMember ∨
      (pairOf? head value).getD .bind = .refMember ∨ (pairOf? head value).getD .bind = .docMember := by
  cases found : pairOf? head value with
  | none => exact Or.inl rfl
  | some pair =>
    rcases pairOf?_cases found with ⟨rfl, _⟩ | ⟨rfl, _⟩ | ⟨rfl, _⟩ | ⟨rfl, _⟩ <;> simp

/-- Members render one after the other. -/
theorem join_membersForest {first : Member} {others : MemberTail} {text rest : String} {depth : Nat}
    (one : shown l first.forest = [(text, depth)])
    (more : String.join ((shown l others.forest).map Prod.fst) = rest) :
    String.join ((shown l (membersForest first others)).map Prod.fst) = text ++ rest := by
  have tail : (shown l (.tree (.inner Construct.memberTail.name .repetition) others.forest)).map
      Prod.fst = [rest] := congrArg (fun text => [text]) more
  rw [membersForest, shown_append, List.map_append, tail, one]
  simp

mutual

/-- Members render as their tokens say. -/
theorem Member.shown_forest : ∀ m : Member, Procedure.shown l m.forest = [(m.shown l, m.head.depth)]
  | .plain head colon value =>
    shown_pairForest (pairOf?_getD _ _) (shown_headForest head) colon (shown_valueForest _ value)
  | .nested head colon opening first others closing => by
    have inside := join_membersForest first.shown_forest others.join_forest
    have braces := shown_bracedForest (l := l) (Or.inr rfl : Construct.object = .program ∨ _)
      (membersForest first others) opening closing
    rw [inside] at braces
    refine shown_pairForest (Or.inl rfl) (shown_headForest head) colon (shown_choiceOf ?_ braces)
    exact join_single _

theorem MemberTail.join_forest : ∀ t : MemberTail,
    String.join ((Procedure.shown l t.forest).map Prod.fst) = t.shown l
  | .nil => rfl
  | .cons divider member others => by
    have here : Procedure.shown l (.tree (.inner Construct.nextMember.name .concatenation)
        (leaf divider ++ member.forest)) = [(",\n" ++ member.shown l, divider.depth)] := by
      rw [shown_tree, shown_append, member.shown_forest]
      rfl
    have split : (MemberTail.cons divider member others).forest =
        .tree (.inner Construct.nextMember.name .concatenation) (leaf divider ++ member.forest) ++
          others.forest := by
      rw [MemberTail.forest, Forest.tree, Forest.node_append, Forest.nil_append]
    rw [split, shown_append, here, List.map_append, String.join_append, others.join_forest,
      MemberTail.shown, List.map_singleton, join_single]

end

/-- A program renders as its tokens say. -/
theorem Program.shown_forest (o : Program) : ∃ depth,
    Procedure.shown l o.forest = [(o.shown l, depth)] := by
  cases o with
  | empty token => exact ⟨token.depth, rfl⟩
  | members opening first others closing =>
    have braces := shown_bracedForest (l := l) (Or.inl rfl : Construct.program = .program ∨ _)
      (membersForest first others) opening closing
    rw [join_membersForest first.shown_forest others.join_forest] at braces
    refine ⟨opening.depth, ?_⟩
    rw [Program.forest, choiceOf, shown_tree, braces]
    rfl

theorem faithful_choiceOf {name : String} {f : Forest Label} (inside : Faithful f) :
    Faithful (choiceOf name f) := inside.inner name .alternation

theorem faithful_pairForest (pair : Construct) {head value : Forest Label} (first : Faithful head)
    (colon : Token) (second : Faithful value) : Faithful (pairForest pair head colon value) :=
  faithful_choiceOf ((first.append ((faithful_leaf colon).append second)).inner _ _)

theorem faithful_bracedForest (c : Construct) (opening : Token) {members : Forest Label}
    (inside : Faithful members) (closing : Token) :
    Faithful (bracedForest c opening members closing) :=
  ((faithful_leaf opening).append ((inside.inner _ _).append (faithful_leaf closing))).inner _ _

theorem faithful_headForest (pair : Construct) (head : Token) : Faithful (headForest pair head) := by
  unfold headForest
  split
  · exact faithful_choiceOf (faithful_leaf head)
  · exact faithful_leaf head

theorem faithful_valueForest (pair : Construct) (value : Token) :
    Faithful (valueForest pair value) := by
  unfold valueForest
  split
  · refine faithful_choiceOf ?_
    split
    · exact faithful_choiceOf (faithful_leaf value)
    · exact faithful_leaf value
  · exact faithful_choiceOf (faithful_leaf value)
  · exact faithful_leaf value

mutual

theorem Member.faithful_forest : ∀ m : Member, Faithful m.forest
  | .plain head colon value =>
    faithful_pairForest _ (faithful_headForest _ head) colon (faithful_valueForest _ value)
  | .nested head colon opening first others closing =>
    faithful_pairForest _ (faithful_headForest _ head) colon (faithful_choiceOf
      (faithful_bracedForest _ opening
        (first.faithful_forest.append (others.faithful_forest.inner _ _)) closing))

theorem MemberTail.faithful_forest : ∀ t : MemberTail, Faithful t.forest
  | .nil => fun _ member => nomatch member
  | .cons divider member others => by
    have here := ((faithful_leaf divider).append member.faithful_forest).inner
      Construct.nextMember.name .concatenation
    exact here.append others.faithful_forest

end

theorem Program.faithful_forest (o : Program) : Faithful o.forest := by
  cases o with
  | empty token => exact faithful_choiceOf (faithful_leaf token)
  | members opening first others closing =>
    exact faithful_choiceOf (faithful_bracedForest _ opening
      (first.faithful_forest.append (others.faithful_forest.inner _ _)) closing)

/-- The text of an evaluated tree is what its program renders as. -/
theorem rootText_evaluate {g : Attribution}
    (declared : Attribution.Defines (g.hooked .synthesized) .synthesized .render .all (renderHook l))
    (o : Program) : rootText (g.evaluate o.tree) = .ok (o.shown l) := by
  have rooted : o.tree.Rooted (o.forest.plant 0) :=
    rooted_plant (Nat.le_of_eq (length_roots_forest o))
  have labels := map_snd_plant 0 o.forest
  have faithful : Faithful ((o.forest.plant 0).map Prod.snd) := by
    rw [labels]
    exact o.faithful_forest
  have text := shown_evaluate declared rooted faithful
  obtain ⟨depth, all⟩ := o.shown_forest (l := l)
  obtain ⟨label, inside, same, inner⟩ : ∃ label inside, o.forest = .tree label inside ∧
      label.isLeaf = false := by
    cases o with
    | empty token => exact ⟨_, _, rfl, rfl⟩
    | members opening first others closing => exact ⟨_, _, rfl, rfl⟩
  rw [labels, all, same] at text
  rw [same] at rooted
  have here : rendered (g.evaluate o.tree) 0 = o.shown l := congrArg Prod.fst (List.cons.inj text).1
  have notLeaf : o.tree.isLeaf 0 = false := by
    rw [ParseTree.isLeaf, rooted.held.1]
    exact inner
  have value := render?_evaluate declared rooted List.mem_cons_self notLeaf
  rw [rendered, value] at here
  have root : (g.evaluate o.tree).root = some 0 :=
    (Attribution.sameShape_evaluate g o.tree).root.trans rooted.root
  rw [rootText, root, Option.bind_some]
  rw [value]
  exact congrArg Except.ok here

section

variable (lang : Language) (l : Layout)

/-- The way to read tokens that gives what they render as. -/
def renderedLetters (t : Token) : List Char := (Attribution.valueText .render t).toList

theorem defines_render : Attribution.Defines ((printer (tokenizerOf lang) l).hooked .synthesized)
    .synthesized .render .all (renderHook l) where
  listed := ⟨_, List.mem_cons_self, rfl, rfl⟩
  same entry listed _ _ := by
    cases List.mem_singleton.1 (show entry ∈ [_] from listed)
    exact ⟨rfl, rfl⟩

theorem emit_shown (depth : Nat) (place : Nat × Nat) (n : String) (text : List Char) :
    (emit (printer (tokenizerOf lang) l).annotate depth place n text).shown =
      Attribution.valueText .render
        (emit (printer (tokenizerOf lang) l).annotate depth place n text) := rfl

theorem emit_depth (depth : Nat) (place : Nat × Nat) (n : String) (text : List Char) :
    (emit (printer (tokenizerOf lang) l).annotate depth place n text).depth = depth := rfl

/-- Tokens render as their text, and commas between items with a blank. -/
theorem spells_rendered :
    Spells renderedLetters Json.oneBlank (emit (printer (tokenizerOf lang) l).annotate) where
  text depth place n text other := by
    change (if n = Construct.itemDivider.name then ", " else String.ofList text).toList = text
    rw [if_neg (show n ≠ Construct.itemDivider.name from other), String.toList_ofList]
  divider _ _ := show (", " : String).toList = [',', ' '] by decide

/-- A folded token renders as its parts do, one after the other. -/
theorem combine_shown (n : String) (parts : List Token) :
    ((printer (tokenizerOf lang) l).combine n parts).shown =
      String.ofList (parts.flatMap renderedLetters) := by
  have concat : (printer (tokenizerOf lang) l).foldPolicy .render = .concat := rfl
  have joined : Attribution.valueText .render ((printer (tokenizerOf lang) l).combine n parts) =
      String.join (parts.map (Attribution.valueText .render)) :=
    Attribution.valueText_combine concat
  have same : ((printer (tokenizerOf lang) l).combine n parts).shown =
      Attribution.valueText .render ((printer (tokenizerOf lang) l).combine n parts) := by
    have kept : ((printer (tokenizerOf lang) l).combine n parts).attrs.synthesized.render =
        if parts.any (Attribution.has .render) then
          some (.text (String.join (parts.map (Attribution.valueText .render)))) else none := rfl
    rw [Token.shown, Attributes.render?, Attribution.valueText, AttrMap.get?, kept]
    split <;> rfl
  rw [same, joined, ← String.toList_inj, String.toList_join, String.toList_ofList, List.flatMap_map]
  rfl

theorem combine_indent (n : String) {first : Token} {depth : Nat}
    (placed : first.attrs.synthesized.indent = some (.int depth)) (rest : List Token) :
    ((printer (tokenizerOf lang) l).combine n (first :: rest)).attrs.indent? = some depth := by
  have here : first.attrs.synthesized.get? .indent = some (.int depth) := placed
  have keepsFirst : (printer (tokenizerOf lang) l).foldPolicy .indent = .first := rfl
  have kept : ((printer (tokenizerOf lang) l).combine n (first :: rest)).attrs.synthesized.get?
      .indent = (first :: rest).findSome? fun t => t.attrs.synthesized.get? .indent :=
    Attribution.findSome?_combine keepsFirst
  rw [List.findSome?_cons, here] at kept
  exact congrArg (·.bind AttrValue.int?) kept

/-- What becomes of a piece renders as the tokens of the piece do. -/
theorem folded_shown {p : Piece} (token : ∀ t, p = .token t → t.shown = Attribution.valueText .render t) :
    (p.folded (printer (tokenizerOf lang) l).combine).shown =
      String.ofList (p.raw.flatMap renderedLetters) := by
  cases p with
  | token t =>
    rw [Piece.folded, Piece.raw, List.flatMap_cons, List.flatMap_nil, List.append_nil,
      renderedLetters, String.ofList_toList]
    exact token t rfl
  | group k opening inside closing => exact combine_shown lang l _ _

theorem stringPiece_shown (depth : Nat) (place : Nat × Nat) (key : Literal) {t : Token}
    (same : stringPiece (emit (printer (tokenizerOf lang) l).annotate) .member depth place key =
      .token t) : t.shown = Attribution.valueText .render t := by
  unfold stringPiece at same
  split at same
  · cases same
    exact emit_shown lang l ..
  · cases same

theorem keyToken_shown (depth : Nat) (place : Nat × Nat) (key : Literal) :
    (keyToken (printer (tokenizerOf lang) l) depth place key).shown = String.ofList key.text := by
  rw [← spelled_string (spells_rendered lang l) .member depth place key]
  exact folded_shown lang l fun t => stringPiece_shown lang l depth place key

theorem keyToken_indent (depth : Nat) (place : Nat × Nat) (key : Literal) :
    (keyToken (printer (tokenizerOf lang) l) depth place key).attrs.indent? = some depth := by
  unfold keyToken stringPiece
  split
  · rfl
  · exact combine_indent lang l _ rfl _

theorem keyToken_depth (depth : Nat) (place : Nat × Nat) (key : Literal) :
    (keyToken (printer (tokenizerOf lang) l) depth place key).depth = depth :=
  congrArg (·.getD 0) (keyToken_indent lang l depth place key)

/-- A value that becomes one token renders with a blank after each comma. -/
theorem valueToken_shown (depth : Nat) (place : Nat × Nat) {w : Written}
    (single : w.isBraced = false) :
    (valueToken (printer (tokenizerOf lang) l) depth place w).shown =
      String.ofList (w.spaced Json.oneBlank).text := by
  obtain ⟨p, only⟩ := exists_piece (emit (printer (tokenizerOf lang) l).annotate) depth place single
  have text := spelled_value (spells_rendered lang l) w .member depth place
  rw [only, rawAll, rawAll, List.append_nil] at text
  rw [valueToken, only, ← text]
  refine folded_shown lang l fun t same => ?_
  rw [same] at only
  cases w with
  | null | bool | number =>
    cases only
    exact emit_shown lang l ..
  | string key => exact stringPiece_shown lang l depth place key (List.cons.inj only).1
  | array gap items => cases only
  | object gap members =>
    cases members with
    | nil => cases only
    | cons => cases single

theorem laid_single {w : Written} (single : w.isBraced = false) (depth : Nat) :
    w.laid l depth = w.spaced Json.oneBlank := by
  cases w with
  | object gap members =>
    cases members with
    | nil => rfl
    | cons => cases single
  | _ => rfl

theorem line_eq (depth : Nat) : (l.line depth).1 = '\n' :: (l.indent depth).toList := rfl

theorem finish_eq : (if l.trailingNewline then "\n" else "").toList = l.finish.1 := by
  change _ = if l.trailingNewline then ['\n'] else []
  cases l.trailingNewline <;> rfl

/-- What a key, a colon and a value come to on a line. -/
def lineOfMember (depth : Nat) (head : Token) (w : Written) : List Char :=
  (l.indent head.depth).toList ++ (head.shown.toList ++ ':' :: ' ' :: (w.laid l depth).text)

theorem shown_member_plain {w : Written} (single : w.isBraced = false) (depth : Nat)
    (place : Nat × Nat) (head colon : Token) :
    ((w.member (printer (tokenizerOf lang) l) depth place head colon).shown l).toList =
      lineOfMember l depth head w := by
  rw [w.member_plain _ single, Member.shown, valueToken_shown lang l depth place single,
    lineOfMember, laid_single l single]
  simp

/-- A member and those after it make the text of all of them, if each renders as it should. -/
theorem shown_members {member : Member} {tail : MemberTail} {depth : Nat} {place : Nat × Nat}
    {key : Literal} {value : Written} {others : Members}
    (here : (member.shown l).toList = lineOfMember l (depth + 1)
      (keyToken (printer (tokenizerOf lang) l) (depth + 1) place key) value)
    (later : (tail.shown l).toList ++ '\n' :: ((l.indent depth).toList ++ ['}']) =
      (if others.isNil then l.line depth else Json.noBlanks).1 ++
        (others.laid l depth).text false)
    (first : Bool) (lead before after trail : Blanks) :
    comma first ++ '\n' :: ((member.shown l).toList ++ ((tail.shown l).toList ++
        '\n' :: ((l.indent depth).toList ++ ['}']))) =
      ((Members.cons lead key before after value trail others).laid l depth).text first := by
  rw [here, later, lineOfMember, keyToken_depth, keyToken_shown, String.toList_ofList, Members.laid,
    Members.text, line_eq]
  simp [Json.noBlanks, Json.oneBlank]

mutual

/-- A member renders as its key and its value in canonical layout. -/
theorem shown_member : ∀ (w : Written) (depth : Nat) (place : Nat × Nat) (head colon : Token),
    ((w.member (printer (tokenizerOf lang) l) depth place head colon).shown l).toList =
      lineOfMember l depth head w
  | .object gap (.cons lead key before after value trail others), depth, place, head, colon => by
    have inside := shown_members lang l
      (shown_member value (depth + 1)
        (spots (advance place ('{' :: gap.1)) lead key before after value trail).value
        (keyToken (printer (tokenizerOf lang) l) (depth + 1)
          (spots (advance place ('{' :: gap.1)) lead key before after value trail).key key)
        (emit (printer (tokenizerOf lang) l).annotate (depth + 1)
          (spots (advance place ('{' :: gap.1)) lead key before after value trail).colon "colon"
          [':']))
      (shown_tail others depth
        (spots (advance place ('{' :: gap.1)) lead key before after value trail).last)
      true lead before after trail
    rw [lineOfMember, Written.laid, Written.text, ← inside, Written.member, Member.shown, emit_depth]
    simp [comma, Json.noBlanks]
  | .object gap .nil, depth, place, head, colon => shown_member_plain lang l rfl depth place head colon
  | .array gap items, depth, place, head, colon =>
    shown_member_plain lang l rfl depth place head colon
  | .string _, depth, place, head, colon => shown_member_plain lang l rfl depth place head colon
  | .number _, depth, place, head, colon => shown_member_plain lang l rfl depth place head colon
  | .bool _, depth, place, head, colon => shown_member_plain lang l rfl depth place head colon
  | .null, depth, place, head, colon => shown_member_plain lang l rfl depth place head colon

/-- Members after the first render in canonical layout up to the closing brace. -/
theorem shown_tail : ∀ (members : Members) (depth : Nat) (place : Nat × Nat),
    ((members.tail (printer (tokenizerOf lang) l) depth place).shown l).toList ++
        '\n' :: ((l.indent depth).toList ++ ['}']) =
      (if members.isNil then l.line depth else Json.noBlanks).1 ++
        (members.laid l depth).text false
  | .nil, depth, place => rfl
  | .cons lead key before after value trail others, depth, place => by
    have inside := shown_members lang l
      (shown_member value (depth + 1)
        (spots (advance place [',']) lead key before after value trail).value
        (keyToken (printer (tokenizerOf lang) l) (depth + 1)
          (spots (advance place [',']) lead key before after value trail).key key)
        (emit (printer (tokenizerOf lang) l).annotate (depth + 1)
          (spots (advance place [',']) lead key before after value trail).colon "colon" [':']))
      (shown_tail others depth (spots (advance place [',']) lead key before after value trail).last)
      false lead before after trail
    rw [← inside, Members.tail, MemberTail.shown]
    simp [comma, Members.isNil, Json.noBlanks]

end

/-- A program renders as its text in canonical layout. -/
theorem shown_programOf (place : Nat × Nat) (gap : Blanks) (members : Members) :
    ((programOf (printer (tokenizerOf lang) l) place gap members).shown l).toList =
      ((Written.object gap members).laid l 0).text ++ l.finish.1 := by
  cases members with
  | nil =>
    rw [programOf, Program.shown, valueToken_shown lang l 0 place rfl, String.toList_append,
      finish_eq, String.toList_ofList]
    rfl
  | cons lead key before after value trail others =>
    have inside := shown_members lang l
      (shown_member lang l value 1
        (spots (advance place ('{' :: gap.1)) lead key before after value trail).value
        (keyToken (printer (tokenizerOf lang) l) 1
          (spots (advance place ('{' :: gap.1)) lead key before after value trail).key key)
        (emit (printer (tokenizerOf lang) l).annotate 1
          (spots (advance place ('{' :: gap.1)) lead key before after value trail).colon "colon"
          [':']))
      (shown_tail lang l others 0
        (spots (advance place ('{' :: gap.1)) lead key before after value trail).last)
      true lead before after trail
    rw [Written.laid, Written.text, ← inside, programOf, Program.shown, emit_depth, ← finish_eq]
    simp [comma, Json.noBlanks]

end

end AttrGrammar.Procedure
