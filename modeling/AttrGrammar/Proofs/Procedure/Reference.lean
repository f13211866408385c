import AttrGrammar.Proofs.Procedure.Nesting
import AttrGrammar.Proofs.Procedure.RoundTrip

/-!
Canonical layout as a recursion on the written text.

The recursion puts lines together with their separators between them, and knows nothing of tokens
and trees. The main statement says that every source that can be rendered comes out as the recursion
says, and that the depths which the printer reads off tokens are those of the tree.
-/

namespace AttrGrammar

theorem Layout.toList_indent (l : Layout) (depth : Nat) :
    (l.indent depth).toList = List.replicate (l.indentWidth * depth) ' ' := by
  rw [indent, String.pushn]
  induction l.indentWidth * depth with
  | zero => rfl
  | succ n ih => rw [Nat.repeat, String.toList_push, ih, ← List.replicate_succ']

namespace Json

mutual

/-- A value on one line: arrays without blanks but for one after each comma. -/
def Written.inline : Written → List Char
  | .array _ items => '[' :: ([',', ' '].intercalate items.inlines ++ [']'])
  | w => w.text

def Items.inlines : Items → List (List Char)
  | .nil => []
  | .cons _ item _ others => item.inline :: others.inlines

end

mutual

/-- A value at a depth in canonical layout. -/
def Written.reference (l : Layout) (depth : Nat) : Written → List Char
  | .object _ members =>
    if members.isNil then ['{', '}']
    else '{' :: '\n' :: ([',', '\n'].intercalate (members.lines l (depth + 1)) ++
      '\n' :: (List.replicate (l.indentWidth * depth) ' ' ++ ['}']))
  | w => w.inline

/-- The lines of members at a depth, where a value may take several. -/
def Members.lines (l : Layout) (depth : Nat) : Members → List (List Char)
  | .nil => []
  | .cons _ key _ _ value _ others =>
    (List.replicate (l.indentWidth * depth) ' ' ++
      (key.text ++ ':' :: ' ' :: value.reference l depth)) :: others.lines l depth

end

theorem intercalate_cons {separator first : List Char} {others : List (List Char)}
    (more : others ≠ []) :
    separator.intercalate (first :: others) =
      first ++ (separator ++ separator.intercalate others) := by
  obtain ⟨next, rest, rfl⟩ := List.exists_cons_of_ne_nil more
  rw [List.intercalate_cons_cons, List.append_assoc]

/-- What follows a comma is read as at the beginning, behind the comma and the blanks. -/
theorem Items.text_spaced {items : Items} (more : items.isNil = false) (gap : Blanks) :
    (items.spaced gap false).text false = ',' :: (gap.1 ++ (items.spaced gap true).text true) := by
  cases items with
  | nil => cases more
  | cons => rfl

theorem Members.text_laid {members : Members} (more : members.isNil = false) (l : Layout)
    (depth : Nat) :
    (members.laid l depth).text false = ',' :: (members.laid l depth).text true := by
  cases members with
  | nil => cases more
  | cons => rfl

mutual

theorem Written.text_inline : ∀ w : Written, w.plain .item = true →
    (w.spaced oneBlank).text = w.inline
  | .null, _ | .bool _, _ | .number _, _ | .string _, _ => rfl
  | .array _ items, plain => by
    rw [Written.spaced, Written.text, Written.inline, items.text_inlines plain]
    rfl

/-- Items are written one after the other, with commas between them. -/
theorem Items.text_inlines : ∀ items : Items, items.plain = true →
    (items.spaced oneBlank true).text true = [',', ' '].intercalate items.inlines ++ [']']
  | .nil, _ => rfl
  | .cons _ item _ others, plain => by
    obtain ⟨plainItem, plainOthers⟩ := Bool.and_eq_true_iff.1 plain
    have later := others.text_inlines plainOthers
    rw [Items.spaced, Items.text, item.text_inline plainItem, Items.inlines]
    cases others with
    | nil => simp [Items.spaced, Items.text, Items.inlines, comma, noBlanks]
    | cons lead next trail rest =>
      have nonempty : (Items.cons lead next trail rest).inlines ≠ [] := List.cons_ne_nil _ _
      rw [Items.text_spaced rfl, later, intercalate_cons nonempty]
      simp [comma, noBlanks, oneBlank]

end

mutual

theorem Written.text_laid (l : Layout) : ∀ (w : Written) (depth : Nat), w.plain .member = true →
    (w.laid l depth).text = w.reference l depth
  | .null, _, _ | .bool _, _, _ | .number _, _, _ | .string _, _, _ => rfl
  | .array gap items, _, plain => Written.text_inline (.array gap items) plain
  | .object _ .nil, _, _ => rfl
  | .object _ (.cons lead key before after value trail others), depth, plain => by
    have inside := (Members.cons lead key before after value trail others).text_lines l depth rfl
      plain
    rw [Written.laid, Written.text, inside, Written.reference, Members.isNil]
    rfl

/-- Members are written one after the other, with commas and line breaks between them. -/
theorem Members.text_lines (l : Layout) : ∀ (members : Members) (depth : Nat),
    members.isNil = false → members.plain = true →
      (members.laid l depth).text true =
        '\n' :: ([',', '\n'].intercalate (members.lines l (depth + 1)) ++
          '\n' :: (List.replicate (l.indentWidth * depth) ' ' ++ ['}']))
  | .cons _ key _ _ value _ others, depth, _, plain => by
    obtain ⟨plainValue, plainOthers⟩ := Bool.and_eq_true_iff.1 plain
    rw [Members.laid, Members.text, value.text_laid l (depth + 1) plainValue, Members.lines]
    cases more : others.isNil with
    | true =>
      cases others with
      | nil =>
        simp [Members.laid, Members.text, Members.lines, comma, noBlanks, oneBlank, Layout.line,
          Layout.toList_indent]
      | cons => cases more
    | false =>
      have later := others.text_lines l depth more plainOthers
      have nonempty : others.lines l (depth + 1) ≠ [] := by
        cases others with
        | nil => cases more
        | cons => exact List.cons_ne_nil _ _
      rw [Members.text_laid more, later, intercalate_cons nonempty]
      simp [comma, noBlanks, oneBlank, Layout.line, Layout.toList_indent]

end

end Json

namespace Procedure

open Json (Blanks Written Items Members Literal)

section

variable {lang : Language} {l : Layout} {source text : String}

/-- A text that is rendered is scanned and parsed, and what comes out is what its program renders
as. -/
theorem program_of_render (standard : IsStandard lang)
    (rendered : render source (printer (tokenizerOf lang) l) = .ok text) {lead gap trail : Blanks}
    {members : Members}
    (same : source.toList = lead.1 ++ ((Written.object gap members).text ++ trail.1)) :
    members.plain = true ∧ ∃ tokens,
      tokenize source (printer (tokenizerOf lang) l) = .ok tokens ∧
      lang.program.buildTree tokens =
        .ok (programOf (printer (tokenizerOf lang) l) (startOf lead) gap members).tree ∧
      text = (programOf (printer (tokenizerOf lang) l) (startOf lead) gap members).shown l := by
  have speaks : IsStandard (printer (tokenizerOf lang) l).language := standard
  rw [render] at rendered
  obtain ⟨_, _, rendered⟩ := except_bind_eq_ok.1 rendered
  change (tokenize source (printer (tokenizerOf lang) l) >>= _) = _ at rendered
  obtain ⟨tokens, tokenized, rendered⟩ := except_bind_eq_ok.1 rendered
  change (parse (printer (tokenizerOf lang) l) tokens >>= _) = _ at rendered
  obtain ⟨tree, parsed, rendered⟩ := except_bind_eq_ok.1 rendered
  have built : lang.program.buildTree tokens = .ok tree := ok_of_mapError parsed
  have framed := framed_programOf (printer (tokenizerOf lang) l) (startOf lead) gap members
  obtain rfl := tokens_of_tokenize speaks same tokenized
  obtain ⟨_, rfl⟩ := (buildTree_eq_ok_iff standard.program framed tree).1 built
  refine ⟨plain_of_tokenize speaks same tokenized, _, tokenized, built, ?_⟩
  have shown := rootText_evaluate (defines_render lang l)
    (programOf (printer (tokenizerOf lang) l) (startOf lead) gap members)
  exact Except.ok.inj (rendered.symm.trans shown)

/-- Rendering gives the reference layout of the source, however this is read as a written object.
And in the tree that it reads off, the depths that the scanner gave to the first tokens of objects
and members are the numbers of objects around them. -/
theorem render_reference (spelled : language = .ok lang)
    (rendered : render source (printer (tokenizerOf lang) l) = .ok text) :
    (∃ (lead gap trail : Blanks) (members : Members),
      source.toList = lead.1 ++ ((Written.object gap members).text ++ trail.1)) ∧
    (∀ (lead gap trail : Blanks) (members : Members),
      source.toList = lead.1 ++ ((Written.object gap members).text ++ trail.1) →
        text.toList = (Written.object gap members).reference l 0 ++
          (if l.trailingNewline then ['\n'] else [])) ∧
    ∃ tokens tree u, tokenize source (printer (tokenizerOf lang) l) = .ok tokens ∧
      lang.program.buildTree tokens = .ok tree ∧
      (printer (tokenizerOf lang) l).evaluate tree = u ∧ rootText u = .ok text ∧
      ∀ id ∈ u.preOrder, ∀ n, u.node? id = some n → isNested n.name = true →
        indentOf u id = some (objectsAround u id).ncard := by
  have standard := isStandard_of_language spelled
  obtain ⟨lead, gap, members, trail, written⟩ := spelled_of_render standard rendered
  refine ⟨⟨lead, gap, trail, members, written.text⟩, fun lead gap trail members same => ?_, ?_⟩
  · obtain ⟨plain, _, _, _, rfl⟩ := program_of_render standard rendered same
    rw [shown_programOf, Json.Written.text_laid l (.object gap members) 0 plain]
    rfl
  · obtain ⟨_, tokens, tokenized, built, shown⟩ :=
      program_of_render standard rendered written.text
    have root := rootText_evaluate (defines_render lang l)
      (programOf (printer (tokenizerOf lang) l) (startOf lead) gap members)
    refine ⟨tokens, _, _, tokenized, built, rfl, shown ▸ root, fun id member n found nested => ?_⟩
    have rooted := rooted_plant (Nat.le_of_eq (length_roots_forest
      (programOf (printer (tokenizerOf lang) l) (startOf lead) gap members)))
    have labels := map_snd_plant 0
      (programOf (printer (tokenizerOf lang) l) (startOf lead) gap members).forest
    refine indentOf_evaluate rooted ?_ ?_ member found nested
    · rw [labels]
      exact Program.faithful_forest _
    · rw [labels]
      exact indented_programOf lang l (startOf lead) gap members

end

/-- An object in an object, with a list in a list. -/
theorem render_reference_nested : ∃ lang members u, language = .ok lang ∧
    render "\x7b\"a\":\x7b\"b\":[true,[ ]]\x7d \x7d" (printer (tokenizerOf lang) ⟨2, true⟩) =
      .ok "\x7b\n  \"a\": \x7b\n    \"b\": [true, []]\n  \x7d\n\x7d\n" ∧
    "\x7b\n  \"a\": \x7b\n    \"b\": [true, []]\n  \x7d\n\x7d\n".toList =
      (Written.object Json.noBlanks members).reference ⟨2, true⟩ 0 ++ ['\n'] ∧
    rootText u = .ok "\x7b\n  \"a\": \x7b\n    \"b\": [true, []]\n  \x7d\n\x7d\n" ∧
    ∀ id ∈ u.preOrder, ∀ n, u.node? id = some n → isNested n.name = true →
      indentOf u id = some (objectsAround u id).ncard := by
  obtain ⟨lang, spelled⟩ := exists_language
  let tight : Blanks := Json.noBlanks
  let space : Blanks := ⟨[' '], List.forall_mem_singleton.2 rfl⟩
  let a : Literal := ⟨[.plain 'a'], ['a'], rfl⟩
  let b : Literal := ⟨[.plain 'b'], ['b'], rfl⟩
  let list : Written := .array tight
    (.cons tight (.bool true) tight (.cons tight (.array space .nil) tight .nil))
  let inner : Members := .cons tight b tight tight list tight .nil
  let members : Members := .cons tight a tight tight (.object tight inner) space .nil
  have written : Spelled "\x7b\"a\":\x7b\"b\":[true,[ ]]\x7d \x7d" tight tight members tight :=
    ⟨by decide +kernel, rfl, by decide, by decide +kernel, rfl⟩
  have canonical := written.render_eq (isStandard_of_language spelled) ⟨2, true⟩
  have text : String.ofList (((Written.object tight members).laid ⟨2, true⟩ 0).text ++
      (Layout.finish ⟨2, true⟩).1) =
        "\x7b\n  \"a\": \x7b\n    \"b\": [true, []]\n  \x7d\n\x7d\n" := by
    decide +kernel
  rw [text] at canonical
  obtain ⟨-, reads, tokens, tree, u, -, -, -, root, depths⟩ := render_reference spelled canonical
  exact ⟨lang, members, u, spelled, canonical, reads tight tight tight members written.text, root,
    depths⟩

end Procedure

end AttrGrammar
