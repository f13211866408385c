import AttrGrammar.Proofs.Procedure.Compiling
import AttrGrammar.Proofs.Procedure.Invariance
import AttrGrammar.Proofs.Procedure.Printing

/-!
Rendering keeps the program.

A source that can be rendered is spelled by members whose tokens are those of a well-formed program.
Its rendered text is spelled by the same members, laid out, and whatever is found of a source depends
on its members only, and not on the blanks around their parts.
-/

namespace AttrGrammar.Procedure

open Scanner (advance)
open Json (Blanks Written Items Members Literal noLines)

theorem statements?_noLines (members : Members) (first first' : Bool) (depth depth' : Nat)
    (place place' : Nat × Nat) : members.statements? noLines first depth place =
      members.statements? noLines first' depth' place' := by
  have tight : members.tight.statements? noLines true 0 (1, 1) =
      members.statements? noLines first depth place := Json.statements?_tight members
  rw [← tight, Json.statements?_tight members]

/-- The statements of the members of an object but for their lines. -/
def bodyOf (members : Members) : Option (List Statement) :=
  members.statements? noLines true 0 (1, 1)

/-- The program of a text is well formed just if its members can be decoded. -/
theorem wellFormed_programOf (g : Attribution) {gap : Blanks} {members : Members}
    (plain : members.plain = true) (shallow : members.depth < Json.depthLimit) (place : Nat × Nat) :
    (programOf g place gap members).WellFormed ↔ (bodyOf members).isSome = true := by
  cases nothing : members.isNil with
  | true =>
    cases members with
    | nil => exact iff_of_true (valueToken_name g 0 place (.object gap .nil)) rfl
    | cons => cases nothing
  | false =>
    rw [(decodes_programOf g nothing plain shallow place gap).1, bodyOf,
      statements?_noLines members true true 0 0 (1, 1) (advance place ('{' :: gap.1)),
      ← Json.statements?_unlined (linesOf g), Option.isSome_map]

/-- A fault without its line. -/
def CompileError.unlined : CompileError → CompileError
  | .semantic e => .semantic e.unlined
  | e => e

/-- A source is spelled by the members of an object, with blanks around it, and no stage up to the
parser refuses it. -/
structure Spelled (source : String) (lead gap : Blanks) (members : Members) (trail : Blanks) :
    Prop where
  text : source.toList = lead.1 ++ ((Written.object gap members).text ++ trail.1)
  plain : members.plain = true
  shallow : (Written.object gap members).depth < Json.depthLimit
  clear : objectInMembers? "" (members.entries []) = none
  decoded : (bodyOf members).isSome = true

namespace Spelled

variable {source : String} {lead gap trail : Blanks} {members : Members}
  (spelled : Spelled source lead gap members trail)

include spelled

theorem membersOf_eq : membersOf source = .ok (members.entries []) := by
  have read := Json.read_text lead trail (.object gap members) spelled.shallow
  rw [← spelled.text, String.ofList_toList] at read
  rw [membersOf, read]
  rfl

theorem checkInput_eq :
    checkInput source = .ok (if members.isNil then .empty else .program) := by
  have isEmpty := isEmpty_entries members []
  rw [checkInput, spelled.membersOf_eq]
  simp only [bind, Except.bind, spelled.clear]
  rw [isEmpty]
  rfl

theorem wellFormed (g : Attribution) :
    (programOf g (startOf lead) gap members).WellFormed :=
  (wellFormed_programOf g spelled.plain (Nat.lt_of_succ_lt spelled.shallow) _).2 spelled.decoded

theorem tokenize_eq {g : Attribution} (standard : IsStandard g.language) :
    tokenize source g = .ok (programOf g (startOf lead) gap members).tokens :=
  (parse_program standard spelled.text spelled.plain (spelled.wellFormed g)).1

/-- The source in canonical layout. -/
theorem render_eq {lang : Language} (standard : IsStandard lang) (l : Layout) :
    render source (printer (tokenizerOf lang) l) =
      .ok (String.ofList (((Written.object gap members).laid l 0).text ++ l.finish.1)) := by
  have speaks : IsStandard (printer (tokenizerOf lang) l).language := standard
  obtain ⟨tokens, tree⟩ := parse_program speaks spelled.text spelled.plain (spelled.wellFormed _)
  have shown := shown_programOf lang l (startOf lead) gap members
  have text := rootText_evaluate (defines_render lang l)
    (programOf (printer (tokenizerOf lang) l) (startOf lead) gap members)
  rw [← shown, String.ofList_toList, ← text, render, spelled.checkInput_eq]
  change (tokenize source (printer (tokenizerOf lang) l) >>= _) = _
  rw [tokens]
  change (parse (printer (tokenizerOf lang) l) _ >>= _) = _
  rw [tree]
  rfl

/-- Compiling comes to what the members mean, or to the fault in them, but for its line. -/
theorem compile_eq {g : Attribution} (standard : IsStandard g.language) (scopes : StandardScope g)
    {body : List Statement} (decoded : bodyOf members = some body) :
    ((compile source g).map (Option.map Environment.symbols)).mapError CompileError.unlined =
      if members.isNil then .ok none else ((meaning body).mapError .semantic).map some := by
  have checked := spelled.checkInput_eq
  cases nothing : members.isNil with
  | true =>
    rw [nothing] at checked
    rw [compile, checked]
    rfl
  | false =>
    rw [nothing] at checked
    have known := (spelled.wellFormed (withScope g)).known
    have unlined := Json.statements?_unlined (linesOf (withScope g)) members true 0
      (advance (startOf lead) ('{' :: gap.1))
    rw [statements?_noLines members true true 0 0 _ (1, 1),
      show members.statements? noLines true 0 (1, 1) = some body from decoded] at unlined
    rcases compile_text standard scopes checked spelled.text nothing spelled.plain
        (Nat.lt_of_succ_lt spelled.shallow) with
      ⟨form, found, _⟩ | ⟨_, ⟨undecided, _⟩ | ⟨body', tree, decides, outcome⟩⟩
    · have unknown := List.find?_some found
      exact absurd (beq_iff_eq.1 unknown) (known form (List.mem_of_find?_eq_some found))
    · rw [undecided] at unlined
      cases unlined
    · rw [decides, Option.map_some, Option.some.injEq] at unlined
      rw [outcome, ← unlined, meaning, meaning, runBody_unlined]
      cases runBody true "" ∅ body' <;> rfl

/-- The canonical text is spelled by the same members, laid out. -/
theorem laid (l : Layout) :
    Spelled (String.ofList (((Written.object gap members).laid l 0).text ++ l.finish.1))
      Json.noBlanks Json.noBlanks (members.laid l 0) l.finish where
  text := String.toList_ofList
  plain := (Json.Members.laid_congr Json.Members.plain_tight l 0 members).trans spelled.plain
  shallow := by
    have same : (members.laid l 0).depth = members.depth :=
      Json.Members.laid_congr Json.Members.depth_tight l 0 members
    rw [Written.depth, same]
    exact spelled.shallow
  clear := by
    have same : (members.laid l 0).entries [] = members.entries [] :=
      Json.Members.laid_congr (fun members => members.entries_tight []) l 0 members
    rw [same]
    exact spelled.clear
  decoded := by
    have same : bodyOf (members.laid l 0) = bodyOf members :=
      Json.Members.laid_congr (fun _ => Json.statements?_tight _) l 0 members
    rw [same]
    exact spelled.decoded

end Spelled

/-- In a text that is scanned no array holds an object. -/
theorem plain_of_tokenize {g : Attribution} (standard : IsStandard g.language) {source : String}
    {lead gap trail : Blanks} {members : Members}
    (same : source.toList = lead.1 ++ ((Written.object gap members).text ++ trail.1))
    {tokens : List Token} (tokenized : tokenize source g = .ok tokens) : members.plain = true := by
  cases other : members.plain with
  | true => rfl
  | false =>
    have whole : (Written.object gap members).plain .member = false := other
    obtain ⟨e, stops⟩ := standard.scanner.scan_fails same whole
    rw [tokenize, Language.scan, stops] at tokenized
    cases tokenized

/-- The tokens that a text comes to are those of its program. -/
theorem tokens_of_tokenize {g : Attribution} (standard : IsStandard g.language) {source : String}
    {lead gap trail : Blanks} {members : Members}
    (same : source.toList = lead.1 ++ ((Written.object gap members).text ++ trail.1))
    {tokens : List Token} (tokenized : tokenize source g = .ok tokens) :
    tokens = (programOf g (startOf lead) gap members).tokens := by
  rw [tokenize_text standard same (plain_of_tokenize standard same tokenized)] at tokenized
  cases forms : g.language.checkForms (programOf g (startOf lead) gap members).tokens with
  | ok =>
    rw [forms] at tokenized
    cases tokenized
    rfl
  | error e =>
    rw [forms] at tokenized
    cases tokenized

/-- Only sources that are spelled so are checked, scanned and parsed. -/
theorem spelled_of_parse {g : Attribution} (standard : IsStandard g.language) {source : String}
    {kind : InputKind} (checked : checkInput source = .ok kind) {tokens : List Token}
    (tokenized : tokenize source g = .ok tokens) {tree : ParseTree}
    (parsed : parse g tokens = .ok tree) :
    ∃ lead gap members trail, Spelled source lead gap members trail := by
  have built : g.language.program.buildTree tokens = .ok tree := ok_of_mapError parsed
  obtain ⟨lead, trail, gap, members, same, clear, shallow, _⟩ := written_of_checkInput checked
  have plain := plain_of_tokenize standard same tokenized
  have framed := framed_programOf g (startOf lead) gap members
  rw [tokens_of_tokenize standard same tokenized] at built
  have wellFormed := ((buildTree_eq_ok_iff standard.program framed tree).1 built).1
  exact ⟨lead, gap, members, trail, same, plain, shallow, clear,
    (wellFormed_programOf _ plain (Nat.lt_of_succ_lt shallow) _).1 wellFormed⟩

/-- Only sources that are spelled so can be rendered. -/
theorem spelled_of_render {lang : Language} (standard : IsStandard lang) {l : Layout}
    {source text : String} (rendered : render source (printer (tokenizerOf lang) l) = .ok text) :
    ∃ lead gap members trail, Spelled source lead gap members trail := by
  have speaks : IsStandard (printer (tokenizerOf lang) l).language := standard
  rw [render] at rendered
  obtain ⟨kind, accepted, rendered⟩ := except_bind_eq_ok.1 rendered
  change (tokenize source (printer (tokenizerOf lang) l) >>= _) = _ at rendered
  obtain ⟨tokens, tokenized, rendered⟩ := except_bind_eq_ok.1 rendered
  change (parse (printer (tokenizerOf lang) l) tokens >>= _) = _ at rendered
  obtain ⟨tree, parsed, _⟩ := except_bind_eq_ok.1 rendered
  exact spelled_of_parse speaks (ok_of_mapError accepted) tokenized parsed

/-- Two sources are one program in different layouts. -/
structure SameProgram (lang : Language) (source text : String) : Prop where
  /-- Both pass the check of the input, and are empty or not. -/
  check : ∃ kind, checkInput source = .ok kind ∧ checkInput text = .ok kind
  /-- Their tokens have the same names and lexemes. -/
  tokens : ∀ g : Attribution, g.language = lang → ∃ ts us, tokenize source g = .ok ts ∧
    tokenize text g = .ok us ∧ us.map Token.word = ts.map Token.word
  /-- They are the same object. -/
  object : ∃ members, membersOf source = .ok members ∧ membersOf text = .ok members
  /-- They render alike in every layout. -/
  layout : ∀ l, ∃ laid, render source (printer (tokenizerOf lang) l) = .ok laid ∧
    render text (printer (tokenizerOf lang) l) = .ok laid
  /-- They compile to the same symbol table, or fail alike up to a line. -/
  symbols : ∀ g : Attribution, g.language = lang → StandardScope g →
    ((compile text g).map (Option.map Environment.symbols)).mapError CompileError.unlined =
      ((compile source g).map (Option.map Environment.symbols)).mapError CompileError.unlined

/-- Sources whose members are the same without their blanks are one program. -/
theorem Spelled.sameProgram {lang : Language} (standard : IsStandard lang) {source text : String}
    {lead lead' gap gap' trail trail' : Blanks} {members members' : Members}
    (spelled : Spelled source lead gap members trail)
    (spelled' : Spelled text lead' gap' members' trail')
    (tight : members'.tight = members.tight) : SameProgram lang source text := by
  have isNil : members'.isNil = members.isNil := by
    rw [← members'.isNil_tight, tight, members.isNil_tight]
  have entries : members'.entries [] = members.entries [] := by
    rw [← members'.entries_tight, tight, members.entries_tight]
  have words : (Written.object gap' members').words = (Written.object gap members).words := by
    rw [← Json.Written.words_tight, ← (Written.object gap members).words_tight, Written.tight,
      Written.tight, tight]
  have laid : ∀ l, (Written.object gap' members').laid l 0 = (Written.object gap members).laid l 0 := by
    intro l
    rw [← Json.Written.laid_tight, ← (Written.object gap members).laid_tight, Written.tight,
      Written.tight, tight]
  have body : bodyOf members' = bodyOf members := by
    have same : members'.tight.statements? noLines true 0 (1, 1) = bodyOf members' :=
      Json.statements?_tight members'
    rw [← same, tight]
    exact Json.statements?_tight members
  refine ⟨⟨_, spelled.checkInput_eq, by rw [spelled'.checkInput_eq, isNil]⟩, fun g speaks => ?_,
    ⟨_, spelled.membersOf_eq, by rw [spelled'.membersOf_eq, entries]⟩,
    fun l => ⟨_, spelled.render_eq standard l, by rw [spelled'.render_eq standard, laid]⟩,
    fun g speaks scopes => ?_⟩
  · have standard' : IsStandard g.language := speaks ▸ standard
    refine ⟨_, _, spelled.tokenize_eq standard', spelled'.tokenize_eq standard', ?_⟩
    rw [words_programOf, words_programOf, words]
  · have standard' : IsStandard g.language := speaks ▸ standard
    obtain ⟨statements, decoded⟩ := Option.isSome_iff_exists.1 spelled.decoded
    rw [spelled.compile_eq standard' scopes decoded,
      spelled'.compile_eq standard' scopes (body.trans decoded), isNil]

/-- Rendering keeps the program, whatever the layout. -/
theorem sameProgram_of_render {lang : Language} (built : language = .ok lang) {l : Layout}
    {source text : String} (rendered : render source (printer (tokenizerOf lang) l) = .ok text) :
    SameProgram lang source text := by
  have standard := isStandard_of_language built
  obtain ⟨lead, gap, members, trail, spelled⟩ := spelled_of_render standard rendered
  have canonical := spelled.render_eq standard l
  rw [rendered, Except.ok.injEq] at canonical
  subst canonical
  exact spelled.sameProgram standard (spelled.laid l) (members.tight_laid l 0)

theorem sameProgram_of_render_nested : ∃ lang, language = .ok lang ∧
    render "\x7b\"a\" :[null,[\"&b\"]],\"c\":\x7b\"&ref\":\"a\"\x7d \x7d"
        (printer (tokenizerOf lang) ⟨1, false⟩) =
      .ok "\x7b\n \"a\": [null, [\"&b\"]],\n \"c\": \x7b\n  \"&ref\": \"a\"\n \x7d\n\x7d" ∧
    SameProgram lang "\x7b\"a\" :[null,[\"&b\"]],\"c\":\x7b\"&ref\":\"a\"\x7d \x7d"
      "\x7b\n \"a\": [null, [\"&b\"]],\n \"c\": \x7b\n  \"&ref\": \"a\"\n \x7d\n\x7d" := by
  obtain ⟨lang, built⟩ := exists_language
  have standard := isStandard_of_language built
  let gap : Blanks := Json.noBlanks
  let space : Blanks := ⟨[' '], List.forall_mem_singleton.2 rfl⟩
  let a : Literal := ⟨[.plain 'a'], ['a'], rfl⟩
  let b : Literal := ⟨[.plain '&', .plain 'b'], ['&', 'b'], rfl⟩
  let c : Literal := ⟨[.plain 'c'], ['c'], rfl⟩
  let form : Literal :=
    ⟨[.plain '&', .plain 'r', .plain 'e', .plain 'f'], ['&', 'r', 'e', 'f'], rfl⟩
  let list : Written := .array gap
    (.cons gap .null gap (.cons gap (.array gap (.cons gap (.string b) gap .nil)) gap .nil))
  let inner : Members := .cons gap form gap gap (.string a) gap .nil
  let members : Members := .cons gap a space gap list gap
    (.cons gap c gap gap (.object gap inner) space .nil)
  have spelled : Spelled "\x7b\"a\" :[null,[\"&b\"]],\"c\":\x7b\"&ref\":\"a\"\x7d \x7d" gap gap
      members gap := ⟨by decide +kernel, rfl, by decide, by decide +kernel, rfl⟩
  have canonical := spelled.render_eq standard ⟨1, false⟩
  have text : String.ofList (((Written.object gap members).laid ⟨1, false⟩ 0).text ++
      (Layout.finish ⟨1, false⟩).1) =
        "\x7b\n \"a\": [null, [\"&b\"]],\n \"c\": \x7b\n  \"&ref\": \"a\"\n \x7d\n\x7d" := by
    decide +kernel
  rw [text] at canonical
  exact ⟨lang, built, canonical, sameProgram_of_render built canonical⟩

end AttrGrammar.Procedure
