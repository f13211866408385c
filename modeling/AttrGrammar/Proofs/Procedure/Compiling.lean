import AttrGrammar.Proofs.Procedure.Checked
import AttrGrammar.Proofs.Procedure.Statements

/-!
What compiling a text comes to.

The text of an accepted source is that of an object with blanks around it. If no array in it holds
an object, its tokens are those of a program; they may hold an unknown special form, the parser
accepts them just if the members can be decoded, and then the symbol table is what they mean.
-/

namespace AttrGrammar.Procedure

open Scanner (advance)
open Json (Blanks Written Items Members Literal)

variable {g : Attribution} {source : String} {lead trail gap : Blanks} {members : Members}

/-- The place of the first character that is no blank. -/
def startOf (lead : Blanks) : Nat × Nat := advance (1, 1) lead.1

/-- Scanning and folding a text makes the tokens of its program. -/
theorem tokenize_text (standard : IsStandard g.language)
    (same : source.toList = lead.1 ++ ((Written.object gap members).text ++ trail.1))
    (plain : members.plain = true) :
    tokenize source g =
      ((g.language.checkForms (programOf g (startOf lead) gap members).tokens).mapError
        .unknownForm).map fun _ => (programOf g (startOf lead) gap members).tokens := by
  have whole : (Written.object gap members).plain .member = true := plain
  have scanned : g.language.scan g.annotate source =
      .ok (rawAll ((Written.object gap members).pieces (emit g.annotate) .member 0
        (startOf lead))) := standard.scanner.scan_text same whole
  have fit : Fit none ((Written.object gap members).pieces (emit g.annotate) .member 0
      (startOf lead) ++ []) :=
    fit_value (makes_emit g) _ 0 _ whole rfl trivial
  rw [List.append_nil] at fit
  have folded : g.language.fold g.combine _ = _ := run_rawAll (joins_combine g) standard fit
  rw [← tokens_programOf] at folded
  rw [tokenize, scanned]
  change (((g.language.fold g.combine _).mapError CompileError.grammar) >>= _) = _
  rw [folded]
  change ((g.language.checkForms _).mapError CompileError.unknownForm >>= _) = _
  cases g.language.checkForms (programOf g (startOf lead) gap members).tokens <;> rfl

/-- The symbol table of a text, or why there is none. -/
theorem compile_text (standard : IsStandard g.language) (scopes : StandardScope g)
    (checked : checkInput source = .ok .program)
    (same : source.toList = lead.1 ++ ((Written.object gap members).text ++ trail.1))
    (visible : members.isNil = false) (plain : members.plain = true)
    (shallow : members.depth < Json.depthLimit) :
    (∃ form, (programOf (withScope g) (startOf lead) gap members).tokens.find?
          (·.name == Construct.unknownForm.name) = .some form ∧
        ∃ e, compile source g = .error (.unknownForm e)) ∨
      (programOf (withScope g) (startOf lead) gap members).tokens.find?
          (·.name == Construct.unknownForm.name) = none ∧
        (members.statements? (linesOf (withScope g)) true 0
              (advance (startOf lead) ('{' :: gap.1)) = none ∧
            (∃ e, compile source g = .error (.parse e)) ∨
          ∃ body tree, members.statements? (linesOf (withScope g)) true 0
              (advance (startOf lead) ('{' :: gap.1)) = .some body ∧
            compile source g = ((meaning body).mapError .semantic).map fun symbols =>
              .some { source, tree, symbols }) := by
  have speaks : (withScope g).language = g.language := by
    unfold withScope
    split <;> rfl
  have standard' : IsStandard (withScope g).language := speaks ▸ standard
  obtain ⟨declared, evaluates⟩ := withScope_declares scopes
  have tokens := tokenize_text (g := withScope g) standard' same plain
  have framed := framed_programOf (withScope g) (startOf lead) gap members
  obtain ⟨accepted, decoded⟩ :=
    decodes_programOf (withScope g) visible plain shallow (startOf lead) gap
  generalize programOf (withScope g) (startOf lead) gap members = o at *
  generalize members.statements? (linesOf (withScope g)) true 0 _ = statements? at *
  have start : compile source g = (tokenize source (withScope g) >>= fun tokens =>
      parse (withScope g) tokens >>= fun tree =>
        (simplified tree).mapError .tree >>= fun simple =>
          (symbolsOf ((withScope g).evaluate simple)).mapError .semantic >>= fun symbols =>
            .ok (.some { source, tree := (withScope g).evaluate simple, symbols })) := by
    rw [compile, checked]
    rfl
  rw [tokens, Language.checkForms, standard'.unknownForm] at start
  dsimp only at start
  rw [AttrGrammar.checkForms] at start
  cases found : o.tokens.find? (·.name == Construct.unknownForm.name) with
  | some form =>
    rw [found] at start
    exact Or.inl ⟨form, rfl, _, start⟩
  | none =>
    rw [found] at start
    replace start : compile source g = (parse (withScope g) o.tokens >>= fun tree =>
        (simplified tree).mapError .tree >>= fun simple =>
          (symbolsOf ((withScope g).evaluate simple)).mapError .semantic >>= fun symbols =>
            .ok (.some { source, tree := (withScope g).evaluate simple, symbols })) := start
    refine Or.inr ⟨rfl, ?_⟩
    have built := buildTree_eq_ok_iff standard'.program framed
    rw [parse] at start
    by_cases wellFormed : o.WellFormed
    · obtain ⟨body, known⟩ := Option.isSome_iff_exists.1 (accepted.1 wellFormed)
      obtain ⟨simple, f, simplifies, rooted, labels⟩ := simplified_tree wellFormed
      have meant := symbolsOf_evaluate declared evaluates wellFormed rooted labels
        ((decoded wellFormed).trans known)
      rw [(built _).2 ⟨wellFormed, rfl⟩] at start
      change compile source g = ((simplified o.tree).mapError .tree >>= _) at start
      rw [simplifies] at start
      change compile source g =
        ((symbolsOf ((withScope g).evaluate simple)).mapError .semantic >>= _) at start
      rw [meant] at start
      refine Or.inr ⟨body, (withScope g).evaluate simple, known, start.trans ?_⟩
      cases meaning body <;> rfl
    · have undecided : statements? = none := by
        cases known : statements? with
        | none => rfl
        | some body => exact absurd (accepted.2 (by rw [known]; rfl)) wellFormed
      refine Or.inl ⟨undecided, ?_⟩
      cases parsed : (withScope g).language.program.buildTree o.tokens with
      | ok tree => exact absurd ((built tree).1 parsed).1 wellFormed
      | error e =>
        rw [parsed] at start
        exact ⟨e, start⟩

theorem pairOf?_not_unknown {head value : String} (paired : (pairOf? head value).isSome = true) :
    head ≠ Construct.unknownForm.name ∧ value ≠ Construct.unknownForm.name := by
  have other : ∀ n ∈ pairedNames, n ≠ Construct.unknownForm.name := by decide
  obtain ⟨first, second⟩ := pairOf?_mem paired
  exact ⟨other head first, other value second⟩

mutual

theorem Member.WellFormed.known : ∀ {m : Member}, m.WellFormed →
    ∀ t ∈ m.tokens, t.name ≠ Construct.unknownForm.name
  | .plain .., ⟨named, paired⟩ => by
    obtain ⟨head, value⟩ := pairOf?_not_unknown paired
    simp only [Member.tokens, List.forall_mem_cons]
    exact ⟨head, by rw [named]; decide, value, List.forall_mem_nil _⟩
  | .nested .., ⟨key, named, opens, first, others, closes⟩ => by
    simp only [Member.tokens, List.forall_mem_cons, List.forall_mem_append]
    refine ⟨?_, by rw [named]; decide, by rw [opens]; decide, first.known, others.known,
      by rw [closes]; decide, List.forall_mem_nil _⟩
    rcases isKey_iff.1 key with name | name <;> rw [name] <;> decide

theorem MemberTail.WellFormed.known : ∀ {t : MemberTail}, t.WellFormed →
    ∀ token ∈ t.tokens, token.name ≠ Construct.unknownForm.name
  | .nil, _ => fun _ among => (List.not_mem_nil among).elim
  | .cons .., ⟨named, member, others⟩ => by
    simp only [MemberTail.tokens, List.forall_mem_cons, List.forall_mem_append]
    exact ⟨by rw [named]; decide, member.known, others.known⟩

end

theorem Program.WellFormed.known {o : Program} (wellFormed : o.WellFormed) :
    ∀ t ∈ o.tokens, t.name ≠ Construct.unknownForm.name := by
  cases o with
  | empty token =>
    have named : token.name = Construct.emptyObject.name := wellFormed
    simp only [Program.tokens, List.forall_mem_cons]
    exact ⟨by rw [named]; decide, List.forall_mem_nil _⟩
  | members opening first others closing =>
    obtain ⟨opens, wellFirst, wellOthers, closes⟩ := wellFormed
    simp only [Program.tokens, List.forall_mem_cons, List.forall_mem_append]
    exact ⟨by rw [opens]; decide, wellFirst.known, wellOthers.known, by rw [closes]; decide,
      List.forall_mem_nil _⟩

/-- A text whose program is well formed comes to the tokens and the tree of it. -/
theorem parse_program (standard : IsStandard g.language)
    (same : source.toList = lead.1 ++ ((Written.object gap members).text ++ trail.1))
    (plain : members.plain = true)
    (wellFormed : (programOf g (startOf lead) gap members).WellFormed) :
    tokenize source g = .ok (programOf g (startOf lead) gap members).tokens ∧
      parse g (programOf g (startOf lead) gap members).tokens =
        .ok (programOf g (startOf lead) gap members).tree := by
  have tokens := tokenize_text standard same plain
  have framed := framed_programOf g (startOf lead) gap members
  generalize programOf g (startOf lead) gap members = o at *
  have known : o.tokens.find? (·.name == Construct.unknownForm.name) = .none :=
    List.find?_eq_none.2 fun t member => by simpa using wellFormed.known t member
  rw [Language.checkForms, standard.unknownForm] at tokens
  dsimp only at tokens
  rw [AttrGrammar.checkForms, known] at tokens
  refine ⟨tokens, ?_⟩
  rw [parse, (buildTree_eq_ok_iff standard.program framed _).2 ⟨wellFormed, rfl⟩]
  rfl

/-- A text that can be decoded is parsed. -/
theorem parse_text (standard : IsStandard g.language)
    (same : source.toList = lead.1 ++ ((Written.object gap members).text ++ trail.1))
    (plain : members.plain = true)
    (wellFormed : (programOf g (startOf lead) gap members).WellFormed) :
    ∃ tokens tree, tokenize source g = .ok tokens ∧ parse g tokens = .ok tree :=
  ⟨_, _, parse_program standard same plain wellFormed⟩

/-- The tokenizer declares no scope. -/
theorem standardScope_tokenizerOf (l : Language) : StandardScope (tokenizerOf l) := by
  intro decl listed named
  simp only [tokenizerOf, List.mem_cons, List.not_mem_nil, or_false] at listed
  rcases listed with rfl | rfl <;> cases named

theorem withScope_usual {l : Language} {g : Attribution}
    (usual : g = tokenizerOf l ∨ g = semantic (tokenizerOf l)) :
    withScope g = semantic (tokenizerOf l) := by
  rcases usual with rfl | rfl <;> rfl

theorem linesOf_usual (l : Language) :
    linesOf (semantic (tokenizerOf l)) = fun _ place _ => some place.1 := by
  funext depth place key
  have begins : ∀ name text, (emit (semantic (tokenizerOf l)).annotate depth place name
      text).attrs.synthesized.line = some (.int place.1) := fun _ _ => rfl
  have first : ∀ n t ts, t.attrs.synthesized.line = some (.int place.1) →
      ((semantic (tokenizerOf l)).combine n (t :: ts)).line? = some place.1 := by
    intro n t ts line
    have found : (semantic (tokenizerOf l)).foldedValue? (t :: ts) .line = some (.int place.1) := by
      rw [Attribution.foldedValue?, List.any_cons, show t.attrs.synthesized.get? .line = _ from line]
      change Attribution.keptValue? .first .line (t :: ts) = _
      rw [Attribution.keptValue?, List.findSome?_cons,
        show t.attrs.synthesized.get? .line = _ from line]
    change (((semantic (tokenizerOf l)).foldedValue? (t :: ts) .line).bind AttrValue.int?) = _
    rw [found]
    rfl
  rw [linesOf, keyToken, stringPiece]
  split
  · rfl
  · exact first _ _ _ (begins _ _)

/-- A source whose tokens are parsed is compiled to its symbol table, or it has none. -/
theorem compile_parsed (checked : checkInput source = .ok .program) {tokens : List Token}
    {tree : ParseTree} (tokenized : tokenize source (withScope g) = .ok tokens)
    (parsed : parse (withScope g) tokens = .ok tree) :
    (∀ e, compile source g ≠ .error (.unknownForm e)) ∧
      ∀ e, compile source g ≠ .error (.parse e) := by
  have start : compile source g = ((simplified tree).mapError .tree >>= fun simple =>
      (symbolsOf ((withScope g).evaluate simple)).mapError .semantic >>= fun symbols =>
        .ok (some { source, tree := (withScope g).evaluate simple, symbols })) := by
    rw [compile, checked]
    change (tokenize source (withScope g) >>= _) = _
    rw [tokenized]
    change (parse (withScope g) tokens >>= _) = _
    rw [parsed]
    rfl
  rw [start]
  cases simplified tree with
  | error e => exact ⟨nofun, nofun⟩
  | ok simple =>
    change (∀ e, ((symbolsOf _).mapError CompileError.semantic >>= _) ≠ _) ∧
      ∀ e, ((symbolsOf _).mapError CompileError.semantic >>= _) ≠ _
    cases symbolsOf ((withScope g).evaluate simple) with
    | error e => exact ⟨nofun, nofun⟩
    | ok symbols => exact ⟨nofun, nofun⟩

/-- Where compiling comes to the symbol table, it binds what the members of the text bind in the order
of the text, or it stops at the fault that they stop at. -/
theorem compile_eq_meaning {l : Language} (built : language = .ok l)
    (usual : g = tokenizerOf l ∨ g = semantic (tokenizerOf l))
    (checked : checkInput source = .ok .program) {tokens : List Token} {tree : ParseTree}
    (tokenized : tokenize source (withScope g) = .ok tokens)
    (parsed : parse (withScope g) tokens = .ok tree) :
    ∃ (lead trail gap : Blanks) (members : Members) (body : List Statement),
      source.toList = lead.1 ++ ((Written.object gap members).text ++ trail.1) ∧
        members.statements? (fun _ place _ => some place.1) true 0
            (advance (startOf lead) ('{' :: gap.1)) = some body ∧
          (compile source g).map (Option.map fun environment => environment.symbols.entries) =
            ((bindsAll true "" [] body).mapError .semantic).map some := by
  have speaks : g.language = l := by rcases usual with rfl | rfl <;> rfl
  have standard : IsStandard g.language := speaks ▸ isStandard_of_language built
  have declared := standardScope_tokenizerOf l
  have scopes : StandardScope g := by
    rcases usual with rfl | rfl
    · exact declared
    · exact (withScope_declares declared).2
  obtain ⟨lead, trail, gap, members, same, _, shallow, known⟩ := written_of_checkInput checked
  have isSome : members.isNil = false := by
    cases nothing : members.isNil with
    | false => rfl
    | true =>
      rw [nothing] at known
      cases known
  have speaks' : (withScope g).language = l := by rcases usual with rfl | rfl <;> rfl
  have plain : members.plain = true := by
    cases other : members.plain with
    | true => rfl
    | false =>
      have whole : (Written.object gap members).plain .member = false := other
      obtain ⟨e, stops⟩ := (isStandard_of_language built).scanner.scan_fails same whole
      rw [tokenize, speaks', Language.scan, stops] at tokenized
      cases tokenized
  obtain ⟨notUnknown, notParse⟩ := compile_parsed checked tokenized parsed
  rcases compile_text standard scopes checked same isSome plain (Nat.lt_of_succ_lt shallow) with
    ⟨_, _, e, fails⟩ | ⟨_, ⟨_, e, fails⟩ | ⟨body, tree, decoded, outcome⟩⟩
  · exact absurd fails (notUnknown e)
  · exact absurd fails (notParse e)
  · rw [withScope_usual usual, linesOf_usual] at decoded
    refine ⟨lead, trail, gap, members, body, same, decoded, ?_⟩
    have bound : (meaning body).map Table.entries = bindsAll true "" [] body :=
      entries_runBody body true "" ∅
    rw [outcome, ← bound]
    cases meaning body <;> rfl

/-- Two lists, one in the other, a key that comes again, parameters with a known name among them,
a documentation, and an object with two references. -/
def mixedSource : String :=
  "\x7b\"a\":1,\"b\":[true,[\"a\"],null],\"&let\":[\"p\",\"a\"],\"&doc\":\"d\"," ++
    "\"p\":\x7b\"&ref\":\"b\",\"&ref\":\"a\",\"b\":\x7b\x7d\x7d,\"a\":null\x7d"

theorem compile_eq_meaning_mixed : ∃ l, language = .ok l ∧
    checkInput mixedSource = .ok .program ∧
      (∃ tokens tree, tokenize mixedSource (withScope (tokenizerOf l)) = .ok tokens ∧
        parse (withScope (tokenizerOf l)) tokens = .ok tree) ∧
      ∃ (lead trail gap : Blanks) (members : Members) (body : List Statement),
        mixedSource.toList = lead.1 ++ ((Written.object gap members).text ++ trail.1) ∧
          members.statements? (fun _ place _ => some place.1) true 0
              (advance (startOf lead) ('{' :: gap.1)) = some body ∧
            (compile mixedSource (tokenizerOf l)).map
                (Option.map fun environment => environment.symbols.entries) =
              ((bindsAll true "" [] body).mapError .semantic).map some := by
  obtain ⟨l, built⟩ := exists_language
  let gap : Blanks := Json.noBlanks
  let a : Literal := ⟨[.plain 'a'], ['a'], rfl⟩
  let b : Literal := ⟨[.plain 'b'], ['b'], rfl⟩
  let d : Literal := ⟨[.plain 'd'], ['d'], rfl⟩
  let p : Literal := ⟨[.plain 'p'], ['p'], rfl⟩
  let letForm : Literal :=
    ⟨[.plain '&', .plain 'l', .plain 'e', .plain 't'], ['&', 'l', 'e', 't'], rfl⟩
  let refForm : Literal :=
    ⟨[.plain '&', .plain 'r', .plain 'e', .plain 'f'], ['&', 'r', 'e', 'f'], rfl⟩
  let docForm : Literal :=
    ⟨[.plain '&', .plain 'd', .plain 'o', .plain 'c'], ['&', 'd', 'o', 'c'], rfl⟩
  obtain ⟨one, positive, _, digits⟩ := Json.Numeral.exists_of_readNumber
    (show Json.readNumber false ['1'] = .ok (.int 1, []) from rfl)
  have written : one.text = ['1'] := by
    rw [Json.Numeral.text, positive, if_neg Bool.false_ne_true, ← List.append_nil one.digits, ← digits]
  let items : Items := .cons gap (.bool true) gap (.cons gap
    (.array gap (.cons gap (.string a) gap .nil)) gap (.cons gap .null gap .nil))
  let inner : Members := .cons gap refForm gap gap (.string b) gap
    (.cons gap refForm gap gap (.string a) gap
      (.cons gap b gap gap (.object gap .nil) gap .nil))
  let members : Members := .cons gap a gap gap (.number one) gap
    (.cons gap b gap gap (.array gap items) gap
      (.cons gap letForm gap gap
        (.array gap (.cons gap (.string p) gap (.cons gap (.string a) gap .nil))) gap
        (.cons gap docForm gap gap (.string d) gap
          (.cons gap p gap gap (.object gap inner) gap
            (.cons gap a gap gap .null gap .nil)))))
  have same : mixedSource.toList =
      gap.1 ++ ((Written.object gap members).text ++ gap.1) := by
    simp only [members, Written.text, Members.text, written]
    decide +kernel
  have checked : checkInput mixedSource = .ok .program := by
    decide +kernel
  have shallow : members.depth < Json.depthLimit := by
    change 2 < Json.depthLimit
    decide
  have decoded := (decodes_programOf (semantic (tokenizerOf l)) (rfl : members.isNil = false) rfl
    shallow (startOf gap) gap).1
  have wellFormed := decoded.2 <| by
    rw [isSome_statements?_cons, Bool.and_eq_true]
    refine ⟨?_, rfl⟩
    change (((Decimal.read? (String.ofList one.text)).map Value.number).map _).isSome = true
    rw [Option.isSome_map, Option.isSome_map]
    exact Decimal.read?_numeral one
  have standard : IsStandard (semantic (tokenizerOf l)).language := isStandard_of_language built
  obtain ⟨tokens, tree, tokenized, parsed⟩ := parse_text standard same rfl wellFormed
  exact ⟨l, built, checked, ⟨tokens, tree, tokenized, parsed⟩,
    compile_eq_meaning built (Or.inl rfl) checked tokenized parsed⟩

end AttrGrammar.Procedure
