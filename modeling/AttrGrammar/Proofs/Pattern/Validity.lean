import AttrGrammar.Proofs.Grammar.Steps
import AttrGrammar.Proofs.Outcome
import AttrGrammar.Proofs.Pattern.Matching

/-!
Which texts make terminals.

A pattern that is valid on its own makes a terminal, unless it ends in a comment, which takes the end
of the group around it, or the anchors and the group take it over a limit; and what is measured is a
match of it at the start of the text. A text that is no pattern is refused, with one exception: a
closing parenthesis that nothing in the text opens may close the group around the text, and what
comes after it then stands outside of that group.
-/

namespace AttrGrammar

open Pattern.Syntax

namespace Pattern

/-- How deep the parts of a written pattern stand inside each other. -/
def writtenDepth (text : List Char) : Nat :=
  match Stack.run {} (lex {} text).tokens with
  | .ok s => depthOf s.top.all
  | .error _ => 0

/-- Whether a text ends in a comment. -/
def endsInComment (text : List Char) : Bool := (lex {} text).stop.toOption.getD false

/-- A pattern at the start of a text. -/
def atStart (p : Pattern) : Pattern := .choice [.sequence [.assertion .startOfText, p]]

/-- A pattern for a whole text. -/
def throughout (p : Pattern) : Pattern :=
  .choice [.sequence [.assertion .startOfText, p, .assertion .endOfText]]

/-- Whether a written pattern ends outside of comments, and keeps the limits between the anchors as
well. -/
structure Fits (p : Pattern) (text : List Char) : Prop where
  closed : endsInComment text = false
  shallow : writtenDepth text + 2 ≤ depthLimit
  start : p.atStart.isSmall = true
  whole : p.throughout.isSmall = true

instance (p : Pattern) (text : List Char) : Decidable (p.Fits text) :=
  decidable_of_iff (_ ∧ _ ∧ _ ∧ _)
    ⟨fun h => ⟨h.1, h.2.1, h.2.2.1, h.2.2.2⟩, fun h => ⟨h.closed, h.shallow, h.start, h.whole⟩⟩

end Pattern

namespace Pattern.Syntax

variable {text : List Char} {inner : List (Piece Pattern)}

theorem IsPattern.writtenDepth (h : IsPattern text inner) :
    Pattern.writtenDepth text = depthOf inner := by
  obtain ⟨top, ran, rfl⟩ := h.ran
  rw [Pattern.writtenDepth, ran]

/-- The group around a text and the anchors have no names. -/
theorem names_anchored (h : IsPattern text inner) :
    names (lex {} (['\\', 'A'] ++ inGroup text)).tokens = names (lex {} text).tokens := by
  obtain ⟨sc, read⟩ := (lexes_start.append (lexes_inGroup h)).alone
  rw [read]
  simp only [names, List.cons_append, List.nil_append, List.filterMap_cons, List.filterMap_append,
    List.filterMap_nil, List.append_nil]

theorem names_whole (h : IsPattern text inner) :
    names (lex {} (['\\', 'A'] ++ inGroup text ++ ['\\', 'z'])).tokens =
      names (lex {} text).tokens := by
  obtain ⟨sc, read⟩ := ((lexes_start.append (lexes_inGroup h)).append lexes_stop).alone
  rw [read]
  simp only [names, List.cons_append, List.nil_append, List.filterMap_cons, List.filterMap_append,
    List.filterMap_nil, List.append_nil]

/-- The anchors and the group make a pattern two deeper. -/
theorem IsPattern.read_anchored_iff (h : IsPattern text inner) {q : Pattern} :
    Pattern.read (['\\', 'A'] ++ inGroup text) = .ok q ↔ (names (lex {} text).tokens).Nodup ∧
      depthOf inner + 2 ≤ depthLimit ∧ q = atStart (.choice (inner.map (·.value))) := by
  rw [h.anchored.read_eq_ok_iff, names_anchored h]
  have depth : depthOf [branchOf [{ value := .assertion .startOfText },
      { value := .choice (inner.map (·.value)), depth := depthOf inner + 1 }]] =
      depthOf inner + 2 := by
    change max (max 0 0) (depthOf inner + 1) + 1 = _
    omega
  rw [depth]
  rfl

theorem IsPattern.read_whole_iff (h : IsPattern text inner) {q : Pattern} :
    Pattern.read (['\\', 'A'] ++ inGroup text ++ ['\\', 'z']) = .ok q ↔
      (names (lex {} text).tokens).Nodup ∧ depthOf inner + 2 ≤ depthLimit ∧
        q = throughout (.choice (inner.map (·.value))) := by
  rw [h.whole.read_eq_ok_iff, names_whole h]
  have depth : depthOf [branchOf [{ value := .assertion .startOfText },
      { value := .choice (inner.map (·.value)), depth := depthOf inner + 1 },
      { value := .assertion .endOfText }]] = depthOf inner + 2 := by
    change max (max (max 0 0) (depthOf inner + 1)) 0 + 1 = _
    omega
  rw [depth]
  rfl

end Pattern.Syntax

theorem Finder.exists_read_iff {text : String} :
    (∃ f, Finder.read text = .ok f) ↔
      ∃ p, Pattern.read text.toList = .ok p ∧ p.isSmall = true := by
  unfold Finder.read
  cases Pattern.read text.toList with
  | error e => exact ⟨nofun, nofun⟩
  | ok p =>
    change (∃ f, (if p.isSmall then _ else _) = _) ↔ _
    split
    · next small => exact ⟨fun _ => ⟨p, rfl, small⟩, fun _ => ⟨_, rfl⟩⟩
    · next large =>
      refine ⟨nofun, ?_⟩
      rintro ⟨_, ⟨⟩, small⟩
      exact absurd small large

namespace Matcher

theorem exists_ofPattern_iff {text : String} :
    (∃ m, ofPattern text = .ok m) ↔ (∃ f, Finder.read (anchoredText text) = .ok f) ∧
      ∃ f, Finder.read (wholeText text) = .ok f := by
  constructor
  · rintro ⟨m, made⟩
    obtain ⟨_, start, whole⟩ := ofPattern_eq_ok made
    exact ⟨⟨_, start⟩, _, whole⟩
  · rintro ⟨⟨f, start⟩, g, whole⟩
    refine ⟨⟨text, f, g⟩, ?_⟩
    rw [ofPattern, start, whole]
    rfl

/-- A pattern that is valid on its own makes a matcher if it fits between the anchors. -/
theorem exists_ofPattern_iff_fits {text : String} {p : Pattern}
    (read : Pattern.read text.toList = .ok p) :
    (∃ m, ofPattern text = .ok m) ↔ p.Fits text.toList := by
  obtain ⟨top, hanging, stop, ran, once, _, same⟩ := Pattern.read_eq_ok_iff.1 read
  rw [exists_ofPattern_iff, Finder.exists_read_iff, Finder.exists_read_iff, toList_anchoredText,
    toList_wholeText]
  have ends : Pattern.endsInComment text.toList = hanging := by
    rw [Pattern.endsInComment, stop]
    rfl
  cases hanging with
  | true =>
    constructor
    · rintro ⟨⟨q, anchored, _⟩, _⟩
      cases stop.symm.trans (stop_of_anchored read anchored)
    · exact fun fits => absurd fits.closed (ends ▸ Bool.noConfusion)
  | false =>
    have h : IsPattern text.toList top.all := ⟨stop, top, ran, rfl⟩
    subst same
    simp only [h.read_anchored_iff, h.read_whole_iff]
    constructor
    · rintro ⟨⟨_, ⟨_, shallow, rfl⟩, start⟩, _, ⟨_, _, rfl⟩, whole⟩
      exact ⟨ends, h.writtenDepth.symm ▸ shallow, start, whole⟩
    · rintro ⟨_, shallow, start, whole⟩
      rw [h.writtenDepth] at shallow
      exact ⟨⟨_, ⟨once, shallow, rfl⟩, start⟩, _, ⟨once, shallow, rfl⟩, whole⟩

end Matcher

/-- Where the text between the anchor and its group is a pattern, the text alone is one, or it closes
a group that it did not open. -/
theorem Pattern.Syntax.read_of_anchored {text : List Char} {q : Pattern}
    (anchored : Pattern.read (['\\', 'A'] ++ inGroup text) = .ok q) :
    (∃ p, Pattern.read text = .ok p) ∨ Pattern.read text = .error .unopenedGroup := by
  obtain ⟨sc, next, like, ⟨b, behind⟩, top', ran'⟩ := run_anchored anchored
  obtain ⟨tokens, stop, _⟩ := like.lex text
  have alone := Stack.run_within {} [next] (lex {} text).tokens
  by_cases unopened : Stack.run {} (lex {} text).tokens = .error .unopenedGroup
  · right
    rw [Pattern.read, unopened]
    rfl
  have alone := alone.resolve_left unopened
  -- what the tokens of the text leave open inside of the group is left open alone
  have left {top : Frame} {below : List Frame}
      (ran : (Stack.within {} [next]).run (lex {} text).tokens = .ok { top, below }) :
      ∃ below', below = below' ++ [next] ∧
        Stack.run {} (lex {} text).tokens = .ok { top, below := below' } := by
    rw [alone] at ran
    cases here : Stack.run {} (lex {} text).tokens with
    | error e =>
      rw [here] at ran
      cases ran
    | ok s =>
      rw [here] at ran
      cases ran
      exact ⟨s.below, rfl, rfl⟩
  cases stops : (lex {} text).stop with
  | ok hanging =>
    cases hanging with
    | true =>
      rw [lex_append_of_open (stop.trans stops) List.not_mem_nil, tokens] at ran'
      obtain ⟨below, same, _⟩ := left ran'
      cases below with
      | nil => cases same
      | cons f below => cases same
    | false =>
      have closed := lex_append_of_closed (stop.trans stops) []
      rw [lex_paren, lex_nil, tokens] at closed
      rw [closed] at ran'
      obtain ⟨⟨top, below⟩, ran, closes⟩ := Stack.exists_step_of_run ran'
      obtain ⟨below', rfl, here⟩ := left ran
      cases below' with
      | cons f below' =>
        cases below' with
        | nil => cases closes
        | cons g below' => cases closes
      | nil =>
        have h : IsPattern text top.all := ⟨stops, top, here, rfl⟩
        obtain ⟨once, shallow, _⟩ := h.read_anchored_iff.1 anchored
        exact .inl ⟨_, h.read_eq_ok_iff.2 ⟨once, (Nat.le_add_right _ 2).trans shallow, rfl⟩⟩
  | error e =>
    obtain ⟨t, other, last⟩ := lex_append_of_error (stop.trans stops) behind
    rw [last, tokens] at ran'
    obtain ⟨⟨top, below⟩, ran, stepped⟩ := Stack.exists_step_of_run ran'
    obtain ⟨below', rfl, _⟩ := left ran
    have inside : below' ++ [next] ≠ [] := List.append_ne_nil_of_right_ne_nil _ (List.cons_ne_nil _ _)
    exact absurd rfl (Stack.below_ne_nil stepped other inside)

/-- What makes a matcher is a pattern, or it has a closing parenthesis that nothing opens. -/
theorem Matcher.read_of_ofPattern {text : String} {m : Matcher} (made : ofPattern text = .ok m) :
    (∃ p, Pattern.read text.toList = .ok p) ∨ Pattern.read text.toList = .error .unopenedGroup := by
  obtain ⟨_, start, _⟩ := ofPattern_eq_ok made
  obtain ⟨q, read, _⟩ := Finder.exists_read_iff.1 ⟨_, start⟩
  rw [toList_anchoredText] at read
  exact read_of_anchored read

/-- What a valid pattern measures is a match at the start of the text. -/
theorem Matcher.reads_of_byteLength? {text : String} {p : Pattern} {m : Matcher}
    (made : ofPattern text = .ok m) (read : Pattern.read text.toList = .ok p) {input : String}
    {n : Nat} (measured : m.byteLength? input = some n) :
    ∃ s rest, input.toList = s ++ rest ∧ (String.ofList s).utf8ByteSize = n ∧
      p.reads ⟨none, input.toList⟩ ⟨s.getLast?, rest⟩ := by
  obtain ⟨k, found, rfl⟩ := Option.map_eq_some_iff.1 measured
  obtain ⟨y, reads, length⟩ := (Reads.of_read made read).length?_sound found
  obtain ⟨s, whole, before⟩ := p.reads_forward _ _ reads
  have whole : input.toList = s ++ y.rest := whole
  have same : k = s.length := by
    rw [whole, List.length_append] at length
    omega
  refine ⟨s, y.rest, whole, ?_, ?_⟩
  · rw [whole, same, List.take_left]
  · rw [Option.or_none] at before
    rwa [← before]

namespace Draft

/-- A free name gets its terminal at the end of the draft, if the pattern makes a matcher. -/
theorem addTerminal_of_free {d : Draft} {name : String} (free : d.contains name = false)
    (text : String) :
    d.addTerminal name text = match Matcher.ofPattern text with
      | .ok m => .ok { rules := refresh (d.rules ++ [.terminal name m]) }
      | .error e => .error (.invalidPattern name e.message) := by
  rw [addTerminal_eq]
  cases Matcher.ofPattern text with
  | error e => rfl
  | ok m => exact (insert_eq d _).trans (if_neg (Bool.eq_false_iff.1 free))

/-- A new terminal in a draft: a valid pattern makes one just if it fits between the anchors, and a
match of it that is measured begins at the start of the text. What else makes a terminal has a
closing parenthesis that nothing opens, and whatever makes none is an invalid pattern. -/
theorem addTerminal_of_pattern {d : Draft} {name : String} (free : d.contains name = false)
    (text : String) :
    (∀ p, Pattern.read text.toList = .ok p →
      ((∃ d', d.addTerminal name text = .ok d') ↔ p.Fits text.toList)) ∧
    (∀ d', d.addTerminal name text = .ok d' → ∀ e, Pattern.read text.toList = .error e →
      e = .unopenedGroup) ∧
    (∀ e, d.addTerminal name text = .error e → ∃ why : PatternError,
      Matcher.ofPattern text = .error why ∧ e = .invalidPattern name why.message) ∧
    (∀ p m, Pattern.read text.toList = .ok p → Matcher.ofPattern text = .ok m →
      ∀ input n, m.byteLength? input = some n →
        ∃ s rest, input.toList = s ++ rest ∧ (String.ofList s).utf8ByteSize = n ∧
          p.reads ⟨none, input.toList⟩ ⟨s.getLast?, rest⟩) := by
  have added := addTerminal_of_free free text
  have adds : (∃ d', d.addTerminal name text = .ok d') ↔ ∃ m, Matcher.ofPattern text = .ok m := by
    rw [added]
    cases Matcher.ofPattern text with
    | error e => exact ⟨nofun, nofun⟩
    | ok m => exact ⟨fun _ => ⟨m, rfl⟩, fun _ => ⟨_, rfl⟩⟩
  refine ⟨fun p read => adds.trans (Matcher.exists_ofPattern_iff_fits read),
    fun d' called e failed => ?_, fun e failed => ?_,
    fun p m read made input n measured => Matcher.reads_of_byteLength? made read measured⟩
  · obtain ⟨m, made⟩ := adds.1 ⟨d', called⟩
    rcases Matcher.read_of_ofPattern made with ⟨p, read⟩ | stray
    · cases failed.symm.trans read
    · cases failed.symm.trans stray
      rfl
  · rw [added] at failed
    split at failed
    · cases failed
    · next why refused =>
      cases failed
      exact ⟨why, refused, rfl⟩

theorem addTerminal_of_pattern_word : ({} : Draft).contains "word" = false ∧
    (∃ d, ({} : Draft).addTerminal "word" "(?i-u)(?<w>[a-z])+" = .ok d) ∧
    (∃ p s rest, Pattern.read "(?i-u)(?<w>[a-z])+".toList = .ok p ∧ "aB1".toList = s ++ rest ∧
      (String.ofList s).utf8ByteSize = 2 ∧ p.reads ⟨none, "aB1".toList⟩ ⟨s.getLast?, rest⟩) ∧
    (∃ p, Pattern.read "(?x)a#c".toList = .ok p ∧
      ¬ ∃ d, ({} : Draft).addTerminal "word" "(?x)a#c" = .ok d) ∧
    ∃ why : PatternError,
      ({} : Draft).addTerminal "word" "(" = .error (.invalidPattern "word" why.message) := by
  have free : ({} : Draft).contains "word" = false := rfl
  obtain ⟨accepts, _, _, measures⟩ := addTerminal_of_pattern free "(?i-u)(?<w>[a-z])+"
  obtain ⟨accepts', _⟩ := addTerminal_of_pattern free "(?x)a#c"
  obtain ⟨_, refuses, invalid, _⟩ := addTerminal_of_pattern free "("
  have fits : (Pattern.read "(?i-u)(?<w>[a-z])+".toList).toOption.any
      (fun p => decide (p.Fits "(?i-u)(?<w>[a-z])+".toList)) = true := by decide +kernel
  have measured : (Matcher.ofPattern "(?i-u)(?<w>[a-z])+").toOption.any
      (fun m => decide (m.byteLength? "aB1" = some 2)) = true := by decide +kernel
  have hangs : (Pattern.read "(?x)a#c".toList).toOption.any
      (fun _ => Pattern.endsInComment "(?x)a#c".toList) = true := by decide +kernel
  obtain ⟨p, read, fits⟩ := exists_ok_of_any fits
  obtain ⟨m, made, measured⟩ := exists_ok_of_any measured
  obtain ⟨s, rest, matched⟩ := measures p m read made "aB1" 2 (of_decide_eq_true measured)
  obtain ⟨q, read', hangs⟩ := exists_ok_of_any hangs
  refine ⟨free, (accepts p read).2 (of_decide_eq_true fits), ⟨p, s, rest, read, matched⟩,
    ⟨q, read', fun added => ?_⟩, ?_⟩
  · exact absurd hangs (Bool.eq_false_iff.1 ((accepts' q read').1 added).closed)
  have failed : Pattern.read "(".toList = .error .unclosedGroup := by decide +kernel
  cases called : ({} : Draft).addTerminal "word" "(" with
  | ok d => cases refuses d called _ failed
  | error e =>
    obtain ⟨why, _, rfl⟩ := invalid e called
    exact ⟨why, rfl⟩

/-- Two texts that are no patterns make terminals all the same. The second one measures a match that
begins behind the start of the text, where the pasted pattern has none. -/
theorem strayParenthesis_accepted :
    Pattern.read "a)(b".toList = .error .unopenedGroup ∧
    (∃ d, ({} : Draft).addTerminal "broken" "a)(b" = .ok d) ∧
    Pattern.read "a)|(?:b".toList = .error .unopenedGroup ∧
    (∃ d, ({} : Draft).addTerminal "broken" "a)|(?:b" = .ok d) ∧
    ∃ m, Matcher.ofPattern "a)|(?:b" = .ok m ∧ m.byteLength? "xb" = some 2 ∧
      ∀ y, ¬ m.start.pattern.reads ⟨none, "xb".toList⟩ y := by
  have first : Pattern.read "a)(b".toList = .error .unopenedGroup ∧
      (({} : Draft).addTerminal "broken" "a)(b").toOption.any (fun _ => true) = true := by
    decide +kernel
  have second : Pattern.read "a)|(?:b".toList = .error .unopenedGroup ∧
      (({} : Draft).addTerminal "broken" "a)|(?:b").toOption.any (fun _ => true) = true := by
    decide +kernel
  have measured : (Matcher.ofPattern "a)|(?:b").toOption.any (fun m => decide
      (m.byteLength? "xb" = some 2 ∧ m.start.automaton.run [m.start.automaton.start] none 0 none
        "xb".toList = none)) = true := by decide +kernel
  obtain ⟨d, added, _⟩ := exists_ok_of_any first.2
  obtain ⟨d', added', _⟩ := exists_ok_of_any second.2
  obtain ⟨m, made, facts⟩ := exists_ok_of_any measured
  obtain ⟨length, unmatched⟩ := of_decide_eq_true facts
  refine ⟨first.1, ⟨d, added⟩, second.1, ⟨d', added'⟩, m, made, length, fun y reads => ?_⟩
  have compiled := (Finder.read_eq_ok (Matcher.ofPattern_eq_ok made).2.1).2
  have matched : (m.start.automaton.run [m.start.automaton.start] none 0 none
      "xb".toList).isSome = true :=
    Automaton.run_complete (.inr ⟨y, (Finder.leads_iff compiled).2 reads⟩)
  rw [unmatched] at matched
  cases matched

end Draft

end AttrGrammar
