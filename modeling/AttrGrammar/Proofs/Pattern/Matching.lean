import AttrGrammar.Pattern.Matcher
import AttrGrammar.Proofs.Pattern.Compiled
import AttrGrammar.Proofs.Pattern.Pasted
import AttrGrammar.Proofs.Pattern.Searching

/-!
What matchers match.

The pasted pattern of a matcher reads what the pattern itself reads, between the anchors. So a match
begins at the start of the text, and a text is accepted if the pattern leads from its start to its
end. A composed matcher reads the sequence, the choice or the repetition of what its parts read.
-/

namespace AttrGrammar

open Pattern.Syntax
open scoped Computability

/-- What a text reads whose branches were read. -/
def Pattern.Syntax.meaning (inner : List (Piece Pattern)) : Passage :=
  (inner.map fun p => p.value.reads).sum

theorem Pattern.Syntax.reads_inner (inner : List (Piece Pattern)) :
    (Pattern.choice (inner.map (·.value))).reads = meaning inner := by
  rw [Pattern.reads_choice, List.map_map]
  rfl

theorem Pattern.Syntax.reads_branchOf (items : List (Piece Pattern)) :
    (branchOf items).value.reads = (items.map fun p => p.value.reads).prod := by
  rw [branchOf, Pattern.reads_sequence, List.map_map]
  rfl

/-- What a text is a pattern of, if it is one. -/
theorem Pattern.read_eq_ok_iff {text : List Char} {p : Pattern} :
    Pattern.read text = .ok p ↔ ∃ top hanging, (lex {} text).stop = .ok hanging ∧
      Stack.run {} (lex {} text).tokens = .ok { top } ∧ (names (lex {} text).tokens).Nodup ∧
      depthOf top.all ≤ depthLimit ∧ p = .choice (top.all.map (·.value)) := by
  unfold Pattern.read
  dsimp only
  cases ran : Stack.run {} (lex {} text).tokens with
  | error e => exact ⟨nofun, nofun⟩
  | ok s =>
    obtain ⟨top, below⟩ := s
    cases stop : (lex {} text).stop with
    | error e => exact ⟨nofun, nofun⟩
    | ok hanging =>
      cases below with
      | cons f below =>
        refine ⟨nofun, ?_⟩
        rintro ⟨_, _, _, ⟨⟩, _⟩
      | nil =>
        change (if ¬ (names (lex {} text).tokens).Nodup then _
          else if depthOf top.all > depthLimit then _ else _) = _ ↔ _
        split
        · next twice =>
          refine ⟨nofun, ?_⟩
          rintro ⟨_, _, _, _, once, _⟩
          exact absurd once twice
        · next once =>
          split
          · next deep =>
            refine ⟨nofun, ?_⟩
            rintro ⟨_, _, _, ⟨⟩, _, shallow, _⟩
            exact absurd shallow (Nat.not_le_of_lt deep)
          · next shallow =>
            constructor
            · rintro ⟨⟩
              exact ⟨top, hanging, rfl, rfl, not_not.1 once, Nat.le_of_not_lt shallow, rfl⟩
            · rintro ⟨_, _, _, ⟨⟩, _, _, rfl⟩
              rfl

/-- The only pattern that a text can be. -/
theorem Pattern.Syntax.IsPattern.read_eq_ok_iff {text : List Char} {inner : List (Piece Pattern)}
    (h : IsPattern text inner) {p : Pattern} :
    Pattern.read text = .ok p ↔ (names (lex {} text).tokens).Nodup ∧
      depthOf inner ≤ depthLimit ∧ p = .choice (inner.map (·.value)) := by
  obtain ⟨top, ran, rfl⟩ := h.ran
  rw [Pattern.read_eq_ok_iff]
  constructor
  · rintro ⟨other, _, _, there, once, shallow, rfl⟩
    cases ran.symm.trans there
    exact ⟨once, shallow, rfl⟩
  · exact fun ⟨once, shallow, same⟩ => ⟨top, false, h.closed, ran, once, shallow, same⟩

/-- Whether a text is a pattern that reads `R`. -/
def Pattern.Means (text : List Char) (R : Passage) : Prop :=
  ∃ inner, IsPattern text inner ∧ meaning inner = R

namespace Pattern.Means

theorem reads {text : List Char} {R : Passage} (h : Means text R) {p : Pattern}
    (read : Pattern.read text = .ok p) : p.reads = R := by
  obtain ⟨inner, h, rfl⟩ := h
  obtain ⟨_, _, rfl⟩ := h.read_eq_ok_iff.1 read
  exact reads_inner inner

/-- The group of a pattern is an atom that reads the same. -/
theorem atom {text : List Char} {R : Passage} (h : Means text R) :
    ∃ p, IsAtom (inGroup text) p ∧ p.value.reads = R := by
  obtain ⟨inner, h, rfl⟩ := h
  exact ⟨_, isAtom_inGroup h, reads_inner inner⟩

theorem atoms {texts : List (List Char)} {Rs : List Passage} (each : List.Forall₂ Means texts Rs) :
    ∃ atoms : List (List Char × Piece Pattern), (∀ a ∈ atoms, IsAtom a.1 a.2) ∧
      atoms.map Prod.fst = texts.map inGroup ∧ (atoms.map fun a => a.2.value.reads) = Rs := by
  induction each with
  | nil => exact ⟨[], List.forall_mem_nil _, rfl, rfl⟩
  | @cons text R texts Rs first _ ih =>
    obtain ⟨p, isAtom, reads⟩ := first.atom
    obtain ⟨atoms, all, same, means⟩ := ih
    exact ⟨(inGroup text, p) :: atoms, List.forall_mem_cons.2 ⟨isAtom, all⟩,
      congrArg (_ :: ·) same, by rw [List.map_cons, reads, means]⟩

/-- Groups in a row read one after the other. -/
theorem groups {texts : List (List Char)} {Rs : List Passage} (each : List.Forall₂ Means texts Rs) :
    Means (texts.flatMap inGroup) Rs.prod := by
  obtain ⟨atoms, all, same, rfl⟩ := atoms each
  refine ⟨[branchOf (atoms.map Prod.snd)], ?_, ?_⟩
  · rw [List.flatMap_def, ← same, ← List.flatMap_def]
    exact isPattern_row all
  · rw [meaning, List.map_singleton, List.sum_singleton, reads_branchOf, List.map_map]
    rfl

/-- Groups with bars between them read what one of them reads. -/
theorem bars {texts : List (List Char)} {Rs : List Passage} (each : List.Forall₂ Means texts Rs)
    (nonempty : texts ≠ []) : Means (['|'].intercalate (texts.map inGroup)) Rs.sum := by
  obtain ⟨atoms, all, same, rfl⟩ := atoms each
  have nonempty : atoms ≠ [] := by
    rintro rfl
    exact nonempty (List.map_eq_nil_iff.1 same.symm)
  refine ⟨_, same ▸ isPattern_bars all nonempty, ?_⟩
  rw [meaning, List.map_map]
  refine congrArg List.sum (List.map_congr_left fun a _ => ?_)
  rw [Function.comp_apply, reads_branchOf, List.map_singleton, List.prod_singleton]

/-- A group with an operator behind it. -/
theorem repeated {text : List Char} {R : Passage} (h : Means text R) {operator : Char} {low : Nat}
    {high : Option Nat} (repeats : tokenOf {} operator [] = .ok (.repeats low high true, [])) :
    Means (inGroup text ++ [operator]) (rounds R low high) := by
  obtain ⟨p, isAtom, rfl⟩ := h.atom
  refine ⟨_, isPattern_repeated isAtom repeats, ?_⟩
  rw [meaning, List.map_singleton, List.sum_singleton, reads_branchOf, List.map_singleton,
    List.prod_singleton]
  exact Pattern.reads_repetition p.value low high true

theorem star {text : List Char} {R : Passage} (h : Means text R) :
    Means (inGroup text ++ ['*']) R∗ := by
  have star : tokenOf {} '*' [] = .ok (.repeats 0 none true, []) := rfl
  have means := h.repeated star
  rwa [rounds, pow_zero, one_mul] at means

theorem optional {text : List Char} {R : Passage} (h : Means text R) :
    Means (inGroup text ++ ['?']) (1 + R) := by
  have optional : tokenOf {} '?' [] = .ok (.repeats 0 (some 1) true, []) := rfl
  have means := h.repeated optional
  rwa [rounds, pow_zero, one_mul, Nat.sub_zero, pow_one] at means

end Pattern.Means

namespace Finder

theorem read_eq_ok {text : String} {f : Finder} (made : read text = .ok f) :
    Pattern.read text.toList = .ok f.pattern ∧ f.automaton = .ofPattern f.pattern := by
  unfold read at made
  cases found : Pattern.read text.toList with
  | error e =>
    rw [found] at made
    cases made
  | ok pattern =>
    rw [found] at made
    change (if pattern.isSmall then _ else _) = _ at made
    split at made
    · cases made
      exact ⟨rfl, rfl⟩
    · cases made

variable {f : Finder} {R : Passage} {text : List Char}

theorem leads_iff (compiled : f.automaton = .ofPattern f.pattern) {x y : Spot} :
    Automaton.Leads f.automaton.states [f.automaton.start] x y ↔ f.pattern.reads x y := by
  rw [compiled, ← Automaton.ends_ofPattern_iff]
  constructor
  · rintro ⟨_, member, ends⟩
    exact List.mem_singleton.1 member ▸ ends
  · exact fun ends => ⟨_, List.mem_cons_self, ends⟩

/-- A pattern that begins with the anchor is found at the start of a text only. -/
theorem search_eq_run (compiled : f.automaton = .ofPattern f.pattern)
    (anchored : f.pattern.reads = (Pattern.assertion .startOfText).reads * R) :
    f.search text = f.automaton.run [f.automaton.start] none 0 none text := by
  refine Automaton.searchFrom_eq_run (fun c rest y leads => ?_) _ _
  have reads := (leads_iff compiled).1 leads
  rw [anchored] at reads
  obtain ⟨z, ⟨holds, _⟩, _⟩ := reads
  cases holds

theorem reads_anchored (anchored : f.pattern.reads = (Pattern.assertion .startOfText).reads * R)
    {y : Spot} : f.pattern.reads ⟨none, text⟩ y ↔ R ⟨none, text⟩ y := by
  rw [anchored, Passage.mul_apply]
  constructor
  · rintro ⟨z, ⟨_, rfl⟩, reads⟩
    exact reads
  · exact fun reads => ⟨_, ⟨rfl, rfl⟩, reads⟩

theorem search_sound (compiled : f.automaton = .ofPattern f.pattern)
    (anchored : f.pattern.reads = (Pattern.assertion .startOfText).reads * R) {n : Nat}
    (found : f.search text = some n) :
    ∃ y, R ⟨none, text⟩ y ∧ n + y.rest.length = text.length := by
  rw [search_eq_run compiled anchored] at found
  obtain ⟨y, leads, length⟩ := (Automaton.run_sound found).resolve_left nofun
  exact ⟨y, (reads_anchored anchored).1 ((leads_iff compiled).1 leads), by omega⟩

theorem search_isSome_iff (compiled : f.automaton = .ofPattern f.pattern)
    (anchored : f.pattern.reads = (Pattern.assertion .startOfText).reads * R) :
    (f.search text).isSome = true ↔ ∃ y, R ⟨none, text⟩ y := by
  constructor
  · intro found
    obtain ⟨n, found⟩ := Option.isSome_iff_exists.1 found
    obtain ⟨y, reads, _⟩ := search_sound compiled anchored found
    exact ⟨y, reads⟩
  · rintro ⟨y, reads⟩
    rw [search_eq_run compiled anchored]
    exact Automaton.run_complete
      (.inr ⟨y, (leads_iff compiled).2 ((reads_anchored anchored).2 reads)⟩)

end Finder

namespace Matcher

theorem ofPattern_eq_ok {text : String} {m : Matcher} (made : ofPattern text = .ok m) :
    m.pattern = text ∧ Finder.read (anchoredText text) = .ok m.start ∧
      Finder.read (wholeText text) = .ok m.whole := by
  unfold ofPattern at made
  cases start : Finder.read (anchoredText text) with
  | error e =>
    rw [start] at made
    cases made
  | ok f =>
    cases whole : Finder.read (wholeText text) with
    | error e =>
      rw [start, whole] at made
      cases made
    | ok g =>
      rw [start, whole] at made
      cases made
      exact ⟨rfl, rfl, rfl⟩

theorem toList_grouped (text : String) : (grouped text).toList = inGroup text.toList := by
  simp only [grouped, String.toList_append]
  rfl

theorem toList_anchoredText (text : String) :
    (anchoredText text).toList = ['\\', 'A'] ++ inGroup text.toList := by
  simp only [anchoredText, String.toList_append]
  rfl

theorem toList_wholeText (text : String) :
    (wholeText text).toList = ['\\', 'A'] ++ inGroup text.toList ++ ['\\', 'z'] := by
  rw [wholeText, String.toList_append, toList_anchoredText]
  rfl

end Matcher

namespace Pattern.Syntax

theorem lexes_start : Lexes ['\\', 'A'] [.part { value := .assertion .startOfText }] :=
  .of_token (fun _ => rfl) fun _ like => like

theorem lexes_stop : Lexes ['\\', 'z'] [.part { value := .assertion .endOfText }] :=
  .of_token (fun _ => rfl) fun _ like => like

theorem isAtom_start : IsAtom ['\\', 'A'] { value := .assertion .startOfText } :=
  ⟨_, lexes_start, fun _ => rfl⟩

theorem isAtom_stop : IsAtom ['\\', 'z'] { value := .assertion .endOfText } :=
  ⟨_, lexes_stop, fun _ => rfl⟩

/-- A pattern between the anchors. -/
theorem IsPattern.anchored {text : List Char} {inner : List (Piece Pattern)}
    (h : IsPattern text inner) :
    IsPattern (['\\', 'A'] ++ inGroup text)
      [branchOf [{ value := .assertion .startOfText },
        { value := .choice (inner.map (·.value)), depth := depthOf inner + 1 }]] := by
  have each : ∀ a ∈ [(_, _), (_, _)], IsAtom a.1 a.2 :=
    List.forall_mem_cons.2 ⟨isAtom_start, List.forall_mem_singleton.2 (isAtom_inGroup h)⟩
  have read := isPattern_row each
  rwa [List.flatMap_cons, List.flatMap_singleton] at read

theorem IsPattern.whole {text : List Char} {inner : List (Piece Pattern)}
    (h : IsPattern text inner) :
    IsPattern (['\\', 'A'] ++ inGroup text ++ ['\\', 'z'])
      [branchOf [{ value := .assertion .startOfText },
        { value := .choice (inner.map (·.value)), depth := depthOf inner + 1 },
        { value := .assertion .endOfText }]] := by
  have each : ∀ a ∈ [(_, _), (_, _), (_, _)], IsAtom a.1 a.2 :=
    List.forall_mem_cons.2 ⟨isAtom_start, List.forall_mem_cons.2 ⟨isAtom_inGroup h,
      List.forall_mem_singleton.2 isAtom_stop⟩⟩
  have read := isPattern_row each
  rwa [List.flatMap_cons, List.flatMap_cons, List.flatMap_singleton, ← List.append_assoc] at read

/-- The tokens of a text behind the anchor are those of the text before a closing parenthesis, inside
of a group. -/
theorem lex_anchored (text : List Char) : ∃ sc : Scope, sc.Like {} ∧
    lex {} (['\\', 'A'] ++ inGroup text) = (lex sc (text ++ [')'])).prepend
      [.part { value := .assertion .startOfText }, .opens .plain {}] := by
  have opens : ∀ sc : Scope, sc.Like {} → lex sc (inGroup text) =
      (lex (sc.after (.opens .plain {})) (text ++ [')'])).cons (.opens .plain {}) := by
    intro sc like
    have flags : sc.flags = {} := like.flags
    have here : skip sc.flags (inGroup text) = '(' :: '?' :: ':' :: (text ++ [')']) := by
      rw [flags]
      rfl
    refine lex_of_token here ?_
    rw [flags]
    rfl
  obtain ⟨sc, like, read⟩ := lexes_start {} (.refl _) (inGroup text)
  refine ⟨_, like.opens .plain, ?_⟩
  rw [read, opens sc like]
  rfl

/-- What is read behind the anchor begins in a group, so it closes one more than it opens. -/
theorem run_anchored {text : List Char} {q : Pattern}
    (read : Pattern.read (['\\', 'A'] ++ inGroup text) = .ok q) :
    ∃ (sc : Scope) (next : Frame), sc.Like {} ∧
      (∃ b, (lex sc (text ++ [')'])).stop = .ok b) ∧
      ∃ top, (Stack.within {} [next]).run (lex sc (text ++ [')'])).tokens = .ok { top } := by
  obtain ⟨sc, like, lexed⟩ := lex_anchored text
  obtain ⟨top, hanging, stop, ran, _⟩ := Pattern.read_eq_ok_iff.1 read
  rw [lexed] at stop ran
  exact ⟨sc, _, like, ⟨hanging, stop⟩, top, ran⟩

/-- A pattern behind the anchor does not end in a comment, which would take the parenthesis. -/
theorem stop_of_anchored {text : List Char} {p q : Pattern}
    (read : Pattern.read text = .ok p)
    (anchored : Pattern.read (['\\', 'A'] ++ inGroup text) = .ok q) :
    (lex {} text).stop = .ok false := by
  obtain ⟨top, hanging, stop, ran, _⟩ := Pattern.read_eq_ok_iff.1 read
  obtain ⟨sc, next, like, _, top', ran'⟩ := run_anchored anchored
  obtain ⟨tokens, stops, _⟩ := like.lex text
  cases hanging with
  | false => exact stop
  | true =>
    rw [lex_append_of_open (stops.trans stop) List.not_mem_nil, tokens] at ran'
    rcases Stack.run_within {} [next] (lex {} text).tokens with unopened | same
    · cases unopened.symm.trans ran
    · rw [same, ran] at ran'
      cases ran'

theorem isPattern_of_read {text : List Char} {p : Pattern} (read : Pattern.read text = .ok p)
    (closed : (lex {} text).stop = .ok false) :
    ∃ inner, IsPattern text inner ∧ p = .choice (inner.map (·.value)) := by
  obtain ⟨top, _, _, ran, _, _, same⟩ := Pattern.read_eq_ok_iff.1 read
  exact ⟨top.all, ⟨closed, top, ran, rfl⟩, same⟩

end Pattern.Syntax

namespace Matcher

/-- What looks for a pattern at the start of a text. -/
theorem start_of_read {m : Matcher} {text : String} {p : Pattern} (made : ofPattern text = .ok m)
    (read : Pattern.read text.toList = .ok p) : m.start.automaton = .ofPattern m.start.pattern ∧
      m.start.pattern = .sequence [.assertion .startOfText, p] := by
  obtain ⟨_, start, _⟩ := ofPattern_eq_ok made
  obtain ⟨anchored, compiled⟩ := Finder.read_eq_ok start
  rw [toList_anchoredText] at anchored
  obtain ⟨inner, is, rfl⟩ := isPattern_of_read read (stop_of_anchored read anchored)
  obtain ⟨_, _, same⟩ := is.anchored.read_eq_ok_iff.1 anchored
  exact ⟨compiled, same.trans (Pattern.choice_sequence_assertion _ _)⟩

/-- Whether a matcher is made of a pattern that reads `R` on its own. -/
structure Reads (m : Matcher) (R : Passage) : Prop where
  made : ofPattern m.pattern = .ok m
  means : Pattern.Means m.pattern.toList R

namespace Reads

variable {m : Matcher} {R : Passage}

theorem of_means {text : String} (made : ofPattern text = .ok m)
    (means : Pattern.Means text.toList R) : m.Reads R := by
  obtain ⟨same, _⟩ := ofPattern_eq_ok made
  exact ⟨same.symm ▸ made, same.symm ▸ means⟩

theorem of_read {text : String} {p : Pattern} (made : ofPattern text = .ok m)
    (read : Pattern.read text.toList = .ok p) : m.Reads p.reads := by
  obtain ⟨_, start, _⟩ := ofPattern_eq_ok made
  have anchored := (Finder.read_eq_ok start).1
  rw [toList_anchoredText] at anchored
  obtain ⟨inner, is, rfl⟩ := isPattern_of_read read (stop_of_anchored read anchored)
  exact of_means made ⟨inner, is, (reads_inner inner).symm⟩

theorem start_spec (h : m.Reads R) : m.start.automaton = .ofPattern m.start.pattern ∧
    m.start.pattern.reads = (Pattern.assertion .startOfText).reads * R := by
  obtain ⟨_, start, _⟩ := ofPattern_eq_ok h.made
  obtain ⟨inner, is, rfl⟩ := h.means
  obtain ⟨read, compiled⟩ := Finder.read_eq_ok start
  rw [toList_anchoredText] at read
  refine ⟨compiled, Pattern.Means.reads ⟨_, is.anchored, ?_⟩ read⟩
  rw [meaning, List.map_singleton, List.sum_singleton, reads_branchOf]
  simp only [List.map_cons, List.map_nil, List.prod_cons, List.prod_nil, mul_one, reads_inner]

theorem whole_spec (h : m.Reads R) : m.whole.automaton = .ofPattern m.whole.pattern ∧
    m.whole.pattern.reads =
      (Pattern.assertion .startOfText).reads * (R * (Pattern.assertion .endOfText).reads) := by
  obtain ⟨_, _, whole⟩ := ofPattern_eq_ok h.made
  obtain ⟨inner, is, rfl⟩ := h.means
  obtain ⟨read, compiled⟩ := Finder.read_eq_ok whole
  rw [toList_wholeText] at read
  refine ⟨compiled, Pattern.Means.reads ⟨_, is.whole, ?_⟩ read⟩
  rw [meaning, List.map_singleton, List.sum_singleton, reads_branchOf]
  simp only [List.map_cons, List.map_nil, List.prod_cons, List.prod_nil, mul_one, reads_inner]

/-- A measured match leads from the start of the text to its end. -/
theorem length?_sound (h : m.Reads R) {text : List Char} {n : Nat}
    (found : m.length? text = some n) :
    ∃ y, R ⟨none, text⟩ y ∧ n + y.rest.length = text.length :=
  Finder.search_sound h.start_spec.1 h.start_spec.2 found

theorem length?_isSome_iff (h : m.Reads R) {text : List Char} :
    (m.length? text).isSome = true ↔ ∃ y, R ⟨none, text⟩ y :=
  Finder.search_isSome_iff h.start_spec.1 h.start_spec.2

/-- A text is accepted if the pattern leads from its start to its end. -/
theorem accepts_iff (h : m.Reads R) {text : String} :
    m.accepts text = true ↔ ∃ y, R ⟨none, text.toList⟩ y ∧ y.rest = [] := by
  rw [accepts, Finder.search_isSome_iff h.whole_spec.1 h.whole_spec.2]
  constructor
  · rintro ⟨y, z, reads, ends, rfl⟩
    exact ⟨z, reads, List.head?_eq_none_iff.1 (Option.isNone_iff_eq_none.1 ends)⟩
  · rintro ⟨y, reads, ends⟩
    refine ⟨y, y, reads, ?_, rfl⟩
    rw [ends]
    rfl

variable {L : TextLanguage}

/-- Without assertions a matcher accepts the texts of its language. -/
theorem accepts_iff_mem (h : m.Reads (.ofLanguage L)) {text : String} :
    m.accepts text = true ↔ text.toList ∈ L := by
  rw [h.accepts_iff]
  constructor
  · rintro ⟨y, ⟨s, member, whole, _⟩, ends⟩
    have whole : text.toList = s ++ y.rest := whole
    rwa [whole, ends, List.append_nil]
  · exact fun member =>
      ⟨⟨text.toList.getLast?.or none, []⟩, ⟨_, member, (List.append_nil _).symm, rfl⟩, rfl⟩

/-- Without assertions a measured match is a text of the language. -/
theorem take_mem (h : m.Reads (.ofLanguage L)) {text : List Char} {n : Nat}
    (found : m.length? text = some n) : n ≤ text.length ∧ text.take n ∈ L := by
  obtain ⟨y, ⟨s, member, whole, _⟩, length⟩ := h.length?_sound found
  refine ⟨by omega, ?_⟩
  have whole : text = s ++ y.rest := whole
  have same : n = s.length := by
    rw [whole, List.length_append] at length
    omega
  rwa [whole, same, List.take_left]

/-- Without assertions a match is measured where a text of the language begins. -/
theorem length?_isSome_iff_mem (h : m.Reads (.ofLanguage L)) {text : List Char} :
    (m.length? text).isSome = true ↔ ∃ s ∈ L, s <+: text := by
  rw [h.length?_isSome_iff]
  constructor
  · rintro ⟨y, s, member, whole, _⟩
    exact ⟨s, member, y.rest, whole.symm⟩
  · rintro ⟨s, member, rest, rfl⟩
    exact ⟨⟨s.getLast?.or none, rest⟩, s, member, rfl, rfl⟩

variable {parts : List Matcher} {Rs : List Passage}

theorem patterns (each : List.Forall₂ Reads parts Rs) :
    List.Forall₂ Pattern.Means (parts.map fun part => part.pattern.toList) Rs :=
  List.forall₂_map_left_iff.2 (each.imp fun _ _ => means)

theorem concatenation (each : List.Forall₂ Reads parts Rs)
    (made : Matcher.concatenation parts = .ok m) : m.Reads Rs.prod := by
  refine of_means made ?_
  have groups := Pattern.Means.groups (patterns each)
  rw [String.toList_join, List.flatMap_map]
  rw [List.flatMap_map] at groups
  simpa only [toList_grouped] using groups

theorem alternation (each : List.Forall₂ Reads parts Rs) (nonempty : parts ≠ [])
    (made : Matcher.alternation parts = .ok m) : m.Reads Rs.sum := by
  refine of_means made ?_
  have bars := Pattern.Means.bars (patterns each) (List.map_eq_nil_iff.not.2 nonempty)
  have group := Pattern.Means.groups (.cons bars .nil)
  rw [List.flatMap_singleton, List.prod_singleton, List.map_map] at group
  have bar : "|".toList = ['|'] := rfl
  rw [toList_grouped, String.toList_intercalate, List.map_map, bar]
  simpa only [Function.comp_def, toList_grouped] using group

theorem repetition {part : Matcher} (h : part.Reads R) (made : Matcher.repetition part = .ok m) :
    m.Reads R∗ := by
  refine of_means made ?_
  rw [String.toList_append, toList_grouped]
  exact h.means.star

theorem option {part : Matcher} (h : part.Reads R) (made : Matcher.option part = .ok m) :
    m.Reads (1 + R) := by
  refine of_means made ?_
  rw [String.toList_append, toList_grouped]
  exact h.means.optional

end Reads

end Matcher

end AttrGrammar
