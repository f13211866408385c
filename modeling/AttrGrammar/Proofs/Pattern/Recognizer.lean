import AttrGrammar.Pattern.Matcher

/-!
Recognizers: what an automaton reads, written out as a tree.

Where no two ways on from a state share a character, an automaton is in one state at a time, and its
longest match is found by going through the text once. A recognizer is such an automaton by itself:
the ways on from a state, one after the other. That a matcher agrees with a recognizer is decided by
a comparison of their states.
-/

namespace AttrGrammar

namespace CharSet

theorem ordinal_le_iff {c d : Char} : ordinal c ≤ ordinal d ↔ c ≤ d := by
  have order : c ≤ d ↔ c.toNat ≤ d.toNat := Iff.rfl
  have valid : ∀ e : Char, e.toNat < 0xd800 ∨ 0xdfff < e.toNat := fun e =>
    e.valid.imp id And.left
  have first := valid c
  have second := valid d
  rw [order]
  unfold ordinal
  split <;> split <;> omega

theorem ordinal_lt_count (c : Char) : ordinal c < count := by
  have valid : c.toNat < 0xd800 ∨ 0xdfff < c.toNat ∧ c.toNat < 0x110000 := c.valid
  unfold ordinal count
  split <;> omega

theorem holds_between {first stop n : Nat} (within : stop ≤ count) :
    (between first stop).holds n = (decide (first ≤ n) && decide (n < stop)) := by
  rw [Bool.eq_iff_iff, Bool.and_eq_true, decide_eq_true_iff, decide_eq_true_iff]
  unfold holds between
  split
  · next ordered =>
    simp only [insideBounds]
    split
    · simp
      omega
    · split <;> simp <;> omega
  · next empty =>
    have outside : insideBounds false (∅ : CharSet).bounds n = false := rfl
    rw [outside]
    simp
    omega

@[simp] theorem contains_range (first last c : Char) :
    (range first last).contains c = (decide (first ≤ c) && decide (c ≤ last)) := by
  rw [contains, range, holds_between (ordinal_lt_count last), Bool.eq_iff_iff, Bool.and_eq_true,
    Bool.and_eq_true]
  simp only [decide_eq_true_eq, Nat.lt_succ_iff, ordinal_le_iff]

@[simp] theorem contains_single (d c : Char) : (single d).contains c = decide (c = d) := by
  rw [single, contains_range, Bool.eq_iff_iff]
  simp only [Bool.and_eq_true, decide_eq_true_eq]
  constructor
  · intro ⟨low, high⟩
    exact Char.le_antisymm high low
  · intro same
    rw [same]
    exact ⟨Char.le_refl d, Char.le_refl d⟩

@[simp] theorem contains_union (a b : CharSet) (c : Char) :
    (a.union b).contains c = (a.contains c || b.contains c) := contains_combine rfl a b c

@[simp] theorem contains_inter (a b : CharSet) (c : Char) :
    (a.inter b).contains c = (a.contains c && b.contains c) := contains_combine rfl a b c

@[simp] theorem contains_diff (a b : CharSet) (c : Char) :
    (a.diff b).contains c = (a.contains c && !b.contains c) :=
  contains_combine (f := fun a b => a && !b) rfl a b c

@[simp] theorem contains_all (c : Char) : all.contains c = true := by
  rw [contains, all, holds_between (Nat.le_refl count), decide_eq_true (Nat.zero_le _),
    decide_eq_true (ordinal_lt_count c), Bool.and_true]

@[simp] theorem contains_complement (a : CharSet) (c : Char) :
    a.complement.contains c = !a.contains c := by
  rw [complement, contains_diff, contains_all, Bool.true_and]

end CharSet

/-- The ways on from a state of an automaton, in their order. -/
inductive Recognizer where
  | stop
  /-- A match may end here. -/
  | accept (others : Recognizer)
  /-- Reads a character and comes back to this state. -/
  | again (s : CharSet) (others : Recognizer)
  /-- Reads a character and goes on in another state. -/
  | read (s : CharSet) (next others : Recognizer)
  deriving DecidableEq, Inhabited

namespace Recognizer

def accepts : Recognizer → Bool
  | stop => false
  | accept _ => true
  | again _ others | read _ _ others => others.accepts

/-- The state after a character, where `whole` is the state of which this is a part. -/
def next? (whole : Recognizer) (c : Char) : Recognizer → Option Recognizer
  | stop => none
  | accept others => next? whole c others
  | again s others => if s.contains c then some whole else next? whole c others
  | read s next others => if s.contains c then some next else next? whole c others

/-- The length of the longest match at the start of a text. -/
def length? (r : Recognizer) : List Char → Option Nat
  | [] => if r.accepts then some 0 else none
  | c :: rest =>
    ((next? r c r).bind fun next => (next.length? rest).map (· + 1)) <|>
      if r.accepts then some 0 else none

/-- Whether a state can come back to itself at once. -/
def loops : Recognizer → Bool
  | stop => false
  | accept others => others.loops
  | again _ _ => true
  | read _ _ others => others.loops

end Recognizer

namespace Automaton

/-- Whether the automaton knows no condition but that for the start of the text. -/
def onlyAnchors (m : Automaton) : Bool :=
  m.states.all fun s =>
    match s with
    | .check a _ => a == .startOfText
    | _ => true

/-- The ways to read on from a state of an automaton that only has anchors. -/
def row (m : Automaton) (atStart : Bool) (i : Nat) : Ways :=
  follow m.states (fun _ => atStart) (1 + 2 * m.states.size + 1) [i]
    (.replicate m.states.size false) []

theorem follow_congr {states : Array State} {holds holds' : Assertion → Bool}
    (agree : ∀ a next, .check a next ∈ states → holds a = holds' a) :
    ∀ (fuel : Nat) (stack : List Nat) (seen : Array Bool) (reads : List (CharSet × Nat)),
      follow states holds fuel stack seen reads = follow states holds' fuel stack seen reads := by
  intro fuel
  induction fuel with
  | zero =>
    intro stack seen reads
    cases stack <;> rfl
  | succ fuel ih =>
    intro stack seen reads
    cases stack with
    | nil => rfl
    | cons i stack =>
      simp only [follow]
      split
      · exact ih ..
      · split
        · exact ih ..
        · exact ih ..
        · next a next found =>
          rw [agree a next (Array.mem_of_getElem? found)]
          exact ih ..
        · rfl
        · exact ih ..

theorem ways_eq_row {m : Automaton} (only : m.onlyAnchors = true) (before after : Option Char)
    (i : Nat) : m.ways before after [i] = m.row before.isNone i := by
  refine follow_congr (fun a next found => ?_) _ _ _ _
  obtain ⟨j, inside, here⟩ := Array.mem_iff_getElem.1 found
  have same := Array.all_eq_true.1 only j inside
  rw [here] at same
  rw [eq_of_beq same]
  rfl

/-- Whether no two ways share a character. -/
def apart (reads : List (CharSet × Nat)) : Bool :=
  decide (reads.Pairwise fun a b => a.1.inter b.1 = ∅)

/-- Whether the ways of state `i` are those of a recognizer, and so on in the states after it. -/
def sameWays (m : Automaton) (i : Nat) : Recognizer → List (CharSet × Nat) → Bool
  | .stop, reads => reads.isEmpty
  | .accept others, reads => m.sameWays i others reads
  | .again s others, (s', j) :: reads => s = s' && i == j && m.sameWays i others reads
  | .read s next others, (s', j) :: reads =>
    s = s' && (m.row false j).accepts == next.accepts && apart (m.row false j).reads &&
      m.sameWays j next (m.row false j).reads && m.sameWays i others reads
  | _, [] => false

/-- Whether a state agrees with a recognizer. -/
def agrees (m : Automaton) (atStart : Bool) (i : Nat) (r : Recognizer) : Bool :=
  (m.row atStart i).accepts == r.accepts && apart (m.row atStart i).reads &&
    m.sameWays i r (m.row atStart i).reads

/-- The states that a character leads to. -/
def after (reads : List (CharSet × Nat)) (c : Char) : List Nat :=
  reads.filterMap fun (s, next) => if s.contains c then some next else none

theorem after_cons (s : CharSet) (j : Nat) (reads : List (CharSet × Nat)) (c : Char) :
    after ((s, j) :: reads) c = if s.contains c then j :: after reads c else after reads c := by
  rw [after, List.filterMap_cons]
  cases inside : s.contains c <;> simp [inside, after]

theorem after_eq_nil {s : CharSet} {j : Nat} {reads : List (CharSet × Nat)} {c : Char}
    (separate : apart ((s, j) :: reads) = true) (inside : s.contains c = true) :
    after reads c = [] := by
  refine List.filterMap_eq_nil_iff.2 fun (t, k) found => ?_
  have disjoint := (List.pairwise_cons.1 (of_decide_eq_true separate)).1 (t, k) found
  have never := congrArg (CharSet.contains · c) disjoint
  simp only [CharSet.contains_inter, inside, Bool.true_and] at never
  change (if t.contains c then some k else none) = none
  rw [never]
  rfl

theorem apart_tail {way : CharSet × Nat} {reads : List (CharSet × Nat)}
    (separate : apart (way :: reads) = true) : apart reads = true :=
  decide_eq_true (List.pairwise_cons.1 (of_decide_eq_true separate)).2

/-- A character leads to the state that the recognizer goes on in, or nowhere. -/
theorem after_sameWays {m : Automaton} {i : Nat} {whole : Recognizer} {c : Char} :
    ∀ {r : Recognizer} {reads : List (CharSet × Nat)}, m.sameWays i r reads = true →
      apart reads = true →
      (Recognizer.next? whole c r = none ∧ after reads c = []) ∨
        ∃ next j, Recognizer.next? whole c r = some next ∧ after reads c = [j] ∧
          (m.agrees false j next = true ∨ r.loops = true ∧ j = i ∧ next = whole) := by
  intro r
  induction r with
  | stop =>
    intro reads same _
    cases reads with
    | nil => exact Or.inl ⟨rfl, rfl⟩
    | cons way reads => cases same
  | accept others ih => exact fun same separate => ih same separate
  | again s others ih =>
    intro reads same separate
    cases reads with
    | nil => cases same
    | cons way reads =>
      obtain ⟨s', j⟩ := way
      simp only [sameWays, Bool.and_eq_true, decide_eq_true_eq, beq_iff_eq] at same
      obtain ⟨⟨rfl, rfl⟩, same⟩ := same
      rw [Recognizer.next?, after_cons]
      cases inside : s.contains c with
      | true =>
        refine Or.inr ⟨whole, i, rfl, ?_, Or.inr ⟨rfl, rfl, rfl⟩⟩
        exact congrArg (List.cons i) (after_eq_nil separate inside)
      | false =>
        simp only [Bool.false_eq_true, if_false]
        rcases ih same (apart_tail separate) with stuck | ⟨next, k, found, leads, agree⟩
        · exact Or.inl stuck
        · refine Or.inr ⟨next, k, found, leads, agree.imp id fun ⟨_, rest⟩ => ⟨rfl, rest⟩⟩
  | read s next others _ ih =>
    intro reads same separate
    cases reads with
    | nil => cases same
    | cons way reads =>
      obtain ⟨s', j⟩ := way
      simp only [sameWays, Bool.and_eq_true, decide_eq_true_eq] at same
      obtain ⟨⟨⟨⟨rfl, accepts⟩, separate'⟩, inner⟩, same⟩ := same
      rw [Recognizer.next?, after_cons]
      cases inside : s.contains c with
      | true =>
        refine Or.inr ⟨next, j, rfl, congrArg (List.cons j) (after_eq_nil separate inside),
          Or.inl ?_⟩
        rw [agrees, accepts, separate', inner]
        rfl
      | false =>
        simp only [Bool.false_eq_true, if_false]
        exact ih same (apart_tail separate)

theorem run_eq {m : Automaton} (only : m.onlyAnchors = true) :
    ∀ (text : List Char) {i : Nat} {r : Recognizer} (before : Option Char) (used : Nat)
      (best : Option Nat),
      m.agrees before.isNone i r = true → (before = none → r.loops = false) →
      m.run [i] before used best text = ((r.length? text).map (used + ·) <|> best) := by
  intro text
  induction text with
  | nil =>
    intro i r before used best agree _
    simp only [agrees, Bool.and_eq_true, beq_iff_eq] at agree
    rw [run, ways_eq_row only, agree.1.1, Recognizer.length?]
    cases r.accepts <;> rfl
  | cons c rest ih =>
    intro i r before used best agree straight
    have whole := agree
    simp only [agrees, Bool.and_eq_true, beq_iff_eq] at agree
    obtain ⟨⟨accepts, separate⟩, same⟩ := agree
    rw [run, ways_eq_row only, accepts, Recognizer.length?]
    rcases @after_sameWays m i r c r _ same separate with
      ⟨stuck, leads⟩ | ⟨next, j, found, leads, agree⟩
    · rw [after] at leads
      rw [leads, stuck]
      cases r.accepts <;> rfl
    · rw [after] at leads
      rw [leads, found]
      have goesOn : m.agrees (some c).isNone j next = true := by
        rcases agree with agree | ⟨loops, rfl, rfl⟩
        · exact agree
        · cases before with
          | none => rw [straight rfl] at loops; cases loops
          | some b => exact whole
      dsimp only
      rw [ih (some c) (used + 1) _ goesOn nofun, Option.bind_some]
      cases next.length? rest with
      | none => cases r.accepts <;> rfl
      | some n =>
        change some (used + 1 + n) = some (used + (n + 1))
        rw [Nat.add_assoc, Nat.add_comm 1 n]

end Automaton

/-- Whether a matcher finds at the start of a text what a recognizer finds there. -/
def Matcher.measures (m : Matcher) (r : Recognizer) : Bool :=
  m.start.pattern.anchored && m.start.automaton.onlyAnchors && !r.loops &&
    m.start.automaton.agrees true m.start.automaton.start r

theorem Matcher.length?_eq {m : Matcher} {r : Recognizer} (same : m.measures r = true)
    (text : List Char) : m.length? text = r.length? text := by
  simp only [Matcher.measures, Bool.and_eq_true, Bool.not_eq_true'] at same
  obtain ⟨⟨⟨anchored, only⟩, straight⟩, agree⟩ := same
  have run := Automaton.run_eq only text none 0 none agree fun _ => straight
  simp only [Nat.zero_add, Option.map_id_fun', id_eq, Option.orElse_eq_orElse] at run
  rw [Matcher.length?, Finder.search, anchored, Automaton.searchFrom.eq_def, run]
  cases found : r.length? text with
  | some n => rfl
  | none => cases text <;> rfl

end AttrGrammar
