import Mathlib.Data.List.Induction
import AttrGrammar.Scanner
import AttrGrammar.Proofs.Outcome

/-!
What a scanner makes of a source.

A source is covered by matches, one after the other: each is the longest that a rule of the mode on
top of the stack has there, by the first listed of such rules, and says which modes are on the stack
afterwards. The scanner goes along these matches as far as they go. It has tokens just if they cover
the source and only the first mode is left, and its errors tell where and why they end otherwise.
The main statement gives these cases, and the tokens with their places.
-/

namespace AttrGrammar

namespace Automaton

theorem run_le {m : Automaton} {text : List Char} {starts : List Nat} {before : Option Char}
    {used n : Nat} {best : Option Nat} (early : ∀ b, best = some b → b ≤ used)
    (found : m.run starts before used best text = some n) : n ≤ used + text.length := by
  induction text generalizing starts before used best with
  | nil =>
    rw [run] at found
    split at found
    · simp only [Option.some.injEq] at found
      omega
    · have := early n found
      omega
  | cons c rest ih =>
    have current : ∀ b, (if (m.ways before (some c) starts).accepts then some used else best) =
        some b → b ≤ used := by
      intro b
      split
      · simp only [Option.some.injEq]
        omega
      · exact early b
    rw [run] at found
    dsimp only at found
    split at found
    · have := current n found
      omega
    · have := ih (fun b same => Nat.le_succ_of_le (current b same)) found
      simp only [List.length_cons]
      omega

theorem searchFrom_le {m : Automaton} {only : Bool} {text : List Char} {before : Option Char}
    {skipped n : Nat} (found : m.searchFrom only before skipped text = some n) :
    n ≤ skipped + text.length := by
  induction text generalizing before skipped with
  | nil =>
    rw [searchFrom] at found
    split at found
    · next ended =>
      cases found
      exact run_le (by simp) ended
    · cases found
  | cons c rest ih =>
    rw [searchFrom] at found
    split at found
    · next ended =>
      cases found
      exact run_le (by simp) ended
    · split at found
      · cases found
      · have := ih found
        simp only [List.length_cons]
        omega

end Automaton

/-- A match ends inside the text. -/
theorem Matcher.length?_le {m : Matcher} {text : List Char} {n : Nat}
    (found : m.length? text = some n) : n ≤ text.length := by
  have inside := Automaton.searchFrom_le found
  omega

namespace Scanner

/-- At the start of a text, `rule` has a match of `n` characters; no rule has a longer one, and none
that is listed before has one as long. -/
def Leads (rules : List ScanRule) (text : List Char) (n : Nat) (rule : ScanRule) : Prop :=
  ∃ i : Nat, rules[i]? = some rule ∧ rule.matcher.length? text = some n ∧
    ∀ (j : Nat) (other : ScanRule) (k : Nat), rules[j]? = some other →
      other.matcher.length? text = some k → k ≤ n ∧ (k = n → i ≤ j)

/-- The match to take at the start of a text, which is never empty. -/
def Chosen (rules : List ScanRule) (text : List Char) (n : Nat) (rule : ScanRule) : Prop :=
  0 < n ∧ Leads rules text n rule

/-- No rule matches any characters at the start of a text. -/
def Unmatched (rules : List ScanRule) (text : List Char) : Prop :=
  ∀ rule ∈ rules, ∀ k, rule.matcher.length? text = some k → k = 0

theorem Chosen.unique {rules : List ScanRule} {text : List Char} {n n' : Nat} {rule rule' : ScanRule}
    (chosen : Chosen rules text n rule) (chosen' : Chosen rules text n' rule') :
    n = n' ∧ rule = rule' := by
  obtain ⟨_, i, here, measured, best⟩ := chosen
  obtain ⟨_, i', here', measured', best'⟩ := chosen'
  have below := best i' rule' n' here' measured'
  have above := best' i rule n here measured
  have same : n = n' := by omega
  have place : i = i' := by
    have first := below.2 same.symm
    have second := above.2 same
    omega
  subst place
  exact ⟨same, Option.some.inj (here.symm.trans here')⟩

theorem Unmatched.not_chosen {rules : List ScanRule} {text : List Char}
    (unmatched : Unmatched rules text) {n : Nat} {rule : ScanRule} :
    ¬ Chosen rules text n rule := by
  rintro ⟨positive, i, here, measured, _⟩
  have := unmatched rule (List.mem_of_getElem? here) n measured
  omega

theorem le_of_longestFrom_eq_none {text : List Char} {rules : List ScanRule} {best : Nat}
    (nothing : longestFrom text best rules = none) :
    ∀ rule ∈ rules, ∀ k, rule.matcher.length? text = some k → k ≤ best := by
  induction rules generalizing best with
  | nil => exact fun _ member => (List.not_mem_nil member).elim
  | cons rule rest ih =>
    intro other member k measured
    rw [longestFrom] at nothing
    cases here : rule.matcher.length? text with
    | none =>
      rw [here] at nothing
      rcases List.mem_cons.1 member with rfl | later
      · rw [here] at measured
        cases measured
      · exact ih nothing other later k measured
    | some n =>
      rw [here] at nothing
      dsimp only at nothing
      by_cases longer : n > best
      · rw [if_pos longer] at nothing
        cases found : longestFrom text n rest <;> rw [found] at nothing <;> cases nothing
      · rw [if_neg longer] at nothing
        rcases List.mem_cons.1 member with rfl | later
        · rw [here] at measured
          cases measured
          omega
        · exact ih nothing other later k measured

/-- A rule that leads among others leads in front of them too, if the first rule matches less. -/
theorem Leads.cons {first : ScanRule} {rest : List ScanRule} {text : List Char} {n : Nat}
    {rule : ScanRule} (leads : Leads rest text n rule)
    (less : ∀ k, first.matcher.length? text = some k → k < n) :
    Leads (first :: rest) text n rule := by
  obtain ⟨i, here, measured, chosen⟩ := leads
  refine ⟨i + 1, here, measured, fun j other k listed fits => ?_⟩
  cases j with
  | zero =>
    cases listed
    have := less k fits
    omega
  | succ j =>
    obtain ⟨least, order⟩ := chosen j other k listed fits
    exact ⟨least, fun same => Nat.succ_le_succ (order same)⟩

/-- The first rule leads if it matches and no later one matches more. -/
theorem leads_first {first : ScanRule} {rest : List ScanRule} {text : List Char} {n : Nat}
    (measured : first.matcher.length? text = some n)
    (most : ∀ rule ∈ rest, ∀ k, rule.matcher.length? text = some k → k ≤ n) :
    Leads (first :: rest) text n first := by
  refine ⟨0, rfl, measured, fun j other k listed fits => ⟨?_, fun _ => Nat.zero_le j⟩⟩
  cases j with
  | zero =>
    cases listed
    rw [measured] at fits
    cases fits
    exact Nat.le_refl _
  | succ j => exact most other (List.mem_of_getElem? listed) k fits

/-- The match found is the longest, by the first rule of those that have it. -/
theorem longestFrom_eq_some {text : List Char} {rules : List ScanRule} {best n : Nat}
    {rule : ScanRule} (found : longestFrom text best rules = some (n, rule)) :
    best < n ∧ Leads rules text n rule := by
  induction rules generalizing best with
  | nil => cases found
  | cons first rest ih =>
    rw [longestFrom] at found
    cases measured : first.matcher.length? text with
    | none =>
      rw [measured] at found
      obtain ⟨longer, leads⟩ := ih found
      exact ⟨longer, leads.cons fun k fits => by cases measured.symm.trans fits⟩
    | some k =>
      rw [measured] at found
      dsimp only at found
      by_cases longer : k > best
      · rw [if_pos longer] at found
        cases after : longestFrom text k rest with
        | some result =>
          rw [after] at found
          cases found
          obtain ⟨more, leads⟩ := ih after
          refine ⟨Nat.lt_trans longer more, leads.cons fun k' fits => ?_⟩
          cases measured.symm.trans fits
          exact more
        | none =>
          rw [after] at found
          cases found
          exact ⟨longer, leads_first measured (le_of_longestFrom_eq_none after)⟩
      · rw [if_neg longer] at found
        obtain ⟨more, leads⟩ := ih found
        refine ⟨more, leads.cons fun k' fits => ?_⟩
        cases measured.symm.trans fits
        omega

theorem longestFrom_chosen {text : List Char} {rules : List ScanRule} {n : Nat} {rule : ScanRule} :
    longestFrom text 0 rules = some (n, rule) ↔ Chosen rules text n rule := by
  refine ⟨longestFrom_eq_some, fun chosen => ?_⟩
  cases found : longestFrom text 0 rules with
  | none =>
    have unmatched : Unmatched rules text := fun rule member k measured =>
      Nat.le_zero.1 (le_of_longestFrom_eq_none found rule member k measured)
    exact absurd chosen unmatched.not_chosen
  | some result =>
    obtain ⟨n', rule'⟩ := result
    obtain ⟨rfl, rfl⟩ := chosen.unique (longestFrom_eq_some found)
    rfl

theorem longestFrom_unmatched {text : List Char} {rules : List ScanRule} :
    longestFrom text 0 rules = none ↔ Unmatched rules text := by
  constructor
  · intro nothing rule member k measured
    exact Nat.le_zero.1 (le_of_longestFrom_eq_none nothing rule member k measured)
  · intro unmatched
    cases found : longestFrom text 0 rules with
    | none => rfl
    | some result => exact absurd (longestFrom_eq_some found) unmatched.not_chosen

/-- What an action makes of the stack of modes. The last mode on the stack is not left. -/
inductive Turns : ScanAction Nat → List Nat → List Nat → Prop
  | emit {stack : List Nat} : Turns .emit stack stack
  | skip {stack : List Nat} : Turns .skip stack stack
  | push {stack : List Nat} {target : Nat} : Turns (.push target) stack (target :: stack)
  | pop {top below : Nat} {rest : List Nat} : Turns .pop (top :: below :: rest) (below :: rest)

/-- A match: its rule and text, with the stack of modes before and after it. -/
structure Step where
  before : List Nat
  rule : ScanRule
  text : List Char
  after : List Nat

/-- The stack that gives a match its depth: the one before a push, and the one after a pop. -/
def Step.around (m : Step) : List Nat := if m.rule.action = .pop then m.after else m.before

theorem act_eq_some {s : Scanner} {action : ScanAction Nat} {stack stack' : List Nat} {depth : Nat} :
    s.act stack action = some (stack', depth) ↔
      Turns action stack stack' ∧ depth = s.depth (if action = .pop then stack' else stack) := by
  constructor
  · intro acts
    cases action with
    | emit =>
      cases acts
      exact ⟨.emit, rfl⟩
    | skip =>
      cases acts
      exact ⟨.skip, rfl⟩
    | push target =>
      cases acts
      exact ⟨.push, rfl⟩
    | pop =>
      match stack, acts with
      | _ :: _ :: _, acts =>
        cases acts
        exact ⟨.pop, rfl⟩
  · rintro ⟨turns, rfl⟩
    cases turns <;> rfl

theorem act_eq_none {s : Scanner} {action : ScanAction Nat} {top : Nat} {below : List Nat} :
    s.act (top :: below) action = none ↔ action = .pop ∧ below = [] := by
  cases action with
  | emit => simp [act]
  | skip => simp [act]
  | push target => simp [act]
  | pop => cases below <;> simp [act]

/-- All modes on a stack exist, and the initial one is at the bottom. -/
structure InRange (s : Scanner) (stack : List Nat) : Prop where
  bottom : stack.getLast? = some s.initial
  inside : ∀ i ∈ stack, i < s.modes.length

/-- Pushes of the scanner go to modes that exist. -/
def Closed (s : Scanner) : Prop :=
  ∀ mode ∈ s.modes, ∀ rule ∈ mode.rules, ∀ target, rule.action = .push target →
    target < s.modes.length

theorem Turns.inRange {s : Scanner} {action : ScanAction Nat} {stack stack' : List Nat}
    (turns : Turns action stack stack') (range : s.InRange stack)
    (pushed : ∀ target, action = .push target → target < s.modes.length) : s.InRange stack' := by
  obtain ⟨bottom, inside⟩ := range
  cases turns with
  | emit => exact ⟨bottom, inside⟩
  | skip => exact ⟨bottom, inside⟩
  | @push target =>
    refine ⟨?_, fun i member => ?_⟩
    · cases stack with
      | nil => cases bottom
      | cons top below => exact bottom
    · rcases List.mem_cons.1 member with rfl | old
      · exact pushed _ rfl
      · exact inside i old
  | pop => exact ⟨bottom, fun i member => inside i (List.mem_cons_of_mem _ member)⟩

theorem InRange.top {s : Scanner} {stack : List Nat} (range : s.InRange stack) :
    ∃ top below mode, stack = top :: below ∧ s.modes[top]? = some mode := by
  cases stack with
  | nil => cases range.bottom
  | cons top below =>
    exact ⟨top, below, _, rfl, List.getElem?_eq_getElem (range.inside top List.mem_cons_self)⟩

theorem modeIndex_lt {spec : LexerSpec} {name : String} {i : Nat}
    (found : modeIndex spec name = .ok i) : i < spec.modes.length := by
  unfold modeIndex at found
  split at found
  · next place =>
    cases found
    exact (List.findIdx?_eq_some_iff_getElem.1 place).1
  · cases found

/-- A resolved push goes to a mode that is written down. -/
theorem resolveRule_push {g : Grammar} {spec : LexerSpec} {written : ModeRule} {rule : ScanRule}
    {target : Nat} (resolved : resolveRule g spec written = .ok rule)
    (pushes : rule.action = .push target) : target < spec.modes.length := by
  unfold resolveRule at resolved
  cases known : g.rule written.terminal with
  | error e =>
    rw [known] at resolved
    cases resolved
  | ok terminal =>
    rw [known, except_ok_bind] at resolved
    split at resolved
    · split at resolved
      · cases action : resolveAction spec written.action with
        | error e =>
          rw [action] at resolved
          cases resolved
        | ok resolvedAction =>
          rw [action] at resolved
          cases resolved
          change resolvedAction = .push target at pushes
          subst pushes
          cases written : written.action with
          | push name =>
            rw [written, resolveAction] at action
            cases place : modeIndex spec name with
            | error e =>
              rw [place] at action
              cases action
            | ok i =>
              rw [place] at action
              cases action
              exact modeIndex_lt place
          | _ =>
            rw [written] at action
            cases action
      · cases resolved
    · cases resolved

/-- A resolved scanner begins in a mode of its own and never leaves its modes. -/
theorem inRange_of_ofSpec {g : Grammar} {spec : LexerSpec} {s : Scanner}
    (built : ofSpec g spec = .ok s) : s.InRange [s.initial] ∧ s.Closed := by
  unfold ofSpec at built
  cases resolved : spec.modes.mapM (resolveMode g spec) with
  | error e =>
    rw [resolved] at built
    cases built
  | ok modes =>
    rw [resolved] at built
    cases first : modeIndex spec spec.initial with
    | error e =>
      change (modeIndex spec spec.initial >>= _) = _ at built
      rw [first] at built
      cases built
    | ok initial =>
      change (modeIndex spec spec.initial >>= _) = _ at built
      rw [first] at built
      cases built
      obtain ⟨size, each⟩ := mapM_eq_ok resolved
      constructor
      · refine ⟨rfl, fun i member => ?_⟩
        rw [List.mem_singleton.1 member]
        exact Nat.lt_of_lt_of_eq (modeIndex_lt first) size.symm
      · intro mode listed rule among target pushes
        obtain ⟨written, _, found⟩ := each mode listed
        unfold resolveMode at found
        cases rules : written.rules.mapM (resolveRule g spec) with
        | error e =>
          rw [rules] at found
          cases found
        | ok all =>
          rw [rules] at found
          cases found
          obtain ⟨rule', _, fits⟩ := (mapM_eq_ok rules).2 rule among
          exact Nat.lt_of_lt_of_eq (resolveRule_push fits pushes) size.symm

/-- The line of what comes after a text. -/
def lineAfter (text : List Char) : Nat := 1 + text.count '\n'

/-- The column of what comes after a text. -/
def columnAfter (text : List Char) : Nat := 1 + (text.reverse.takeWhile (· ≠ '\n')).length

theorem advance_eq (text : List Char) : advance (1, 1) text = (lineAfter text, columnAfter text) := by
  -- along the text, character by character from its end
  induction text using List.reverseRec with
  | nil => rfl
  | append_singleton text c ih =>
    rw [advance_append, ih]
    by_cases breaks : c = '\n'
    · simp [advance, breaks, lineAfter, columnAfter, Nat.add_assoc]
    · simp [advance, breaks, lineAfter, columnAfter, Nat.add_assoc]

/-- Matches one after the other, each the one to take where the last ended, from a stack of modes and
a text to a stack and the rest of the text. -/
inductive Covers (s : Scanner) : List Nat → List Char → List Step → List Nat → List Char → Prop
  | done {stack : List Nat} {text : List Char} : Covers s stack text [] stack text
  | step {top : Nat} {below after stack : List Nat} {mode : ScanMode} {rule : ScanRule}
      {lexeme text rest : List Char} {steps : List Step} (inMode : s.modes[top]? = some mode)
      (chosen : Chosen mode.rules (lexeme ++ text) lexeme.length rule)
      (turns : Turns rule.action (top :: below) after)
      (others : Covers s after text steps stack rest) :
      Covers s (top :: below) (lexeme ++ text) (⟨top :: below, rule, lexeme, after⟩ :: steps) stack
        rest

/-- The text of some matches. -/
def textOf (steps : List Step) : List Char := steps.flatMap (·.text)

/-- The tokens of matches that come after a text: all but those that are skipped. -/
def tokensOf (s : Scanner) (hooks : Hooks) : List Char → List Step → List Token
  | _, [] => []
  | read, m :: steps =>
    let others := tokensOf s hooks (read ++ m.text) steps
    if m.rule.action = .skip then others
    else
      hooks { name := m.rule.terminal, lexeme := String.ofList m.text }
        { line := lineAfter read, column := columnAfter read, depth := s.depth m.around } :: others

/-- Nothing can be matched at the start of a text, or only what would leave the last mode. -/
def Stuck (s : Scanner) (stack : List Nat) (text : List Char) : Prop :=
  ∃ top below mode, stack = top :: below ∧ s.modes[top]? = some mode ∧
    (Unmatched mode.rules text ∨
      ∃ n rule, Chosen mode.rules text n rule ∧ rule.action = .pop ∧ below = [])

variable {s : Scanner} {hooks : Hooks} {stack stack' : List Nat} {text rest : List Char}
  {steps : List Step}

theorem Covers.text_eq (covers : s.Covers stack text steps stack' rest) :
    text = textOf steps ++ rest := by
  induction covers with
  | done => rfl
  | step _ _ _ _ ih => rw [textOf, List.flatMap_cons, List.append_assoc, ← textOf, ← ih]

theorem Covers.nonempty (covers : s.Covers stack text steps stack' rest) :
    ∀ m ∈ steps, m.text ≠ [] := by
  induction covers with
  | done => exact fun _ member => (List.not_mem_nil member).elim
  | step _ chosen _ _ ih =>
    intro m member
    rcases List.mem_cons.1 member with rfl | later
    · exact List.length_pos_iff.1 chosen.1
    · exact ih m later

theorem Covers.inRange (closed : s.Closed) (covers : s.Covers stack text steps stack' rest)
    (range : s.InRange stack) : s.InRange stack' := by
  induction covers with
  | done => exact range
  | @step top below after stack mode rule lexeme text rest steps inMode chosen turns _ ih =>
    obtain ⟨_, i, listed, _⟩ := chosen
    exact ih (turns.inRange range
      (closed mode (List.mem_of_getElem? inMode) rule (List.mem_of_getElem? listed)))

theorem longest?_eq {top : Nat} {below : List Nat} {mode : ScanMode}
    (inMode : s.modes[top]? = some mode) :
    s.longest? (top :: below) text = longestFrom text 0 mode.rules := by
  rw [longest?, top?, List.head?_cons, Option.bind_some, inMode, Option.bind_some]

/-- Along the matches that cover the start of a text the scanner finds their tokens. -/
theorem Covers.scanFrom_eq (covers : s.Covers stack text steps stack' rest) (read : List Char) :
    s.scanFrom hooks stack (advance (1, 1) read) text =
      (s.scanFrom hooks stack' (advance (1, 1) (read ++ textOf steps)) rest).map
        (tokensOf s hooks read steps ++ ·) := by
  induction covers generalizing read with
  | @done stack text =>
    rw [textOf, List.flatMap_nil, List.append_nil]
    cases s.scanFrom hooks stack (advance (1, 1) read) text <;> rfl
  | @step top below after stack mode rule lexeme text rest steps inMode chosen turns _ ih =>
    cases lexeme with
    | nil => exact absurd chosen.1 (Nat.lt_irrefl 0)
    | cons c lexeme =>
      have longest : s.longest? (top :: below) (c :: (lexeme ++ text)) =
          some ((c :: lexeme).length, rule) := (longest?_eq inMode).trans (longestFrom_chosen.2 chosen)
      have acts : s.act (top :: below) rule.action =
          some (after, s.depth (if rule.action = .pop then after else top :: below)) :=
        act_eq_some.2 ⟨turns, rfl⟩
      have later := ih (read ++ c :: lexeme)
      rw [advance_append] at later
      rw [List.cons_append, scanFrom.eq_def]
      simp only [longest, acts, List.length_cons, Nat.add_sub_cancel, List.take_left,
        List.drop_left, later]
      have same : read ++ textOf (⟨top :: below, rule, c :: lexeme, after⟩ :: steps) =
          read ++ c :: lexeme ++ textOf steps := by
        rw [textOf, List.flatMap_cons, ← textOf, List.append_assoc]
      rw [same, tokensOf]
      cases s.scanFrom hooks stack (advance (1, 1) (read ++ c :: lexeme ++ textOf steps)) rest with
      | error e => rfl
      | ok tokens =>
        by_cases skipped : rule.action = .skip
        · simp only [Except.map, skipped, if_true]
          rfl
        · have place := advance_eq read
          simp only [Except.map, skipped, if_false, place]
          rfl

/-- Matches go on to the end of the text, or to where nothing can be matched. -/
theorem exists_covers (closed : s.Closed) : ∀ (size : Nat) {stack : List Nat} {text : List Char},
    text.length ≤ size → s.InRange stack → ∃ steps stack' rest,
      s.Covers stack text steps stack' rest ∧ (rest = [] ∨ s.Stuck stack' rest)
  | size, stack, [], _, _ => ⟨[], stack, [], .done, Or.inl rfl⟩
  | size + 1, stack, c :: text, short, range => by
    obtain ⟨top, below, mode, rfl, inMode⟩ := range.top
    cases found : longestFrom (c :: text) 0 mode.rules with
    | none =>
      have unmatched := longestFrom_unmatched.1 found
      exact ⟨[], top :: below, c :: text, .done,
        Or.inr ⟨top, below, mode, rfl, inMode, Or.inl unmatched⟩⟩
    | some result =>
      obtain ⟨n, rule⟩ := result
      have chosen := longestFrom_chosen.1 found
      have ⟨positive, i, listed, measured, _⟩ := chosen
      have inside := Matcher.length?_le measured
      have split : (c :: text).take n ++ (c :: text).drop n = c :: text := List.take_append_drop n _
      have size_eq : ((c :: text).take n).length = n := List.length_take_of_le inside
      cases acts : s.act (top :: below) rule.action with
      | none =>
        obtain ⟨pops, last⟩ := act_eq_none.1 acts
        exact ⟨[], top :: below, c :: text, .done,
          Or.inr ⟨top, below, mode, rfl, inMode, Or.inr ⟨n, rule, chosen, pops, last⟩⟩⟩
      | some result =>
        obtain ⟨after, depth⟩ := result
        obtain ⟨turns, _⟩ := act_eq_some.1 acts
        have shorter : ((c :: text).drop n).length ≤ size := by
          rw [List.length_drop]
          omega
        have range' := turns.inRange range
          (closed mode (List.mem_of_getElem? inMode) rule (List.mem_of_getElem? listed))
        obtain ⟨steps, stack', rest, covers, ends⟩ := exists_covers closed size shorter range'
        have chosen' : Chosen mode.rules ((c :: text).take n ++ (c :: text).drop n)
            ((c :: text).take n).length rule := by
          rw [split, size_eq]
          exact chosen
        have whole := Covers.step inMode chosen' turns covers
        rw [split] at whole
        exact ⟨_, stack', rest, whole, ends⟩

theorem scanFrom_stuck {c : Char} (stuck : s.Stuck stack (c :: rest)) (place : Nat × Nat) :
    s.scanFrom hooks stack place (c :: rest) =
      .error (.unexpectedCharacter c place.1 place.2) := by
  obtain ⟨top, below, mode, rfl, inMode, unmatched | ⟨n, rule, chosen, pops, last⟩⟩ := stuck
  · have longest : s.longest? (top :: below) (c :: rest) = none :=
      (longest?_eq inMode).trans (longestFrom_unmatched.2 unmatched)
    rw [scanFrom.eq_def]
    simp only [longest]
  · have longest : s.longest? (top :: below) (c :: rest) = some (n, rule) :=
      (longest?_eq inMode).trans (longestFrom_chosen.2 chosen)
    have acts : s.act (top :: below) rule.action = none := act_eq_none.2 ⟨pops, last⟩
    rw [scanFrom.eq_def]
    simp only [longest, acts]

variable {source : String}

theorem Covers.scan_eq (covers : s.Covers [s.initial] source.toList steps stack rest) :
    s.scan hooks source =
      (s.scanFrom hooks stack (lineAfter (textOf steps), columnAfter (textOf steps)) rest).map
        (s.tokensOf hooks [] steps ++ ·) := by
  have along := @Covers.scanFrom_eq s hooks _ _ _ _ _ covers []
  rw [List.nil_append, advance_eq (textOf steps)] at along
  exact along

theorem Covers.scan_tokens (covers : s.Covers [s.initial] source.toList steps [s.initial] []) :
    s.scan hooks source = .ok (s.tokensOf hooks [] steps) := by
  rw [covers.scan_eq, scanFrom]
  simp [Except.map]

theorem Covers.scan_unterminated {top : Nat} {below : List Nat} {mode : ScanMode}
    (covers : s.Covers [s.initial] source.toList steps (top :: below) []) (more : below ≠ [])
    (inMode : s.modes[top]? = some mode) :
    s.scan hooks source = .error (.unterminatedInput mode.name (lineAfter source.toList)) := by
  have whole : source.toList = textOf steps := by rw [covers.text_eq, List.append_nil]
  have several : (top :: below).length > 1 := Nat.succ_lt_succ (List.length_pos_iff.2 more)
  have here : s.top? (top :: below) = some mode := inMode
  rw [covers.scan_eq, scanFrom, if_pos several, here, whole]
  rfl

theorem Covers.scan_unexpected {c : Char}
    (covers : s.Covers [s.initial] source.toList steps stack (c :: rest))
    (stuck : s.Stuck stack (c :: rest)) :
    s.scan hooks source =
      .error (.unexpectedCharacter c (lineAfter (textOf steps)) (columnAfter (textOf steps))) := by
  rw [covers.scan_eq, scanFrom_stuck stuck]
  rfl

/-- A source is covered to its end, with the first mode alone or with others on the stack, or up to
where nothing can be matched. -/
theorem covers_cases (range : s.InRange [s.initial]) (closed : s.Closed) (source : String) :
    (∃ steps, s.Covers [s.initial] source.toList steps [s.initial] []) ∨
      (∃ steps top below mode, s.Covers [s.initial] source.toList steps (top :: below) [] ∧
        below ≠ [] ∧ s.modes[top]? = some mode) ∨
      ∃ steps stack c rest, s.Covers [s.initial] source.toList steps stack (c :: rest) ∧
        s.Stuck stack (c :: rest) := by
  obtain ⟨steps, stack, rest, covers, ends⟩ := exists_covers closed _ (Nat.le_refl _) range
  cases rest with
  | cons c rest => exact Or.inr (Or.inr ⟨steps, stack, c, rest, covers, ends.resolve_left nofun⟩)
  | nil =>
    have last := covers.inRange closed range
    obtain ⟨top, below, mode, rfl, inMode⟩ := last.top
    by_cases alone : below = []
    · subst alone
      obtain rfl : top = s.initial := Option.some.inj last.bottom
      exact Or.inl ⟨steps, covers⟩
    · exact Or.inr (Or.inl ⟨steps, top, below, mode, covers, alone, inMode⟩)

/-- What a scanner answers for a source. -/
structure Accounts (s : Scanner) (hooks : Hooks) (source : String) : Prop where
  /-- Matches are not empty, nothing stands between them, and they never lead out of the modes. -/
  lossless : ∀ steps stack rest, s.Covers [s.initial] source.toList steps stack rest →
    source.toList = textOf steps ++ rest ∧ (∀ m ∈ steps, m.text ≠ []) ∧ s.InRange stack
  /-- There are tokens just if matches cover the source and end with the stack they began with. -/
  tokens : ∀ tokens, s.scan hooks source = .ok tokens ↔
    ∃ steps, s.Covers [s.initial] source.toList steps [s.initial] [] ∧
      tokens = s.tokensOf hooks [] steps
  /-- A character is unexpected just if matches cover what stands before it, and none is to be taken
  there. -/
  unexpected : ∀ c line column, s.scan hooks source = .error (.unexpectedCharacter c line column) ↔
    ∃ steps stack rest, s.Covers [s.initial] source.toList steps stack (c :: rest) ∧
      s.Stuck stack (c :: rest) ∧ line = lineAfter (textOf steps) ∧
        column = columnAfter (textOf steps)
  /-- The input ends too early just if matches cover it and leave more modes than the first. -/
  unterminated : ∀ name line, s.scan hooks source = .error (.unterminatedInput name line) ↔
    ∃ steps top below mode, s.Covers [s.initial] source.toList steps (top :: below) [] ∧
      below ≠ [] ∧ s.modes[top]? = some mode ∧ name = mode.name ∧ line = lineAfter source.toList

/-- A resolved scanner accounts for every source. -/
theorem accounts_of_ofSpec {g : Grammar} {spec : LexerSpec} (built : ofSpec g spec = .ok s)
    (hooks : Hooks) (source : String) : s.Accounts hooks source := by
  obtain ⟨range, closed⟩ := inRange_of_ofSpec built
  have cases := covers_cases range closed source
  constructor
  · intro steps stack rest covers
    exact ⟨covers.text_eq, covers.nonempty, covers.inRange closed range⟩
  · intro tokens
    constructor
    · intro done
      rcases cases with ⟨steps, covers⟩ | ⟨_, _, _, _, covers, more, inMode⟩ |
        ⟨_, _, _, _, covers, stuck⟩
      · refine ⟨steps, covers, ?_⟩
        exact Except.ok.inj (done.symm.trans covers.scan_tokens)
      · cases done.symm.trans (covers.scan_unterminated more inMode)
      · cases done.symm.trans (covers.scan_unexpected stuck)
    · rintro ⟨steps, covers, rfl⟩
      exact covers.scan_tokens
  · intro c line column
    constructor
    · intro failed
      rcases cases with ⟨steps, covers⟩ | ⟨_, _, _, _, covers, more, inMode⟩ |
        ⟨steps, stack, _, rest, covers, stuck⟩
      · cases failed.symm.trans covers.scan_tokens
      · cases failed.symm.trans (covers.scan_unterminated more inMode)
      · cases failed.symm.trans (covers.scan_unexpected stuck)
        exact ⟨steps, stack, rest, covers, stuck, rfl, rfl⟩
    · rintro ⟨steps, stack, rest, covers, stuck, rfl, rfl⟩
      exact covers.scan_unexpected stuck
  · intro name line
    constructor
    · intro failed
      rcases cases with ⟨steps, covers⟩ | ⟨steps, top, below, mode, covers, more, inMode⟩ |
        ⟨_, _, _, _, covers, stuck⟩
      · cases failed.symm.trans covers.scan_tokens
      · cases failed.symm.trans (covers.scan_unterminated more inMode)
        exact ⟨steps, top, below, mode, covers, more, inMode, rfl, rfl⟩
      · cases failed.symm.trans (covers.scan_unexpected stuck)
    · rintro ⟨steps, top, below, mode, covers, more, inMode, rfl, rfl⟩
      exact covers.scan_unterminated more inMode

theorem accounts_of_ofSpec_group : ∃ g spec s, ofSpec g spec = .ok s ∧
    s.Accounts (fun token _ => token) "a(b\n)" := by
  let terminal (name pattern : String) : Rule :=
    .terminal name (Matcher.ofPattern pattern).toOption
  let g : Grammar :=
    { name := "groups", top := "word"
      rules := [terminal "word" "[a-z\n]+", terminal "open" "[(]", terminal "close" "[)]"] }
  let spec : LexerSpec :=
    { initial := "top"
      modes := [⟨"top", false, [⟨"word", .emit⟩, ⟨"open", .push "group"⟩]⟩,
        ⟨"group", true, [⟨"word", .emit⟩, ⟨"close", .pop⟩]⟩] }
  have resolves : (ofSpec g spec).isOk = true := by decide +kernel
  cases built : ofSpec g spec with
  | ok s => exact ⟨g, spec, s, built, accounts_of_ofSpec built _ _⟩
  | error e =>
    rw [built] at resolves
    cases resolves

end Scanner

end AttrGrammar
