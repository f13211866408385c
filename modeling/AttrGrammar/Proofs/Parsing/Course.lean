import AttrGrammar.Proofs.Outcome
import AttrGrammar.Proofs.Parsing.Soundness

/-!
The course of parsing.

What a rule reads, and where and why it fails, does not depend on the tree that is being built. The
functions here take the same course as the parser and build no tree. Descent is cut off at a depth,
where something else reads in its place; the parser fails there.
-/

namespace AttrGrammar

namespace Parsing

/-- Reads a rule, and its terms with `read`. -/
def descend (g : Grammar) (read : Reader) : Reader := fun rule p =>
  if rule.isTerminal then parseTerminal rule p
  else do
    modify fun t => (t.enter rule.name rule.kind).2
    let next ← parseBody g read rule p
    modify fun t => t.close.2
    pure next

/-- Recursive descent to a depth, at which `bottom` reads instead. -/
def descendTo (g : Grammar) (bottom : Reader) : Nat → Reader
  | 0 => bottom
  | depth + 1 => descend g (descendTo g bottom depth)

/-- The parser gives up at the bottom. -/
def giveUp : Reader := fun rule p => fail rule.name .leftRecursion p

theorem descendTo_giveUp (g : Grammar) (depth : Nat) :
    descendTo g giveUp depth = parseRule g depth := by
  induction depth with
  | zero => rfl
  | succ depth ih =>
    rw [descendTo, ih]
    rfl

namespace Course

variable {α : Type}

/-- A way to read a rule that builds no tree. -/
abbrev Guide := Rule → Place → Except ParseError Place

def stop (rule : String) (fault : ParseFault) (p : Place) : Except ParseError α :=
  .error { rule, fault, index := p.index }

def lookUp (g : Grammar) (name : String) (p : Place) : Except ParseError Rule :=
  match g.find? name with
  | some r => .ok r
  | none => stop name (.unknownRule name) p

def terminal (rule : Rule) (p : Place) : Except ParseError Place :=
  if rule.name = nullable then .ok p
  else match p.rest with
    | token :: rest =>
      if token.name = rule.name then .ok ⟨p.index + 1, rest⟩
      else stop rule.name (.terminalMismatch rule.name token.name) p
    | [] => stop rule.name (.exhaustedInput [rule.name]) p

def sequence (g : Grammar) (guide : Guide) : List String → Place → Except ParseError Place
  | [], p => .ok p
  | term :: rest, p => do
    let rule ← lookUp g term p
    let p ← guide rule p
    sequence g guide rest p

def alternatives (g : Grammar) (p : Place) : List String → Except ParseError (List Rule)
  | [] => .ok []
  | term :: rest => do
    let rule ← lookUp g term p
    let others ← alternatives g p rest
    .ok (rule :: others)

def alternation (g : Grammar) (guide : Guide) (rule : Rule) (terms : List String) (p : Place) :
    Except ParseError Place := do
  let terms ← alternatives g p terms
  match choose rule terms p with
  | .ok term => guide term p
  | .error fault => stop rule.name fault p

/-- Leaves a rule at a place if the next token can follow it. -/
def leave (rule : Rule) (e : ParseError) (p : Place) : Except ParseError Place :=
  if rule.follow.contains p.lookahead then .ok p else .error e

def option (g : Grammar) (guide : Guide) (rule : Rule) (term : String) (p : Place) :
    Except ParseError Place := do
  let term ← lookUp g term p
  match guide term p with
  | .ok next => .ok next
  | .error e => leave rule e p

def rounds (guide : Guide) (rule term : Rule) : Nat → Place → Except ParseError Place
  | 0, p => .ok p
  | n + 1, p =>
    if p.rest.isEmpty then .ok p
    else match guide term p with
      | .ok next => if next.index = p.index then .ok p else rounds guide rule term n next
      | .error e => leave rule e p

def body (g : Grammar) (guide : Guide) (rule : Rule) (p : Place) : Except ParseError Place :=
  match rule.body with
  | .terminal _ | .attrTerminal => terminal rule p
  | .concatenation terms | .attrProduction terms => sequence g guide terms p
  | .alternation terms => alternation g guide rule terms p
  | .repetition term => do
    let term ← lookUp g term p
    rounds guide rule term (p.rest.length + 1) p
  | .option term => option g guide rule term p

def descend (g : Grammar) (guide : Guide) : Guide := fun rule p =>
  if rule.isTerminal then terminal rule p else body g guide rule p

def descendTo (g : Grammar) (bottom : Guide) : Nat → Guide
  | 0 => bottom
  | depth + 1 => descend g (descendTo g bottom depth)

def giveUp : Guide := fun rule p => stop rule.name .leftRecursion p

end Course

open Course (Guide)

variable {α β : Type}

/-- What a run comes to, whatever the tree has become. -/
def courseOf : EStateM.Result ParseError ParseTree α → Except ParseError α
  | .ok a _ => .ok a
  | .error e _ => .error e

/-- A step takes a course on every tree. -/
def Takes (course : Except ParseError α) (step : ParseM α) : Prop :=
  ∀ t : ParseTree, courseOf (step t) = course

theorem takes_pure (a : α) : Takes (.ok a) (pure a) := fun _ => rfl

theorem takes_throw (e : ParseError) : Takes (.error e : Except ParseError α) (throw e) := fun _ => rfl

theorem takes_fail (rule : String) (fault : ParseFault) (p : Place) :
    Takes (Course.stop rule fault p : Except ParseError α) (fail rule fault p) := fun _ => rfl

theorem takes_modify (change : ParseTree → ParseTree) : Takes (.ok ()) (modify change) := fun _ => rfl

theorem Takes.bind {course : Except ParseError α} {step : ParseM α} (takes : Takes course step)
    {more : α → Except ParseError β} {next : α → ParseM β} (later : ∀ a, Takes (more a) (next a)) :
    Takes (course >>= more) (step >>= next) := by
  intro t
  have here := takes t
  rw [← here]
  simp only [Bind.bind, EStateM.bind]
  cases step t with
  | ok a after => exact later a after
  | error e after => rfl

/-- A reader takes the course of a guide. -/
def Heeds (guide : Guide) (read : Reader) : Prop := ∀ rule p, Takes (guide rule p) (read rule p)

variable {g : Grammar} {guide : Guide} {read : Reader}

/-- A reader on a tree of its own. -/
theorem Heeds.trial (heeds : Heeds guide read) (rule : Rule) (p : Place) :
    (∃ next scratch, guide rule p = .ok next ∧ (read rule p).run {} = .ok next scratch) ∨
      ∃ e scratch, guide rule p = .error e ∧ (read rule p).run {} = .error e scratch := by
  have course := heeds rule p {}
  rw [← course]
  rw [EStateM.run]
  cases read rule p {} with
  | ok next scratch => exact Or.inl ⟨next, scratch, rfl, rfl⟩
  | error e scratch => exact Or.inr ⟨e, scratch, rfl, rfl⟩

theorem takes_resolve (g : Grammar) (name : String) (p : Place) :
    Takes (Course.lookUp g name p) (resolve g name p) := by
  unfold Course.lookUp resolve
  cases g.find? name with
  | none => exact takes_fail name _ p
  | some rule => exact takes_pure rule

theorem heeds_parseTerminal : Heeds Course.terminal parseTerminal := by
  intro rule p
  unfold Course.terminal parseTerminal
  split
  · exact takes_pure p
  · cases p.rest with
    | nil => exact takes_fail _ _ p
    | cons token rest =>
      dsimp only
      split
      · exact (takes_modify _).bind fun _ => takes_pure _
      · exact takes_fail _ _ p

theorem takes_parseSequence (heeds : Heeds guide read) (terms : List String) (p : Place) :
    Takes (Course.sequence g guide terms p) (parseSequence g read terms p) := by
  induction terms generalizing p with
  | nil => exact takes_pure p
  | cons term rest ih =>
    exact (takes_resolve g term p).bind fun rule => (heeds rule p).bind fun p => ih p

theorem takes_candidates (terms : List String) (p : Place) :
    Takes (Course.alternatives g p terms) (candidates g p terms) := by
  induction terms with
  | nil => exact takes_pure []
  | cons term rest ih =>
    exact (takes_resolve g term p).bind fun rule => ih.bind fun others => takes_pure (rule :: others)

theorem takes_parseAlternation (heeds : Heeds guide read) (rule : Rule) (terms : List String)
    (p : Place) :
    Takes (Course.alternation g guide rule terms p) (parseAlternation g read rule terms p) := by
  refine (takes_candidates terms p).bind fun terms => ?_
  cases choose rule terms p with
  | ok term => exact heeds term p
  | error fault => exact takes_fail rule.name fault p

theorem takes_leave (rule : Rule) (e : ParseError) (p : Place) :
    Takes (Course.leave rule e p)
      (if rule.follow.contains p.lookahead then pure p else throw e) := by
  unfold Course.leave
  split
  · exact takes_pure p
  · exact takes_throw e

theorem takes_parseOption (heeds : Heeds guide read) (rule : Rule) (term : String) (p : Place) :
    Takes (Course.option g guide rule term p) (parseOption g read rule term p) := by
  refine (takes_resolve g term p).bind fun term => ?_
  rcases heeds.trial term p with ⟨next, scratch, course, run⟩ | ⟨e, scratch, course, run⟩
  · rw [course, run]
    exact (takes_modify _).bind fun _ => takes_pure next
  · rw [course, run]
    exact takes_leave rule e p

theorem takes_parseRounds (heeds : Heeds guide read) (rule term : Rule) (n : Nat) (p : Place) :
    Takes (Course.rounds guide rule term n p) (parseRounds read rule term n p) := by
  induction n generalizing p with
  | zero => exact takes_pure p
  | succ n ih =>
    unfold Course.rounds parseRounds
    split
    · exact takes_pure p
    · rcases heeds.trial term p with ⟨next, scratch, course, run⟩ | ⟨e, scratch, course, run⟩
      · rw [course, run]
        dsimp only
        split
        · exact takes_pure p
        · exact (takes_modify _).bind fun _ => ih next
      · rw [course, run]
        exact takes_leave rule e p

theorem heeds_parseBody (heeds : Heeds guide read) :
    Heeds (Course.body g guide) (parseBody g read) := by
  intro rule p
  unfold Course.body parseBody
  cases rule.body with
  | terminal | attrTerminal => exact heeds_parseTerminal rule p
  | concatenation terms | attrProduction terms => exact takes_parseSequence heeds terms p
  | alternation terms => exact takes_parseAlternation heeds rule terms p
  | repetition term =>
    exact (takes_resolve g term p).bind fun term => takes_parseRounds heeds rule term _ p
  | option term => exact takes_parseOption heeds rule term p

theorem heeds_descend (heeds : Heeds guide read) :
    Heeds (Course.descend g guide) (descend g read) := by
  intro rule p
  unfold Course.descend descend
  split
  · exact heeds_parseTerminal rule p
  · have whole := (takes_modify fun t => (t.enter rule.name rule.kind).2).bind fun _ =>
      (heeds_parseBody (g := g) heeds rule p).bind fun next =>
        (takes_modify fun t => t.close.2).bind fun _ => takes_pure next
    change Takes (Course.body g guide rule p >>= fun next => .ok next) _ at whole
    rwa [except_bind_ok] at whole

theorem heeds_descendTo {bottom : Guide} {bottom' : Reader} (heeds : Heeds bottom bottom')
    (depth : Nat) : Heeds (Course.descendTo g bottom depth) (descendTo g bottom' depth) := by
  induction depth with
  | zero => exact heeds
  | succ depth ih => exact heeds_descend ih

theorem heeds_parseRule (g : Grammar) (depth : Nat) :
    Heeds (Course.descendTo g Course.giveUp depth) (parseRule g depth) := by
  rw [← descendTo_giveUp]
  exact heeds_descendTo (fun rule p => takes_fail rule.name _ p) depth

/-- Two places, of which the second comes after tokens that a sequence of terms derives. -/
def Reaches (g : Grammar) (sequence : List String) (p next : Place) : Prop :=
  ∃ f used, g.Derives sequence f used ∧ p.Advances next used

/-- A guide goes where derivations lead. -/
def Honest (g : Grammar) (guide : Guide) : Prop :=
  ∀ (rule : Rule) (p next : Place), g.find? rule.name = some rule → guide rule p = .ok next →
    Reaches g [rule.name] p next

theorem honest_giveUp (g : Grammar) (depth : Nat) :
    Honest g (Course.descendTo g Course.giveUp depth) := by
  intro rule p next known done
  have course := heeds_parseRule g depth rule p {}
  cases run : parseRule g depth rule p {} with
  | ok place after =>
    rw [run, done] at course
    cases course
    obtain ⟨f, used, derived, advanced, _⟩ :=
      parseRule_sound g depth rule p next {} after known ParseTree.growing_empty run
    exact ⟨f, used, derived, advanced⟩
  | error e after =>
    rw [run, done] at course
    cases course

end Parsing

end AttrGrammar
