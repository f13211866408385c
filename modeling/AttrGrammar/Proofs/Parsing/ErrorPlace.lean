import AttrGrammar.Proofs.Parsing.Precise

/-!
A parse error stands at the first wrong token.

The tokens before an error begin something that the top rule derives. With the token at the error they
begin nothing that is derived: the parser would read that, but stops at this token whatever comes
after it.
-/

namespace AttrGrammar

namespace Parsing

open Place (Agrees)

variable {g : Grammar} {rank : String → Nat}

/-- What parsing with a rule comes to, whatever tree is built. -/
def parseCourse (g : Grammar) (rule : Rule) (tokens : List Token) : Except ParseError Place :=
  courseOf (g.parse rule tokens {})

/-- A descent that is deep enough takes the course of a parse. -/
theorem descendTo_parse (ranked : g.Ranked rank) {rule : Rule} (known : g.find? rule.name = some rule)
    {tokens : List Token} {depth : Nat}
    (deep : g.rules.length * tokens.length + rank rule.name < depth) :
    Course.descendTo g Course.giveUp depth rule (.start tokens) = parseCourse g rule tokens := by
  have cheap := Nat.lt_succ_of_lt (cost_lt ranked known tokens.length)
  have same := descendTo_eq ranked giveUp known (p := .start tokens) cheap deep {}
  rw [descendTo_giveUp] at same
  rw [parseCourse, Grammar.parse, EStateM.run, same]
  exact (heeds_parseRule g depth rule (.start tokens) {}).symm

section Runs

variable (predictive : g.Predictive rank) (productive : g.Productive) {rule : Rule}
  (found : g.find? g.top = some rule)

include predictive found

include productive in
/-- Any two lists of tokens are parsed by one precise course. -/
theorem exists_precise (tokens others : List Token) :
    ∃ guide, Precise g (· = [g.top]) guide ∧ guide (.start tokens) = parseCourse g rule tokens ∧
      guide (.start others) = parseCourse g rule others := by
  have named := g.find?_name found
  have known : g.find? rule.name = some rule := named ▸ found
  obtain ⟨depth, deep, deep'⟩ : ∃ depth, g.rules.length * tokens.length + rank rule.name < depth ∧
      g.rules.length * others.length + rank rule.name < depth :=
    ⟨_, Nat.lt_succ_of_le (Nat.le_max_left _ _), Nat.lt_succ_of_le (Nat.le_max_right _ _)⟩
  have precise := sure_descendTo predictive productive depth rule known
  rw [named] at precise
  exact ⟨_, precise, descendTo_parse predictive.ranked known deep,
    descendTo_parse predictive.ranked known deep'⟩

/-- What the top rule derives is read to its end. -/
theorem parseCourse_of_derives (ends : endOfInput ∈ rule.follow) {tokens : List Token}
    {f : Forest Label} (derives : g.Derives [g.top] f tokens) :
    ∃ place, parseCourse g rule tokens = .ok place ∧ place.rest = [] := by
  obtain ⟨tree, built⟩ := (predictive.buildTree_iff found ends tokens).2 ⟨f, derives⟩
  obtain ⟨top, place, known, parsed, rest⟩ := Grammar.buildTree_eq_ok built
  cases found.symm.trans known
  refine ⟨place, ?_, rest⟩
  rw [parseCourse, parsed]
  rfl

include productive

/-- The tokens up to the one before which a parse stops, with an error or without one, begin nothing
that the top rule derives: it would stop there whatever came after them. -/
theorem not_derives_of_stops (ends : endOfInput ∈ rule.follow) {tokens : List Token} {k : Nat}
    (inside : k < tokens.length)
    (stops : parseCourse g rule tokens = .ok ((Place.start tokens).skip k) ∨
      ∃ e, parseCourse g rule tokens = .error e ∧ e.index = k)
    (f : Forest Label) (more : List Token) :
    ¬ g.Derives [g.top] f (tokens.take (k + 1) ++ more) := by
  intro derives
  have counted : (tokens.take (k + 1)).length = k + 1 := List.length_take_of_le inside
  have agrees : Agrees (k + 1) (.start tokens) (.start (tokens.take (k + 1) ++ more)) :=
    ⟨rfl, (List.take_left' counted).symm⟩
  obtain ⟨guide, precise, here, there⟩ :=
    exists_precise predictive productive found tokens (tokens.take (k + 1) ++ more)
  obtain ⟨place, read, ended⟩ := parseCourse_of_derives predictive found ends derives
  rcases stops with done | ⟨e, failed, index⟩
  · have again := precise.ok (here.trans done) agrees
    cases (there.trans read).symm.trans again
    have short : (tokens.take (k + 1) ++ more).length ≤ k := List.drop_eq_nil_iff.1 ended
    rw [List.length_append, counted] at short
    omega
  · have again := precise.error (here.trans failed) (index.trans (Nat.zero_add k).symm) agrees
    cases (there.trans read).symm.trans again

/-- Where parsing fails: the tokens before the error begin what is derived, and the error says that the
input has ended just if no token stands there. -/
theorem viable_of_error {tokens : List Token} {e : ParseError} {after : ParseTree}
    (failed : g.parse rule tokens {} = .error e after) :
    e.index ≤ tokens.length ∧ (∃ f more, g.Derives [g.top] f (tokens.take e.index ++ more)) ∧
      (e.index = tokens.length ↔ e.isExhausted = true) := by
  have known : g.find? rule.name = some rule := g.find?_name found ▸ found
  obtain ⟨guide, precise, here, -⟩ := exists_precise predictive productive found tokens tokens
  rw [parseCourse, failed] at here
  obtain ⟨k, within, index, ⟨_, f, more, rfl, derives⟩, ended⟩ := precise.stops here
  have index : e.index = k := index.trans (Nat.zero_add k)
  subst index
  have cheap := Nat.lt_succ_of_lt (cost_lt predictive.ranked known tokens.length)
  have real := (parseRule_fault predictive.ranked known (p := .start tokens) cheap failed).1
  exact ⟨within, ⟨f, more, derives⟩, (ended real).symm⟩

/-- Where parsing is done: the tokens that were read are derived, and the place is after them. -/
theorem derives_of_ok {tokens : List Token} {place : Place} {tree : ParseTree}
    (parsed : g.parse rule tokens {} = .ok place tree) :
    ∃ k, place = (Place.start tokens).skip k ∧ k ≤ tokens.length ∧
      ∃ f, g.Derives [g.top] f (tokens.take k) := by
  obtain ⟨guide, precise, here, -⟩ := exists_precise predictive productive found tokens tokens
  rw [parseCourse, parsed] at here
  obtain ⟨k, within, at_, _, f, rfl, derives⟩ := precise.reaches here
  exact ⟨k, at_, within, f, derives⟩

end Runs

end Parsing

namespace Grammar

open Parsing

/-- A parse error stands at the first wrong token, in a grammar where one token of lookahead is enough,
no rule is left recursive and every rule derives something. The tokens before it begin what the top
rule derives, with the token at it they do not, and it says that the input has ended just if there is
no such token. -/
theorem buildTree_error (calls : List Draft.Call) {title : String} {top : Option String} {g : Grammar}
    (built : (Draft.after calls).build title top = .ok g)
    (straight : ∀ name, ¬ LeftRecursive g.rules name) (oneToken : g.OneToken)
    (productive : g.Productive) {tokens : List Token} {e : ParseError}
    (failed : g.buildTree tokens = .error e) :
    e.index ≤ tokens.length ∧
      (∃ f more, g.Derives [g.top] f (tokens.take e.index ++ more)) ∧
      (e.index < tokens.length → ∀ f more, ¬ g.Derives [g.top] f (tokens.take (e.index + 1) ++ more)) ∧
      (e.index = tokens.length ↔ e.isExhausted = true) := by
  have solved := Draft.build_solved (Draft.after_consistent calls) built
  have predictive := solved.predictive straight oneToken
  obtain ⟨rule, found⟩ := solved.exists_rule solved.top
  have ends : endOfInput ∈ g.followSet g.top := solved.follow.1.top (Draft.definesRule_iff.2 solved.top)
  rw [followSet_eq found] at ends
  rw [buildTree, found] at failed
  dsimp only at failed
  cases parsed : g.parse rule tokens {} with
  | error e' after =>
    rw [parsed] at failed
    cases failed
    obtain ⟨within, viable, ended⟩ := viable_of_error predictive productive found parsed
    refine ⟨within, viable, fun inside => ?_, ended⟩
    refine not_derives_of_stops predictive productive found ends inside (Or.inr ⟨e', ?_, rfl⟩)
    rw [parseCourse, parsed]
    rfl
  | ok place tree =>
    rw [parsed] at failed
    obtain ⟨k, rfl, within, f, derives⟩ := derives_of_ok predictive productive found parsed
    have index : ((Place.start tokens).skip k).index = k := Nat.zero_add k
    dsimp only at failed
    cases left : ((Place.start tokens).skip k).rest with
    | nil =>
      rw [left] at failed
      cases failed
    | cons extra rest =>
      rw [left] at failed
      cases failed
      have inside : k < tokens.length := by
        refine Nat.lt_of_not_le fun short => ?_
        cases left.symm.trans (List.drop_eq_nil_of_le short)
      dsimp only
      rw [index]
      refine ⟨within, ⟨f, [], by rwa [List.append_nil]⟩, fun _ => ?_,
        iff_of_false (Nat.ne_of_lt inside) Bool.false_ne_true⟩
      refine not_derives_of_stops predictive productive found ends inside (Or.inl ?_)
      rw [parseCourse, parsed]
      rfl

/-- How far down the shortest derivations of the rules of lists go. -/
def listHeight (name : String) : Nat :=
  if name = "rest" then 2 else if name = "list" then 1 else 0

/-- The second of two commas is wrong. -/
theorem buildTree_error_list :
    ∃ g e, (Draft.after listCalls).build "list" (some "list") = .ok g ∧
      (∀ name, ¬ LeftRecursive g.rules name) ∧ g.OneToken ∧ g.Productive ∧
      g.buildTree [⟨"item", "1", {}⟩, ⟨"comma", ",", {}⟩, ⟨"comma", ",", {}⟩] = .error e ∧
      e.index = 2 ∧ ∀ f more, ¬ g.Derives [g.top] f
        ([⟨"item", "1", {}⟩, ⟨"comma", ",", {}⟩, ⟨"comma", ",", {}⟩] ++ more) := by
  obtain ⟨g, built, _, predictive, _⟩ := exists_list
  have checked : (match (Draft.after listCalls).build "list" (some "list") with
      | .ok g => g.rules.all (fun rule => thrives listHeight rule rule.body) &&
        (match g.buildTree [⟨"item", "1", {}⟩, ⟨"comma", ",", {}⟩, ⟨"comma", ",", {}⟩] with
          | .error e => e.index == 2
          | .ok _ => false)
      | .error _ => false) = true := by decide +kernel
  rw [built] at checked
  simp only [Bool.and_eq_true, List.all_eq_true] at checked
  obtain ⟨thriving, fails⟩ := checked
  have productive := productive_of_thrives predictive.toAnalysed listHeight thriving
  cases failed : g.buildTree [⟨"item", "1", {}⟩, ⟨"comma", ",", {}⟩, ⟨"comma", ",", {}⟩] with
  | ok tree =>
    rw [failed] at fails
    cases fails
  | error e =>
    rw [failed, beq_iff_eq] at fails
    obtain ⟨_, _, wrong, _⟩ := buildTree_error listCalls built predictive.straight predictive.toOneToken
      productive failed
    rw [fails] at wrong
    exact ⟨g, e, built, predictive.straight, predictive.toOneToken, productive, failed, fails,
      wrong (by decide)⟩

end Grammar

end AttrGrammar
