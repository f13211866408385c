import AttrGrammar.Pattern.Syntax
import AttrGrammar.Proofs.Pattern.Written
import Mathlib.Data.List.GetD

/-!
Texts in groups.

The tokens of a text before a closing parenthesis are those of the text alone, and then the
parenthesis is a token; but where the text ends in a comment, the comment takes the parenthesis, and
where the text alone has no further token, the parenthesis can complete one. What the tokens do to
the group that is read does not depend on the groups around it, unless they close it.
-/

namespace AttrGrammar.Pattern.Syntax

open Reader

theorem lexFor_congr {fuel fuel' : Nat} {sc : Scope} {text : List Char}
    (enough : text.length < fuel) (enough' : text.length < fuel') :
    lexFor fuel sc text = lexFor fuel' sc text := by
  induction fuel generalizing fuel' sc text with
  | zero => exact absurd enough (Nat.not_lt_zero _)
  | succ fuel ih =>
    obtain ⟨fuel', rfl⟩ := Nat.exists_eq_succ_of_ne_zero (Nat.ne_zero_of_lt enough')
    have length := skip_length_le sc.flags text
    rw [lexFor, lexFor]
    cases here : skip sc.flags text with
    | nil => rfl
    | cons c rest =>
      rw [here] at length
      cases read : tokenOf sc.flags c rest with
      | error e => simp only [read]
      | ok found =>
        obtain ⟨t, left⟩ := found
        have short := tokenOf_length_le read
        rw [List.length_cons] at length
        have left_lt : left.length < fuel := by omega
        have left_lt' : left.length < fuel' := by omega
        simp only [read]
        rw [ih left_lt left_lt']

section Equations

variable {sc : Scope} {text rest left : List Char} {c : Char} {t : Token}

theorem lex_of_blank (blank : skip sc.flags text = []) :
    lex sc text = ⟨[], sc, .ok (isOpen sc.flags text)⟩ := by
  rw [lex, lexFor, blank]

theorem lex_of_error {e : PatternError} (here : skip sc.flags text = c :: rest)
    (failed : tokenOf sc.flags c rest = .error e) : lex sc text = ⟨[], sc, .error e⟩ := by
  rw [lex, lexFor, here]
  simp only [failed]

theorem lex_of_token (here : skip sc.flags text = c :: rest)
    (read : tokenOf sc.flags c rest = .ok (t, left)) :
    lex sc text = (lex (sc.after t) left).cons t := by
  have length := skip_length_le sc.flags text
  have short := tokenOf_length_le read
  rw [here, List.length_cons] at length
  rw [lex, lexFor, here]
  simp only [read]
  exact congrArg (Lexed.cons t) (lexFor_congr (by omega) (by omega))

theorem lex_nil : lex sc [] = ⟨[], sc, .ok false⟩ := by
  have blank : skip sc.flags [] = [] := List.eq_nil_of_length_eq_zero
    (Nat.le_zero.1 (skip_length_le sc.flags []))
  rw [lex_of_blank blank]
  unfold isOpen
  rw [endsInComment, Bool.and_false]

end Equations

/-- What holds at the end of a text and where there is no token, and holds before a token if it holds
behind it, holds of all texts. -/
theorem lex_induction {motive : Scope → List Char → Prop}
    (blank : ∀ sc text, skip sc.flags text = [] → motive sc text)
    (error : ∀ sc text c rest e, skip sc.flags text = c :: rest →
      tokenOf sc.flags c rest = .error e → motive sc text)
    (token : ∀ sc text c rest t left, skip sc.flags text = c :: rest →
      tokenOf sc.flags c rest = .ok (t, left) → motive (sc.after t) left → motive sc text)
    (sc : Scope) (text : List Char) : motive sc text := by
  induction length : text.length using Nat.strongRecOn generalizing sc text with
  | ind n ih =>
    have shorter := skip_length_le sc.flags text
    cases here : skip sc.flags text with
    | nil => exact blank sc text here
    | cons c rest =>
      rw [here, List.length_cons] at shorter
      cases read : tokenOf sc.flags c rest with
      | error e => exact error sc text c rest e here read
      | ok found =>
        have short := tokenOf_length_le read
        exact token sc text c rest found.1 found.2 here read (ih _ (by omega) _ _ rfl)

/-- More tokens before some. -/
def Lexed.prepend (ts : List Token) (l : Lexed) : Lexed := { l with tokens := ts ++ l.tokens }

theorem lex_paren (sc : Scope) (more : List Char) :
    lex sc (')' :: more) = (lex (sc.after .closes) more).cons .closes :=
  lex_of_token (skip_paren sc.flags more) rfl

/-- The text that is left has no comment at its end if the tokens end outside of comments. -/
theorem isOpen_of_stop {sc : Scope} {text : List Char} (stop : (lex sc text).stop = .ok false) :
    isOpen sc.flags text = false := by
  by_cases blank : skip sc.flags text = []
  · rw [lex_of_blank blank] at stop
    exact Except.ok.inj stop
  · exact isOpen_of_skip blank

/-- A text that does not end in a comment is read in a group as it is alone. -/
theorem lex_append_of_closed {sc : Scope} {text : List Char} (stop : (lex sc text).stop = .ok false)
    (more : List Char) : lex sc (text ++ ')' :: more) =
      (lex (lex sc text).scope (')' :: more)).prepend (lex sc text).tokens := by
  induction sc, text using lex_induction with
  | blank sc text blank =>
    have closed := isOpen_of_stop stop
    have same : skip sc.flags (text ++ ')' :: more) = ')' :: more := by
      rw [skip_append_of_closed blank closed, skip_paren]
    rw [lex_of_blank blank, lex_of_token same rfl, lex_paren]
    rfl
  | error sc text c rest e here failed =>
    rw [lex_of_error here failed] at stop
    cases stop
  | token sc text c rest t left here read ih =>
    rw [lex_of_token here read] at stop ⊢
    have same : skip sc.flags (text ++ ')' :: more) = c :: (rest ++ ')' :: more) :=
      skip_append_cons here _
    rw [lex_of_token same (tokenOf_append read fun _ => isOpen_of_stop stop), ih stop]
    rfl

/-- A comment at the end of a text takes a closing parenthesis and what is behind it. -/
theorem lex_append_of_open {sc : Scope} {text : List Char} (stop : (lex sc text).stop = .ok true)
    {more : List Char} (line : '\n' ∉ more) :
    (lex sc (text ++ ')' :: more)).tokens = (lex sc text).tokens := by
  have behind : '\n' ∉ ')' :: more := by
    rw [List.mem_cons, not_or]
    exact ⟨by decide, line⟩
  induction sc, text using lex_induction with
  | blank sc text blank =>
    rw [lex_of_blank blank] at stop
    have hanging : isOpen sc.flags text = true := Except.ok.inj stop
    rw [lex_of_blank blank, lex_of_blank (skip_append_of_open blank hanging behind)]
  | error sc text c rest e here failed =>
    rw [lex_of_error here failed] at stop
    cases stop
  | token sc text c rest t left here read ih =>
    rw [lex_of_token here read] at stop ⊢
    have same : skip sc.flags (text ++ ')' :: more) = c :: (rest ++ ')' :: more) :=
      skip_append_cons here _
    rw [lex_of_token same (tokenOf_append read fun feed => absurd feed line)]
    exact congrArg (t :: ·) (ih stop)

/-- Where a text has no further token, a closing parenthesis makes none that ends a group, and
nothing comes behind the one it makes. -/
theorem lex_append_of_error {sc : Scope} {text : List Char} {e : PatternError}
    (stop : (lex sc text).stop = .error e) {b : Bool}
    (read : (lex sc (text ++ [')'])).stop = .ok b) :
    ∃ t, t ≠ .closes ∧ (lex sc (text ++ [')'])).tokens = (lex sc text).tokens ++ [t] := by
  induction sc, text using lex_induction with
  | blank sc text blank =>
    rw [lex_of_blank blank] at stop
    cases stop
  | error sc text c rest e here failed =>
    have same : skip sc.flags (text ++ [')']) = c :: (rest ++ [')']) := skip_append_cons here _
    rw [lex_of_error here failed]
    cases made : tokenOf sc.flags c (rest ++ [')']) with
    | error e' =>
      rw [lex_of_error same made] at read
      cases read
    | ok found =>
      obtain ⟨t, left⟩ := found
      obtain rfl := tokenOf_fails failed made
      have other : c ≠ ')' := by
        rintro rfl
        cases failed
      refine ⟨t, endsNone_tokenOf other _ t [] made, ?_⟩
      rw [lex_of_token same made, lex_nil]
      rfl
  | token sc text c rest t left here found ih =>
    have same : skip sc.flags (text ++ [')']) = c :: (rest ++ [')']) := skip_append_cons here _
    have onward := lex_of_token same (tokenOf_append found fun feed => absurd feed List.not_mem_nil)
    rw [lex_of_token here found] at stop ⊢
    rw [onward] at read ⊢
    obtain ⟨last, other, tokens⟩ := ih stop read
    exact ⟨last, other, congrArg (t :: ·) tokens⟩

/-- Whether two places have the same flags and leave the same flags behind each group; outside of
all groups there are none. -/
structure Scope.Like (sc sc' : Scope) : Prop where
  flags : sc.flags = sc'.flags
  saved : ∀ i, sc.saved.getD i {} = sc'.saved.getD i {}

namespace Scope.Like

variable {sc sc' : Scope}

theorem refl (sc : Scope) : sc.Like sc := ⟨rfl, fun _ => rfl⟩

theorem symm (like : sc.Like sc') : sc'.Like sc := ⟨like.flags.symm, fun i => (like.saved i).symm⟩

theorem trans {sc'' : Scope} (first : sc.Like sc') (second : sc'.Like sc'') : sc.Like sc'' :=
  ⟨first.flags.trans second.flags, fun i => (first.saved i).trans (second.saved i)⟩

theorem getD_tail (saved : List Flags) (i : Nat) :
    saved.tail.getD i {} = saved.getD (i + 1) {} := by
  cases saved with
  | nil => rfl
  | cons fl saved => rfl

theorem headD_eq (saved : List Flags) : saved.headD {} = saved.getD 0 {} := by
  cases saved with
  | nil => rfl
  | cons fl saved => rfl

theorem after (like : sc.Like sc') (t : Token) : (sc.after t).Like (sc'.after t) := by
  cases t with
  | part | bar | repeats => exact like
  | flags fl => exact ⟨rfl, like.saved⟩
  | opens o fl =>
    refine ⟨rfl, fun i => ?_⟩
    cases i with
    | zero => exact like.flags
    | succ i => exact like.saved i
  | closes =>
    refine ⟨?_, fun i => ?_⟩
    · exact (headD_eq _).trans ((like.saved 0).trans (headD_eq _).symm)
    · exact (getD_tail _ i).trans ((like.saved (i + 1)).trans (getD_tail _ i).symm)

/-- What a text is read as depends on the flags only. -/
theorem lex (like : sc.Like sc') (text : List Char) :
    (lex sc text).tokens = (lex sc' text).tokens ∧ (lex sc text).stop = (lex sc' text).stop ∧
      (lex sc text).scope.Like (lex sc' text).scope := by
  induction sc, text using lex_induction generalizing sc' with
  | blank sc text blank =>
    rw [lex_of_blank blank, lex_of_blank (like.flags ▸ blank), like.flags]
    exact ⟨rfl, rfl, like⟩
  | error sc text c rest e here failed =>
    rw [lex_of_error here failed, lex_of_error (like.flags ▸ here) (like.flags ▸ failed)]
    exact ⟨rfl, rfl, like⟩
  | token sc text c rest t left here read ih =>
    have there : lex sc' text = (lex (sc'.after t) left).cons t :=
      lex_of_token (like.flags ▸ here) (like.flags ▸ read)
    rw [lex_of_token here read, there]
    obtain ⟨tokens, stop, scope⟩ := ih (like.after t)
    exact ⟨congrArg (t :: ·) tokens, stop, scope⟩

end Scope.Like

theorem scope_lex (sc : Scope) (text : List Char) :
    (lex sc text).scope = (lex sc text).tokens.foldl Scope.after sc := by
  induction sc, text using lex_induction with
  | blank sc text blank =>
    rw [lex_of_blank blank]
    rfl
  | error sc text c rest e here failed =>
    rw [lex_of_error here failed]
    rfl
  | token sc text c rest t left here read ih =>
    rw [lex_of_token here read]
    exact ih

namespace Stack

theorem run_nil (s : Stack) : s.run [] = .ok s := rfl

theorem run_cons (s : Stack) (t : Token) (ts : List Token) :
    s.run (t :: ts) = s.step t >>= (run · ts) := List.foldlM_cons

theorem run_append (s : Stack) (ts us : List Token) :
    s.run (ts ++ us) = s.run ts >>= (run · us) := List.foldlM_append

theorem run_cons_of_ok {s s' : Stack} {t : Token} (stepped : s.step t = .ok s') (ts : List Token) :
    s.run (t :: ts) = s'.run ts := by
  rw [run_cons, stepped]
  rfl

theorem run_append_of_ok {s s' : Stack} {ts : List Token} (ran : s.run ts = .ok s')
    (us : List Token) : s.run (ts ++ us) = s'.run us := by
  rw [run_append, ran]
  rfl

/-- The last token meets the stack that those before it leave. -/
theorem exists_step_of_run {s s' : Stack} {ts : List Token} {t : Token}
    (ran : s.run (ts ++ [t]) = .ok s') : ∃ mid, s.run ts = .ok mid ∧ mid.step t = .ok s' := by
  rw [run_append] at ran
  cases first : s.run ts with
  | error e =>
    rw [first] at ran
    cases ran
  | ok mid =>
    rw [first] at ran
    refine ⟨mid, rfl, ?_⟩
    cases last : mid.step t with
    | error e =>
      have failed : mid.run [t] = .error e := by
        rw [run_cons, last]
        rfl
      cases failed.symm.trans ran
    | ok s'' => exact congrArg Except.ok (Except.ok.inj ((run_cons_of_ok last []).symm.trans ran))

/-- More groups around those of a stack. -/
def within (s : Stack) (around : List Frame) : Stack := { s with below := s.below ++ around }

/-- What a token does to a stack it does inside of more groups; alone it may also close a group that
was not opened. -/
theorem step_within (s : Stack) (around : List Frame) (t : Token) :
    s.step t = .error .unopenedGroup ∨ (s.within around).step t = (s.step t).map (within · around) := by
  obtain ⟨top, below⟩ := s
  cases t with
  | part | flags | bar | opens => exact .inr rfl
  | closes =>
    cases below with
    | nil => exact .inl rfl
    | cons next below => exact .inr rfl
  | repeats low high greedy =>
    right
    simp only [step, within]
    cases top.items with
    | nil => rfl
    | cons i items =>
      cases i with
      | part p => rfl
      | flags => rfl

theorem run_within (s : Stack) (around : List Frame) (ts : List Token) :
    s.run ts = .error .unopenedGroup ∨ (s.within around).run ts = (s.run ts).map (within · around) := by
  induction ts generalizing s with
  | nil => exact .inr rfl
  | cons t ts ih =>
    rw [run_cons, run_cons]
    rcases s.step_within around t with unopened | same
    · rw [unopened]
      exact .inl rfl
    · rw [same]
      cases s.step t with
      | error e => exact .inr rfl
      | ok s' => exact ih s'

/-- As many groups are open as there are flags to go back to. -/
theorem run_length {s s' : Stack} {sc : Scope} {ts : List Token} (ran : s.run ts = .ok s')
    (same : s.below.length = sc.saved.length) :
    s'.below.length = (ts.foldl Scope.after sc).saved.length := by
  induction ts generalizing s sc with
  | nil =>
    cases ran
    exact same
  | cons t ts ih =>
    rw [run_cons] at ran
    cases stepped : s.step t with
    | error e =>
      rw [stepped] at ran
      cases ran
    | ok next =>
      rw [stepped] at ran
      refine ih ran ?_
      obtain ⟨top, below⟩ := s
      cases t with
      | part | flags | bar =>
        cases stepped
        exact same
      | opens =>
        cases stepped
        exact congrArg (· + 1) same
      | closes =>
        cases below with
        | nil => cases stepped
        | cons f below =>
          cases stepped
          change below.length = sc.saved.tail.length
          rw [List.length_tail, ← same]
          rfl
      | repeats low high greedy =>
        simp only [step] at stepped
        split at stepped
        · cases stepped
          exact same
        · cases stepped

/-- Only the end of a group makes fewer groups open. -/
theorem below_ne_nil {s s' : Stack} {t : Token} (stepped : s.step t = .ok s') (other : t ≠ .closes)
    (inside : s.below ≠ []) : s'.below ≠ [] := by
  cases t with
  | part | flags | bar =>
    cases stepped
    exact inside
  | opens =>
    cases stepped
    exact List.cons_ne_nil _ _
  | closes => exact absurd rfl other
  | repeats low high greedy =>
    simp only [step] at stepped
    split at stepped
    · cases stepped
      exact inside
    · cases stepped

end Stack

end AttrGrammar.Pattern.Syntax
