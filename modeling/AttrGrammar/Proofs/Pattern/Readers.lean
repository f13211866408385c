import AttrGrammar.Pattern.Reader
import Mathlib.Order.Basic
import Mathlib.Tactic.SplitIfs

/-!
What readers do inside a group.

A pattern in a group is followed by the closing parenthesis of that group. What a reader reads there
does not change because of it: no reader takes the parenthesis if it can read without, and a reader
that fails without takes nothing more than the parenthesis. Readers that only pass over characters
may leave nothing before the parenthesis, so they keep this law together with the reader behind them.
-/

namespace AttrGrammar.Pattern.Syntax

/-- What is left where the blanks of a text end is left with more text behind it. -/
theorem skipBlank_append {inComment : Bool} {text : List Char}
    (filled : skipBlank inComment text ≠ []) (more : List Char) :
    skipBlank inComment (text ++ more) = skipBlank inComment text ++ more := by
  fun_induction skipBlank inComment text with
  | case1 => exact absurd rfl filled
  | case2 c rest ih => rw [List.cons_append, skipBlank, if_pos rfl, ih filled]
  | case3 inComment c rest text space ih =>
    rw [List.cons_append, skipBlank, if_neg text, if_pos space, ih filled]
  | case4 inComment c rest text dense hash ih =>
    rw [List.cons_append, skipBlank, if_neg text, if_neg dense, if_pos hash, ih filled]
  | case5 inComment c rest text dense plain =>
    rw [List.cons_append, skipBlank, if_neg text, if_neg dense, if_neg plain]

/-- Where a text has blanks only, the text behind it is what is left, or the comment at the end goes
on. -/
theorem skipBlank_append_of_nil {inComment : Bool} {text : List Char}
    (blank : skipBlank inComment text = []) (more : List Char) :
    skipBlank inComment (text ++ more) = skipBlank (endsInComment inComment text) more := by
  fun_induction skipBlank inComment text with
  | case1 => rw [List.nil_append, endsInComment]
  | case2 c rest ih =>
    rw [List.cons_append, skipBlank, if_pos rfl, ih blank, endsInComment, if_pos rfl]
  | case3 inComment c rest text space ih =>
    rw [List.cons_append, skipBlank, if_neg text, if_pos space, ih blank, endsInComment,
      if_neg text, if_pos space]
  | case4 inComment c rest text dense hash ih =>
    rw [List.cons_append, skipBlank, if_neg text, if_neg dense, if_pos hash, ih blank,
      endsInComment, if_neg text, if_neg dense, if_pos hash]
  | case5 => cases blank

theorem skipBlank_length_le (inComment : Bool) (text : List Char) :
    (skipBlank inComment text).length ≤ text.length := by
  fun_induction skipBlank inComment text with
  | case1 => exact Nat.le_refl 0
  | case2 c rest ih => exact Nat.le_succ_of_le ih
  | case3 inComment c rest text space ih => exact Nat.le_succ_of_le ih
  | case4 inComment c rest text dense hash ih => exact Nat.le_succ_of_le ih
  | case5 => exact Nat.le_refl _

/-- A comment ends at a line feed only. -/
theorem skipBlank_of_comment {text : List Char} (line : '\n' ∉ text) :
    skipBlank true text = [] := by
  induction text with
  | nil => rfl
  | cons c text ih =>
    have same : (c != '\n') = true := bne_iff_ne.2 fun feed => line (feed ▸ List.mem_cons_self)
    rw [skipBlank, if_pos rfl, same, ih fun member => line (List.mem_cons_of_mem c member)]

/-- What is left of a text with something left does not end in a comment. -/
theorem endsInComment_of_skipBlank {inComment : Bool} {text : List Char}
    (filled : skipBlank inComment text ≠ []) : endsInComment inComment text = false := by
  fun_induction skipBlank inComment text with
  | case1 => exact absurd rfl filled
  | case2 c rest ih => rw [endsInComment, if_pos rfl, ih filled]
  | case3 inComment c rest text space ih =>
    rw [endsInComment, if_neg text, if_pos space, ih filled]
  | case4 inComment c rest text dense hash ih =>
    rw [endsInComment, if_neg text, if_neg dense, if_pos hash, ih filled]
  | case5 inComment c rest text dense plain =>
    rw [endsInComment, if_neg text, if_neg dense, if_neg plain]

section Skip

variable {fl : Flags} {text : List Char}

theorem skip_append (filled : skip fl text ≠ []) (more : List Char) :
    skip fl (text ++ more) = skip fl text ++ more := by
  unfold skip at filled ⊢
  split_ifs at filled ⊢ with spaced
  · exact skipBlank_append filled more
  · rfl

theorem skip_append_cons {c : Char} {rest : List Char} (here : skip fl text = c :: rest)
    (more : List Char) : skip fl (text ++ more) = c :: (rest ++ more) := by
  rw [skip_append (here ▸ List.cons_ne_nil _ _), here, List.cons_append]

/-- Behind a text without a comment at its end, blanks count again from the start. -/
theorem skip_append_of_closed (blank : skip fl text = []) (closed : isOpen fl text = false)
    (more : List Char) : skip fl (text ++ more) = skip fl more := by
  unfold isOpen at closed
  unfold skip at blank ⊢
  split_ifs at blank ⊢ with spaced
  · rw [spaced, Bool.true_and] at closed
    rw [skipBlank_append_of_nil blank, closed]
  · rw [blank, List.nil_append]

/-- A comment at the end of a text takes what comes behind it on its line. -/
theorem skip_append_of_open (blank : skip fl text = []) (hanging : isOpen fl text = true)
    {more : List Char} (line : '\n' ∉ more) : skip fl (text ++ more) = [] := by
  obtain ⟨spaced, comment⟩ := Bool.and_eq_true_iff.1 hanging
  unfold skip at blank ⊢
  rw [if_pos spaced] at blank ⊢
  rw [skipBlank_append_of_nil blank, comment, skipBlank_of_comment line]

theorem skip_length_le (fl : Flags) (text : List Char) : (skip fl text).length ≤ text.length := by
  unfold skip
  split_ifs
  · exact skipBlank_length_le false text
  · exact Nat.le_refl _

theorem isOpen_of_skip (filled : skip fl text ≠ []) : isOpen fl text = false := by
  unfold isOpen
  unfold skip at filled
  split_ifs at filled with spaced
  · rw [endsInComment_of_skipBlank filled, Bool.and_false]
  · rw [Bool.eq_false_iff.2 spaced, Bool.false_and]

theorem skip_paren (fl : Flags) (more : List Char) : skip fl (')' :: more) = ')' :: more := by
  have dense : Text.isSpace ')' = false := by decide +kernel
  have plain : (')' == '#') = false := by decide
  unfold skip
  split_ifs
  · rw [skipBlank, if_neg Bool.false_ne_true, if_neg (Bool.eq_false_iff.1 dense),
      if_neg (Bool.eq_false_iff.1 plain)]
  · rfl

/-- Of blanks and the parenthesis behind them the parenthesis is left, unless a comment takes it. -/
theorem skip_append_paren (blank : skip fl text = []) :
    skip fl (text ++ [')']) = [] ∨ skip fl (text ++ [')']) = [')'] := by
  cases hanging : isOpen fl text with
  | true => exact .inl (skip_append_of_open blank hanging (by decide))
  | false => exact .inr ((skip_append_of_closed blank hanging _).trans (skip_paren fl []))

end Skip

section Gather

variable {fl : Flags} {wanted : Char → Bool}

theorem gather_length_le (inComment : Bool) (text : List Char) :
    (gather fl wanted inComment text).2.length ≤ text.length := by
  fun_induction gather fl wanted inComment text with
  | case1 => exact Nat.le_refl 0
  | case2 c rest ih => exact Nat.le_succ_of_le ih
  | case3 inComment c rest text space ih => exact Nat.le_succ_of_le ih
  | case4 inComment c rest text dense hash ih => exact Nat.le_succ_of_le ih
  | case5 inComment c rest text dense plain want taken left same ih =>
    rw [same] at ih
    exact Nat.le_succ_of_le ih
  | case6 => exact Nat.le_refl _

/-- What is not wanted stays, whatever comes behind it. -/
theorem gather_append {inComment : Bool} {text : List Char}
    (filled : (gather fl wanted inComment text).2 ≠ []) (more : List Char) :
    gather fl wanted inComment (text ++ more) =
      ((gather fl wanted inComment text).1, (gather fl wanted inComment text).2 ++ more) := by
  fun_induction gather fl wanted inComment text with
  | case1 => exact absurd rfl filled
  | case2 c rest ih => rw [List.cons_append, gather, if_pos rfl, ih filled]
  | case3 inComment c rest text space ih =>
    rw [List.cons_append, gather, if_neg text, if_pos space, ih filled]
  | case4 inComment c rest text dense hash ih =>
    rw [List.cons_append, gather, if_neg text, if_neg dense, if_pos hash, ih filled]
  | case5 inComment c rest text dense plain want taken left same ih =>
    rw [same] at ih
    rw [List.cons_append, gather, if_neg text, if_neg dense, if_neg plain, if_pos want, ih filled]
  | case6 inComment c rest text dense plain other =>
    rw [List.cons_append, gather, if_neg text, if_neg dense, if_neg plain, if_neg other]

/-- If all of a text is wanted, no more than what comes behind it can be left. -/
theorem gather_append_length_le {inComment : Bool} {text : List Char}
    (all : (gather fl wanted inComment text).2 = []) (more : List Char) :
    (gather fl wanted inComment (text ++ more)).2.length ≤ more.length := by
  fun_induction gather fl wanted inComment text with
  | case1 inComment => exact gather_length_le inComment more
  | case2 c rest ih =>
    rw [List.cons_append, gather, if_pos rfl]
    exact ih all
  | case3 inComment c rest text space ih =>
    rw [List.cons_append, gather, if_neg text, if_pos space]
    exact ih all
  | case4 inComment c rest text dense hash ih =>
    rw [List.cons_append, gather, if_neg text, if_neg dense, if_pos hash]
    exact ih all
  | case5 inComment c rest text dense plain want taken left same ih =>
    rw [same] at ih
    rw [List.cons_append, gather, if_neg text, if_neg dense, if_neg plain, if_pos want]
    exact ih all
  | case6 => cases all

end Gather

namespace Reader

variable {α β σ : Type}

theorem bind_eq_ok {f : Reader α} {g : α → Reader β} {text left : List Char} {b : β} :
    (f >>= g) text = .ok (b, left) ↔ ∃ a mid, f text = .ok (a, mid) ∧ g a mid = .ok (b, left) := by
  change (f text >>= fun found => g found.1 found.2) = _ ↔ _
  cases f text with
  | error e => exact ⟨nofun, nofun⟩
  | ok found =>
    refine ⟨fun read => ⟨found.1, found.2, rfl, read⟩, ?_⟩
    rintro ⟨a, mid, ⟨⟩, read⟩
    exact read

theorem bind_of_ok {f : Reader α} {g : α → Reader β} {text mid : List Char} {a : α}
    (read : f text = .ok (a, mid)) : (f >>= g) text = g a mid := by
  change (f text >>= fun found => g found.1 found.2) = _
  rw [read]
  rfl

/-- Whether a reader does the same before a closing parenthesis, or fails and then takes all there
is if it takes the parenthesis. -/
structure Steady (f : Reader α) : Prop where
  short : ∀ text a left, f text = .ok (a, left) → left.length ≤ text.length
  keeps : ∀ text a left, f text = .ok (a, left) → ∀ more,
    f (text ++ ')' :: more) = .ok (a, left ++ ')' :: more)
  fails : ∀ text e, f text = .error e → ∀ a left, f (text ++ [')']) = .ok (a, left) → left = []

/-- A steady reader that takes a character at least. -/
structure Eats (f : Reader α) : Prop extends Steady f where
  less : ∀ text a left, f text = .ok (a, left) → left.length < text.length

/-- Whether a reader does the same before a closing parenthesis as far as it leaves something, and
otherwise leaves the parenthesis at most. -/
structure Loose (f : Reader α) : Prop where
  short : ∀ text a left, f text = .ok (a, left) → left.length ≤ text.length
  keeps : ∀ text a left, f text = .ok (a, left) → left ≠ [] → ∀ more,
    f (text ++ ')' :: more) = .ok (a, left ++ ')' :: more)
  ends : ∀ text, (∀ a left, f text = .ok (a, left) → left = []) →
    ∀ a left, f (text ++ [')']) = .ok (a, left) → left.length ≤ 1

namespace Steady

theorem pure (a : α) : Steady (Pure.pure a : Reader α) where
  short _ _ _ read := by
    cases read
    exact Nat.le_refl _
  keeps _ _ _ read more := by
    cases read
    rfl
  fails _ _ failed := nomatch failed

theorem throw (e : PatternError) : Steady (throw e : Reader α) where
  short _ _ _ read := nomatch read
  keeps _ _ _ read := nomatch read
  fails _ _ _ _ _ read := nomatch read

theorem ofExcept (x : Except PatternError α) : Steady (Reader.ofExcept x) := by
  cases x with
  | ok a => exact pure a
  | error e => exact throw e

theorem bind {f : Reader α} {g : α → Reader β} (hf : Steady f) (hg : ∀ a, Steady (g a)) :
    Steady (f >>= g) where
  short text b left read := by
    obtain ⟨a, mid, first, second⟩ := bind_eq_ok.1 read
    exact Nat.le_trans ((hg a).short mid b left second) (hf.short text a mid first)
  keeps text b left read more := by
    obtain ⟨a, mid, first, second⟩ := bind_eq_ok.1 read
    rw [bind_of_ok (hf.keeps text a mid first more), (hg a).keeps mid b left second]
  fails text e failed b left read := by
    obtain ⟨a, mid, first, second⟩ := bind_eq_ok.1 read
    cases alone : f text with
    | error e =>
      rw [hf.fails text e alone a mid first] at second
      exact List.eq_nil_of_length_eq_zero (Nat.le_zero.1 ((hg a).short [] b left second))
    | ok found =>
      obtain ⟨a', mid'⟩ := found
      cases (hf.keeps text a' mid' alone []).symm.trans first
      rw [bind_of_ok alone] at failed
      exact (hg a).fails mid' e failed b left second

theorem map {f : Reader α} (hf : Steady f) (g : α → β) : Steady (g <$> f) := by
  rw [map_eq_pure_bind]
  exact hf.bind fun a => pure (g a)

end Steady

namespace Eats

theorem bind {f : Reader α} {g : α → Reader β} (hf : Eats f) (hg : ∀ a, Steady (g a)) :
    Eats (f >>= g) where
  toSteady := hf.toSteady.bind hg
  less text b left read := by
    obtain ⟨a, mid, first, second⟩ := bind_eq_ok.1 read
    exact Nat.lt_of_le_of_lt ((hg a).short mid b left second) (hf.less text a mid first)

theorem take (e : PatternError) : Eats (take e) where
  short text c left read := by
    cases text with
    | nil => cases read
    | cons c text =>
      cases read
      exact Nat.le_succ _
  keeps text c left read more := by
    cases text with
    | nil => cases read
    | cons c text =>
      cases read
      rfl
  fails text e' failed c left read := by
    cases text with
    | nil =>
      cases read
      rfl
    | cons c text => cases failed
  less text c left read := by
    cases text with
    | nil => cases read
    | cons c text =>
      cases read
      exact Nat.lt_succ_self _

end Eats

namespace Loose

/-- A reader that takes a character goes on where the one before it left something. -/
theorem bind {f : Reader α} {g : α → Reader β} (hf : Loose f) (hg : ∀ a, Eats (g a)) :
    Eats (f >>= g) where
  short text b left read := by
    obtain ⟨a, mid, first, second⟩ := bind_eq_ok.1 read
    exact Nat.le_trans ((hg a).short mid b left second) (hf.short text a mid first)
  keeps text b left read more := by
    obtain ⟨a, mid, first, second⟩ := bind_eq_ok.1 read
    have less := (hg a).less mid b left second
    have filled : mid ≠ [] := List.ne_nil_of_length_pos (Nat.zero_lt_of_lt less)
    rw [bind_of_ok (hf.keeps text a mid first filled more), (hg a).keeps mid b left second]
  fails text e failed b left read := by
    obtain ⟨a, mid, first, second⟩ := bind_eq_ok.1 read
    by_cases blank : ∀ a left, f text = .ok (a, left) → left = []
    · have less := (hg a).less mid b left second
      have one := hf.ends text blank a mid first
      exact List.eq_nil_of_length_eq_zero (by omega)
    · simp only [not_forall] at blank
      obtain ⟨a', mid', alone, filled⟩ := blank
      cases (hf.keeps text a' mid' alone filled []).symm.trans first
      rw [bind_of_ok alone] at failed
      exact (hg a).fails mid' e failed b left second
  less text b left read := by
    obtain ⟨a, mid, first, second⟩ := bind_eq_ok.1 read
    exact Nat.lt_of_lt_of_le ((hg a).less mid b left second) (hf.short text a mid first)

/-- What a function leaves of a text, whatever it makes of the rest. -/
theorem of_fun (f : List Char → α × List Char) (short : ∀ text, (f text).2.length ≤ text.length)
    (keeps : ∀ text, (f text).2 ≠ [] → ∀ more, f (text ++ more) = ((f text).1, (f text).2 ++ more))
    (ends : ∀ text, (f text).2 = [] → (f (text ++ [')'])).2.length ≤ 1) :
    Loose (fun text => .ok (f text)) where
  short text a left read := by
    obtain rfl : (f text).2 = left := congrArg Prod.snd (Except.ok.inj read)
    exact short text
  keeps text a left read filled more := by
    obtain rfl : (f text).1 = a := congrArg Prod.fst (Except.ok.inj read)
    obtain rfl : (f text).2 = left := congrArg Prod.snd (Except.ok.inj read)
    exact congrArg Except.ok (keeps text filled _)
  ends text blank a left read := by
    obtain rfl : (f (text ++ [')'])).2 = left := congrArg Prod.snd (Except.ok.inj read)
    exact ends text (blank _ _ rfl)

theorem blanks (fl : Flags) : Loose (blanks fl) :=
  of_fun (fun text => ((), skip fl text)) (skip_length_le fl) (fun _ filled more => congrArg _ (skip_append filled more))
    fun text blank => by
      change (skip fl (text ++ [')'])).length ≤ 1
      rcases skip_append_paren blank with all | paren
      · rw [all]
        exact Nat.zero_le 1
      · rw [paren]
        exact Nat.le_refl 1

theorem taken (fl : Flags) (wanted : Char → Bool) : Loose (taken fl wanted) :=
  of_fun (gather fl wanted false) (gather_length_le false) (fun _ filled more => gather_append filled more)
    fun _ all => gather_append_length_le all [')']

end Loose

theorem Eats.next (fl : Flags) (e : PatternError) : Eats (next fl e) :=
  (Loose.blanks fl).bind fun _ => Eats.take e

theorem Eats.upTo (fl : Flags) (stop : Char) (e : PatternError) : Eats (upTo fl stop e) :=
  (Loose.taken fl (· != stop)).bind fun before => (Eats.take e).bind fun _ => .pure before

theorem accept_cons (c d : Char) (text : List Char) :
    accept c (d :: text) = if d = c then .ok (true, text) else .ok (false, d :: text) := rfl

/-- Any character but the parenthesis may be taken if it comes next. -/
theorem Steady.accept {c : Char} (other : c ≠ ')') : Steady (accept c) where
  short text b left read := by
    cases text with
    | nil =>
      cases read
      exact Nat.le_refl 0
    | cons d text =>
      rw [accept_cons] at read
      split_ifs at read
      · cases read
        exact Nat.le_succ _
      · cases read
        exact Nat.le_refl _
  keeps text b left read more := by
    cases text with
    | nil =>
      cases read
      exact if_neg other.symm
    | cons d text =>
      rw [accept_cons] at read
      rw [List.cons_append, accept_cons]
      split_ifs at read ⊢
      · cases read
        rfl
      · cases read
        rfl
  fails text e failed := by
    cases text with
    | nil => cases failed
    | cons d text =>
      rw [accept_cons] at failed
      split_ifs at failed

theorem accept_eq_ok {c : Char} {text left : List Char} {b : Bool}
    (read : accept c text = .ok (b, left)) : text = if b then c :: left else left := by
  cases text with
  | nil =>
    cases read
    rfl
  | cons d text =>
    rw [accept_cons] at read
    split_ifs at read with same
    · cases read
      rw [same]
      rfl
    · cases read
      rfl

/-- What takes a character may stand in the place of a character that does not come next. -/
theorem Eats.accept {c : Char} (other : c ≠ ')') {f g : Reader α} (hf : Steady f) (hg : Eats g) :
    Eats (Reader.accept c >>= fun found => if found then f else g) where
  toSteady := (Steady.accept other).bind fun found => by
    split_ifs
    · exact hf
    · exact hg.toSteady
  less text a left read := by
    obtain ⟨found, mid, first, second⟩ := bind_eq_ok.1 read
    rw [accept_eq_ok first]
    cases found with
    | true => exact Nat.lt_succ_of_le (hf.short mid a left second)
    | false => exact hg.less mid a left second

section Loop

variable {step : σ → Reader (σ ⊕ α)}

/-- Steps that take a character each need no more steps than there are characters. -/
theorem loopFor_congr (eats : ∀ s, Eats (step s)) {fuel fuel' : Nat} {s : σ} {text : List Char}
    (enough : text.length < fuel) (enough' : text.length < fuel') :
    loopFor step fuel s text = loopFor step fuel' s text := by
  induction fuel generalizing fuel' s text with
  | zero => exact absurd enough (Nat.not_lt_zero _)
  | succ fuel ih =>
    obtain ⟨fuel', rfl⟩ := Nat.exists_eq_succ_of_ne_zero (Nat.ne_zero_of_lt enough')
    rw [loopFor, loopFor]
    change (step s text >>= _) = (step s text >>= _)
    cases read : step s text with
    | error e => rfl
    | ok found =>
      obtain ⟨result, left⟩ := found
      have less := (eats s).less text result left read
      cases result with
      | inl s' => exact ih (by omega) (by omega)
      | inr a => rfl

theorem loop_eq (eats : ∀ s, Eats (step s)) (s : σ) :
    loop step s = step s >>= Sum.elim (loop step) Pure.pure := by
  funext text
  change (step s text >>= _) = (step s text >>= _)
  cases read : step s text with
  | error e => rfl
  | ok found =>
    obtain ⟨result, left⟩ := found
    have less := (eats s).less text result left read
    cases result with
    | inl s' => exact loopFor_congr eats less (Nat.lt_succ_self _)
    | inr a => rfl

theorem loop_less (eats : ∀ s, Eats (step s)) {s : σ} {text left : List Char} {a : α}
    (read : loop step s text = .ok (a, left)) : left.length < text.length := by
  induction length : text.length using Nat.strongRecOn generalizing s text with
  | ind n ih =>
    rw [loop_eq eats] at read
    obtain ⟨result, mid, first, second⟩ := bind_eq_ok.1 read
    have shorter := (eats s).less text result mid first
    cases result with
    | inl s' =>
      have less := ih mid.length (by omega) second rfl
      omega
    | inr a' =>
      cases second
      omega

theorem loop_keeps (eats : ∀ s, Eats (step s)) {s : σ} {text left : List Char} {a : α}
    (read : loop step s text = .ok (a, left)) (more : List Char) :
    loop step s (text ++ ')' :: more) = .ok (a, left ++ ')' :: more) := by
  induction length : text.length using Nat.strongRecOn generalizing s text with
  | ind n ih =>
    rw [loop_eq eats] at read ⊢
    obtain ⟨result, mid, first, second⟩ := bind_eq_ok.1 read
    have shorter := (eats s).less text result mid first
    rw [bind_of_ok ((eats s).keeps text result mid first more)]
    cases result with
    | inl s' => exact ih mid.length (by omega) second rfl
    | inr a' =>
      cases second
      rfl

/-- A round that takes the parenthesis takes all there is, and nothing is left for another one. -/
theorem loop_fails (eats : ∀ s, Eats (step s)) {s : σ} {text left : List Char} {e : PatternError}
    {a : α} (failed : loop step s text = .error e)
    (read : loop step s (text ++ [')']) = .ok (a, left)) : left = [] := by
  induction length : text.length using Nat.strongRecOn generalizing s text with
  | ind n ih =>
    rw [loop_eq eats] at failed read
    obtain ⟨result, mid, first, second⟩ := bind_eq_ok.1 read
    cases alone : step s text with
    | error e =>
      rw [(eats s).fails text e alone result mid first] at second
      cases result with
      | inl s' => exact absurd (loop_less eats second) (Nat.not_lt_zero _)
      | inr a' =>
        cases second
        rfl
    | ok found =>
      obtain ⟨result', mid'⟩ := found
      have shorter := (eats s).less text result' mid' alone
      cases ((eats s).keeps text result' mid' alone []).symm.trans first
      rw [bind_of_ok alone] at failed
      cases result with
      | inl s' => exact ih mid'.length (by omega) failed second rfl
      | inr a' => cases failed

/-- A loop of steps that each take a character takes one too. -/
theorem Eats.loop (eats : ∀ s, Eats (step s)) (s : σ) : Eats (loop step s) where
  short _ _ _ read := Nat.le_of_lt (loop_less eats read)
  keeps _ _ _ read := loop_keeps eats read
  fails _ _ failed _ _ := loop_fails eats failed
  less _ _ _ := loop_less eats

end Loop

end Reader

end AttrGrammar.Pattern.Syntax
