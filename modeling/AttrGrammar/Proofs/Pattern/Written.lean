import AttrGrammar.Pattern.Token
import AttrGrammar.Proofs.Pattern.Readers

/-!
What tokens are read inside a group.

All readers of parts of patterns keep the law of readers in groups, so a token is read the same
before a closing parenthesis. Two of them look past blanks for a question mark; they see it behind
the parenthesis only where a comment takes the parenthesis and ends before the question mark.
-/

namespace AttrGrammar.Pattern.Syntax

open Reader

variable {fl : Flags}

namespace Reader.Steady

theorem hexDigits (more value : Nat) (c : Char) : Steady (hexDigits fl more value c) := by
  induction more generalizing value c with
  | zero =>
    unfold Syntax.hexDigits
    split
    · exact throw _
    · exact ofExcept _
    · next never => cases never
  | succ more ih =>
    unfold Syntax.hexDigits
    split
    · exact throw _
    · next never => cases never
    · next same =>
      cases same
      exact (Eats.next fl _).bind (fun c => ih _ c) |>.toSteady

theorem hexBraced : Steady (hexBraced fl) :=
  ((Eats.upTo fl '}' _).bind fun digits => by
    split
    · exact ofExcept _
    · exact throw _).toSteady

theorem hexEscape (digits : Nat) : Steady (hexEscape fl digits) :=
  ((Eats.next fl _).bind fun c => by
    split_ifs
    · exact hexBraced
    · exact hexDigits _ _ c).toSteady

theorem byteEscape : Steady (byteEscape fl) :=
  ((Eats.next fl _).bind fun c => by
    split_ifs
    · exact hexBraced
    · refine (hexDigits _ _ c).bind fun c => ?_
      split_ifs
      · exact pure c
      · exact throw _).toSteady

theorem wordEdge : Steady (wordEdge fl) :=
  ((Eats.upTo fl '}' _).bind fun name => by
    split
    · exact pure _
    · exact throw _).toSteady

end Reader.Steady

theorem boundary_of_other {text : List Char} (other : text.head? ≠ some '{') :
    boundary fl text = .ok (.boundary, text) := by
  unfold boundary
  split
  · exact absurd rfl other
  · rfl

/-- What a word boundary does with a brace depends on the character behind it. -/
def braceBehind (fl : Flags) (c : Char) : Reader WordEdge := fun text =>
  if c.isAlpha || c == '-' then wordEdge fl text
  else if c.isDigit || Text.isSpace c then .ok (.boundary, '{' :: text)
  else .error .badCount

theorem boundary_of_brace {text rest : List Char} {c : Char} (here : skip fl text = c :: rest) :
    boundary fl ('{' :: text) = braceBehind fl c text := by
  simp only [boundary, here]
  rfl

theorem braceBehind_paren (text : List Char) : braceBehind fl ')' text = .error .badCount := by
  have letter : (')'.isAlpha || ')' == '-') = false := by decide
  have number : (')'.isDigit || Text.isSpace ')') = false := by decide +kernel
  rw [braceBehind, letter, number]
  rfl

namespace Reader.Steady

theorem boundary : Steady (boundary fl) where
  short text e left read := by
    unfold Syntax.boundary at read
    split at read
    · next rest =>
      split at read
      · cases read
      · split_ifs at read
        · exact Nat.le_succ_of_le (wordEdge.short rest e left read)
        · cases read
          exact Nat.le_refl _
    · cases read
      exact Nat.le_refl _
  keeps text e left read more := by
    by_cases brace : text.head? = some '{'
    · obtain ⟨rest, rfl⟩ := List.head?_eq_some_iff.1 brace
      rw [List.cons_append]
      cases here : skip fl rest with
      | nil =>
        simp only [Syntax.boundary, here, reduceCtorEq] at read
      | cons c behind =>
        have same : skip fl (rest ++ ')' :: more) = c :: (behind ++ ')' :: more) :=
          skip_append_cons here _
        rw [boundary_of_brace here] at read
        rw [boundary_of_brace same]
        unfold braceBehind at read ⊢
        split_ifs at read ⊢
        · exact wordEdge.keeps rest e left read more
        · cases read
          rfl
    · rw [boundary_of_other brace] at read
      cases read
      refine boundary_of_other ?_
      cases text with
      | nil => simp
      | cons d text => exact brace
  fails text e failed a left read := by
    by_cases brace : text.head? = some '{'
    · obtain ⟨rest, rfl⟩ := List.head?_eq_some_iff.1 brace
      rw [List.cons_append] at read
      cases here : skip fl rest with
      | nil =>
        rcases skip_append_paren here with blank | paren
        · simp only [Syntax.boundary, blank] at read
          cases read
        · rw [boundary_of_brace paren, braceBehind_paren] at read
          cases read
      | cons c behind =>
        have same : skip fl (rest ++ [')']) = c :: (behind ++ [')']) := skip_append_cons here _
        rw [boundary_of_brace here] at failed
        rw [boundary_of_brace same] at read
        unfold braceBehind at failed read
        split_ifs at failed read
        exact wordEdge.fails rest e failed a left read
    · rw [boundary_of_other brace] at failed
      cases failed

theorem propertyName : Steady (propertyName fl) :=
  ((Eats.next fl _).bind fun c => by
    split_ifs
    · exact (Eats.upTo fl '}' _).toSteady.map _
    · exact pure _).toSteady

theorem namedProperty (negated : Bool) : Steady (namedProperty fl negated) :=
  propertyName.bind fun found => by
    split_ifs
    · exact throw _
    · split
      · exact ofExcept _
      · exact throw _

theorem escape : Steady (escape fl) :=
  ((Eats.take _).bind fun c => by
    split
    · exact byteEscape.map _
    · exact (hexEscape 4).map _
    · exact (hexEscape 8).map _
    · exact namedProperty false
    · exact namedProperty true
    iterate 6 exact pure _
    iterate 6 exact ofExcept _
    iterate 2 exact pure _
    · exact boundary.map _
    iterate 3 exact pure _
    · split_ifs
      · exact pure _
      · exact throw _).toSteady

end Reader.Steady

/-- Without a parenthesis in it, a text begins another one just if it does so alone. -/
theorem behind?_append {start : List Char} (free : ')' ∉ start) (text more : List Char) :
    behind? start (text ++ ')' :: more) = (behind? start text).map (· ++ ')' :: more) := by
  induction start generalizing text with
  | nil => rfl
  | cons c start ih =>
    cases text with
    | nil =>
      have other : c ≠ ')' := fun same => free (List.mem_cons.2 (.inl same.symm))
      exact if_neg other
    | cons d text =>
      rw [List.cons_append, behind?, behind?]
      split_ifs
      · exact ih (fun member => free (List.mem_cons_of_mem c member)) text
      · rfl

/-- No class of ASCII characters has a parenthesis in its name. -/
theorem paren_notMem_asciiClasses : ∀ entry ∈ asciiClasses, ')' ∉ entry.1.toList := by
  decide +kernel

theorem calledClass?_append {name : String} (free : ')' ∉ name.toList) (text more : List Char) :
    calledClass? (text ++ ')' :: more) name =
      (calledClass? text name).map fun (negated, rest) => (negated, rest ++ ')' :: more) := by
  have called {start : String} (alone : ')' ∉ start.toList) :
      ')' ∉ (start ++ name ++ ":]").toList := by
    simp [alone, free]
  have plain : ')' ∉ ":".toList := by decide
  have negated : ')' ∉ ":^".toList := by decide
  unfold calledClass?
  rw [behind?_append (called plain), behind?_append (called negated)]
  cases behind? (":" ++ name ++ ":]").toList text with
  | some rest => rfl
  | none =>
    cases behind? (":^" ++ name ++ ":]").toList text with
    | some rest => rfl
    | none => rfl

/-- What is no named class is none with a parenthesis behind it. -/
theorem namedClass?_append (text more : List Char) :
    namedClass? (text ++ ')' :: more) =
      (namedClass? text).map fun (s, negated, rest) => (s, negated, rest ++ ')' :: more) := by
  unfold namedClass?
  have each := paren_notMem_asciiClasses
  generalize asciiClasses = classes at each ⊢
  induction classes with
  | nil => rfl
  | cons entry others ih =>
    obtain ⟨here, later⟩ := List.forall_mem_cons.1 each
    rw [List.findSome?_cons, List.findSome?_cons, ih later, calledClass?_append here]
    cases calledClass? text entry.1 with
    | some found => rfl
    | none => rfl

theorem behind?_length_le {start text rest : List Char} (found : behind? start text = some rest) :
    rest.length ≤ text.length := by
  induction start generalizing text with
  | nil =>
    cases found
    exact Nat.le_refl _
  | cons c start ih =>
    cases text with
    | nil => cases found
    | cons d text =>
      rw [behind?] at found
      split_ifs at found
      exact Nat.le_succ_of_le (ih found)

theorem namedClass?_length_le {text rest : List Char} {s : CharSet} {negated : Bool}
    (found : namedClass? text = some (s, negated, rest)) : rest.length ≤ text.length := by
  obtain ⟨entry, _, called⟩ := List.exists_of_findSome?_eq_some found
  obtain ⟨⟨negated', rest'⟩, found, same⟩ := Option.map_eq_some_iff.1 called
  cases same
  unfold calledClass? at found
  split at found
  · next here =>
    cases found
    exact behind?_length_le here
  · obtain ⟨_, here, same⟩ := Option.map_eq_some_iff.1 found
    cases same
    exact behind?_length_le here

theorem Reader.Steady.namedClass : Steady namedClass where
  short text found left read := by
    unfold Syntax.namedClass at read
    split at read
    · next here =>
      cases read
      exact namedClass?_length_le here
    · cases read
      exact Nat.le_refl _
  keeps text found left read more := by
    unfold Syntax.namedClass at read ⊢
    rw [namedClass?_append]
    split at read
    · next here =>
      cases read
      rw [here]
      rfl
    · next here =>
      cases read
      rw [here]
      rfl
  fails text e failed := by
    unfold Syntax.namedClass at failed
    split at failed
    · cases failed
    · cases failed

theorem dropWhile_append_paren {p : Char → Bool} (other : p ')' = false) (text more : List Char) :
    (text ++ ')' :: more).dropWhile p = text.dropWhile p ++ ')' :: more := by
  rw [List.dropWhile_append]
  split_ifs with blank
  · rw [List.isEmpty_iff.1 blank, List.dropWhile_cons_of_neg (Bool.eq_false_iff.1 other)]
    rfl
  · rfl

theorem isSpace_paren : Text.isSpace ')' = false := by decide +kernel

theorem seenBehind_append (text more : List Char) :
    seenBehind fl (text ++ ')' :: more) = seenBehind fl text ++ ')' :: more := by
  unfold seenBehind
  split_ifs
  · rw [dropWhile_append_paren isSpace_paren]
    split
    · next rest here =>
      cases start : text.dropWhile Text.isSpace with
      | nil =>
        rw [start] at here
        cases here
      | cons d others =>
        rw [start] at here
        cases here
        exact dropWhile_append_paren isSpace_paren others more
    · next other =>
      split
      · next rest here =>
        rw [here] at other
        exact absurd rfl (other _)
      · rfl
  · rfl

/-- What is seen of a text is seen before a parenthesis, and otherwise the parenthesis. -/
theorem head?_seenBehind_append (text more : List Char) :
    (seenBehind fl (text ++ ')' :: more)).head? = some ((seenBehind fl text).head?.getD ')') := by
  rw [seenBehind_append]
  cases seenBehind fl text with
  | nil => rfl
  | cons c left => rfl

theorem skipBlank_of_spaces {text : List Char} (blank : ∀ c ∈ text, Text.isSpace c = true)
    (inComment : Bool) : skipBlank inComment text = [] := by
  induction text generalizing inComment with
  | nil => rfl
  | cons c text ih =>
    obtain ⟨space, later⟩ := List.forall_mem_cons.1 blank
    rw [skipBlank, if_pos space, ih later, ih later, ite_self]

theorem skipBlank_append_of_spaces {blank : List Char} (each : ∀ c ∈ blank, Text.isSpace c = true)
    (text : List Char) : skipBlank false (blank ++ text) = skipBlank false text := by
  induction blank with
  | nil => rfl
  | cons c blank ih =>
    obtain ⟨space, later⟩ := List.forall_mem_cons.1 each
    rw [List.cons_append, skipBlank, if_neg Bool.false_ne_true, if_pos space, ih later]

/-- Where nothing is seen, there are only blanks. -/
theorem skip_of_seenBehind {text : List Char} (blind : (seenBehind fl text).head? = none) :
    skip fl text = [] := by
  have spaces {text : List Char} : ∀ c ∈ text.takeWhile Text.isSpace, Text.isSpace c = true :=
    List.all_eq_true.1 List.all_takeWhile
  rw [List.head?_eq_none_iff] at blind
  unfold seenBehind at blind
  unfold skip
  split_ifs at blind ⊢ with spaced
  · rw [← List.takeWhile_append_dropWhile (p := Text.isSpace) (l := text),
      skipBlank_append_of_spaces spaces]
    split at blind
    · next rest here =>
      have all := List.takeWhile_append_dropWhile (p := Text.isSpace) (l := rest)
      rw [blind, List.append_nil] at all
      have hash : Text.isSpace '#' = false := by decide +kernel
      rw [here, skipBlank, if_neg Bool.false_ne_true, if_neg (Bool.eq_false_iff.1 hash),
        if_pos (beq_self_eq_true '#'), skipBlank_of_spaces (all ▸ spaces)]
    · rw [blind]
      rfl
  · exact blind

/-- Where a range has no end, the class is over, or blanks stand before the end of the text. -/
theorem rangeEnd_fails {text : List Char} {e : PatternError} (failed : rangeEnd fl text = .error e) :
    skip fl text = [] ∧ (seenBehind fl text).head? ≠ some ']' ∧
      (seenBehind fl text).head? ≠ some '-' := by
  unfold rangeEnd at failed
  split at failed
  · next blind =>
    rw [blind]
    exact ⟨skip_of_seenBehind blind, nofun, nofun⟩
  · next c seen =>
    split_ifs at failed with ends
    split at failed
    · next here =>
      rw [seen]
      rw [Bool.or_eq_true, beq_iff_eq, beq_iff_eq, not_or] at ends
      exact ⟨here, fun same => ends.1 (Option.some.inj same),
        fun same => ends.2 (Option.some.inj same)⟩
    · cases failed

namespace Reader.Steady

theorem rangeEnd : Steady (rangeEnd fl) where
  short text found left read := by
    unfold Syntax.rangeEnd at read
    split at read
    · cases read
    · split_ifs at read
      · cases read
        exact Nat.le_refl _
      · have length := skip_length_le fl text
        split at read
        · cases read
        · next here =>
          cases read
          rw [here] at length
          exact Nat.le_of_succ_le length
  keeps text found left read more := by
    unfold Syntax.rangeEnd at read ⊢
    split at read
    · cases read
    · next seen =>
      rw [head?_seenBehind_append, seen]
      dsimp only [Option.getD_some]
      split_ifs at read ⊢
      · cases read
        rfl
      · split at read
        · cases read
        · next here =>
          have filled : skip fl text ≠ [] := here ▸ List.cons_ne_nil _ _
          rw [skip_append filled, here]
          cases read
          rfl
  fails text e failed found left read := by
    obtain ⟨blank, bracket, hyphen⟩ := rangeEnd_fails failed
    have goes : ((seenBehind fl text).head?.getD ')' == ']' ||
        (seenBehind fl text).head?.getD ')' == '-') = false := by
      cases seen : (seenBehind fl text).head? with
      | none => rfl
      | some c =>
        rw [seen] at bracket hyphen
        rw [Option.getD_some, Bool.or_eq_false_iff, beq_eq_false_iff_ne, beq_eq_false_iff_ne]
        exact ⟨fun same => bracket (congrArg some same), fun same => hyphen (congrArg some same)⟩
    unfold Syntax.rangeEnd at read
    rw [head?_seenBehind_append] at read
    dsimp only at read
    rw [goes] at read
    rcases skip_append_paren blank with all | paren
    · rw [all] at read
      cases read
    · rw [paren] at read
      cases read
      rfl

theorem classAtom (c : Char) : Steady (classAtom fl c) := by
  unfold Syntax.classAtom
  split_ifs
  · exact escape
  · exact pure _

theorem classOperator (c : Char) : Steady (classOperator c) := by
  unfold Syntax.classOperator
  split
  · next operator found =>
    have other : c ≠ ')' := by
      rintro rfl
      cases found
    exact (accept other).bind fun _ => pure _
  · exact pure _

variable (top : ClassFrame) (below : List ClassFrame)

theorem classElement (c : Char) : Steady (classElement fl top below c) := by
  refine (ofExcept _).bind fun top => ?_
  split_ifs
  · exact ofExcept _
  · refine namedClass.bind fun found => ?_
    split
    · exact (ofExcept _).bind fun _ => pure _
    · exact pure _
  · refine (classOperator c).bind fun found => ?_
    split
    · exact (ofExcept _).bind fun _ => pure _
    · exact (classAtom c).bind fun _ => pure _

theorem classRange (first : Atom) : Steady (classRange fl top below first) :=
  rangeEnd.bind fun found => by
    split
    · exact (classAtom _).bind fun last => (ofExcept _).bind fun _ => pure _
    · exact classElement top below '-'

end Reader.Steady

namespace Reader.Eats

theorem classStep (s : ClassState) : Eats (classStep fl s) :=
  (Eats.next fl _).bind fun c => by
    dsimp only
    split
    iterate 6 exact .pure _
    · exact .classRange s.top s.below _
    · exact .classElement s.top s.below _

theorem charClass : Eats (charClass fl) := Eats.loop classStep {}

theorem flagStep (s : FlagState) : Eats (flagStep s) :=
  (Eats.take _).bind fun c => by
    split_ifs
    · exact .throw _
    · exact .throw _
    · exact .pure _
    · exact .throw _
    · exact .pure _
    · split
      · exact .pure _
      · exact .throw _

theorem flagGroup : Eats (flagGroup fl) := (Eats.loop flagStep _).bind fun _ => .pure _

theorem groupName : Eats (groupName fl) :=
  (Eats.upTo {} '>' _).bind fun name => by
    split
    · exact .throw _
    · exact .throw _
    · split_ifs
      · exact .pure _
      · exact .throw _

end Reader.Eats

namespace Reader.Steady

theorem specialGroup : Steady (specialGroup fl) := by
  unfold Syntax.specialGroup
  refine (accept (by decide)).bind fun ahead => ?_
  split_ifs
  · exact throw _
  refine (accept (by decide)).bind fun ahead => ?_
  split_ifs
  · exact throw _
  refine (accept (by decide)).bind fun angle => ?_
  split_ifs
  · exact Eats.groupName.toSteady
  refine (accept (by decide)).bind fun letter => ?_
  split_ifs
  · refine (accept (by decide)).bind fun angle => ?_
    split_ifs
    · exact Eats.groupName.toSteady
    · exact throw _
  · exact Eats.flagGroup.toSteady

end Reader.Steady

theorem Reader.Loose.margin : Loose (margin fl) := by
  unfold Syntax.margin
  split_ifs
  · exact blanks fl
  · refine of_fun (fun text => ((), text.dropWhile Text.isSpace))
      (fun text => (List.dropWhile_sublist _).length_le) (fun text filled more => ?_)
      fun text blank => ?_
    · rw [List.dropWhile_append, if_neg (mt List.isEmpty_iff.1 filled)]
    · have blank : text.dropWhile Text.isSpace = [] := blank
      rw [dropWhile_append_paren isSpace_paren, blank]
      exact Nat.le_refl 1

theorem Reader.Eats.number : Eats (number fl) :=
  Loose.margin.bind fun _ => (Loose.taken fl Char.isDigit).bind fun digits =>
    Loose.margin.bind fun _ => (Eats.take _).bind fun c => by
      dsimp only
      split_ifs
      · exact .throw _
      · exact .pure _

theorem Reader.Eats.highBound (low : Nat) : Eats (highBound fl low) :=
  (Loose.blanks fl).bind fun _ => .accept (by decide) (.pure _) <| Eats.number.bind fun found => by
    dsimp only
    split_ifs
    · exact .pure _
    · exact .throw _

theorem Reader.Steady.bounds : Steady (bounds fl) :=
  Eats.number.toSteady.bind fun found => by
    dsimp only
    split_ifs
    · exact pure _
    · exact (Eats.highBound _).toSteady.bind fun _ => pure _
    · exact throw _

/-- Any other token than the start of a group or a counted repetition is read the same. -/
theorem Reader.Steady.tokenOf {c : Char} (group : c ≠ '(') (count : c ≠ '{') :
    Steady (tokenOf fl c) := by
  unfold Syntax.tokenOf
  dsimp only
  split
  · exact absurd rfl group
  · exact pure _
  · exact pure _
  iterate 3 exact (accept (by decide)).map _
  · exact absurd rfl count
  · exact Eats.charClass.toSteady.bind fun _ => pure _
  · exact escape.bind fun _ => pure _
  · exact ofExcept _
  iterate 3 exact pure _

theorem group_of_special {text rest : List Char} (here : skip fl text = '?' :: rest) :
    group fl text = specialGroup fl rest := by
  simp only [group, here]

theorem group_of_other {text : List Char} (other : (skip fl text).head? ≠ some '?') :
    group fl text = .ok (.opens .captures fl, text) := by
  unfold group
  split
  · next here =>
    rw [here] at other
    exact absurd rfl other
  · rfl

theorem lazyBehind_of_mark {text rest : List Char} (here : skip fl text = '?' :: rest) :
    lazyBehind fl text = .ok (true, rest) := by
  simp only [lazyBehind, here]

theorem lazyBehind_of_other {text : List Char} (other : (skip fl text).head? ≠ some '?') :
    lazyBehind fl text = .ok (false, text) := by
  unfold lazyBehind
  split
  · next here =>
    rw [here] at other
    exact absurd rfl other
  · rfl

/-- Behind a parenthesis no question mark is seen, unless a comment takes the parenthesis. -/
theorem head?_skip_append {text more : List Char} (other : (skip fl text).head? ≠ some '?')
    (closed : '\n' ∈ more → isOpen fl text = false) :
    (skip fl (text ++ ')' :: more)).head? ≠ some '?' := by
  by_cases blank : skip fl text = []
  · cases hanging : isOpen fl text with
    | true =>
      have line : '\n' ∉ ')' :: more := by
        rw [List.mem_cons, not_or]
        refine ⟨by decide, fun member => ?_⟩
        rw [closed member] at hanging
        cases hanging
      rw [skip_append_of_open blank hanging line]
      nofun
    | false =>
      rw [skip_append_of_closed blank hanging, skip_paren, List.head?_cons, Ne, Option.some.injEq]
      decide
  · obtain ⟨d, rest, here⟩ := List.exists_cons_of_ne_nil blank
    rw [skip_append blank, here]
    rwa [here] at other

theorem group_length_le {text left : List Char} {t : Token}
    (read : group fl text = .ok (t, left)) : left.length ≤ text.length := by
  by_cases special : (skip fl text).head? = some '?'
  · obtain ⟨rest, here⟩ := List.head?_eq_some_iff.1 special
    have length := skip_length_le fl text
    rw [here] at length
    rw [group_of_special here] at read
    exact Nat.le_trans (Steady.specialGroup.short rest t left read) (Nat.le_of_succ_le length)
  · rw [group_of_other special] at read
    cases read
    exact Nat.le_refl _

theorem lazyBehind_length_le {text left : List Char} {isLazy : Bool}
    (read : lazyBehind fl text = .ok (isLazy, left)) : left.length ≤ text.length := by
  by_cases mark : (skip fl text).head? = some '?'
  · obtain ⟨rest, here⟩ := List.head?_eq_some_iff.1 mark
    have length := skip_length_le fl text
    rw [here] at length
    rw [lazyBehind_of_mark here] at read
    cases read
    exact Nat.le_of_succ_le length
  · rw [lazyBehind_of_other mark] at read
    cases read
    exact Nat.le_refl _

theorem group_append {text left : List Char} {t : Token} (read : group fl text = .ok (t, left))
    {more : List Char} (closed : t = .opens .captures fl → '\n' ∈ more → isOpen fl left = false) :
    group fl (text ++ ')' :: more) = .ok (t, left ++ ')' :: more) := by
  by_cases special : (skip fl text).head? = some '?'
  · obtain ⟨rest, here⟩ := List.head?_eq_some_iff.1 special
    have same : skip fl (text ++ ')' :: more) = '?' :: (rest ++ ')' :: more) :=
      skip_append_cons here _
    rw [group_of_special here] at read
    rw [group_of_special same]
    exact Steady.specialGroup.keeps rest t left read more
  · rw [group_of_other special] at read
    cases read
    exact group_of_other (head?_skip_append special (closed rfl))

theorem counted_append {text left : List Char} {t : Token}
    (read : counted fl text = .ok (t, left)) {more : List Char}
    (closed : '\n' ∈ more → isOpen fl left = false) :
    counted fl (text ++ ')' :: more) = .ok (t, left ++ ')' :: more) := by
  obtain ⟨found, mid, first, second⟩ := bind_eq_ok.1 read
  obtain ⟨isLazy, left', looked, made⟩ := bind_eq_ok.1 second
  cases made
  refine (bind_of_ok (Steady.bounds.keeps text found mid first more)).trans ?_
  have same : lazyBehind fl (mid ++ ')' :: more) = .ok (isLazy, left ++ ')' :: more) := by
    by_cases mark : (skip fl mid).head? = some '?'
    · obtain ⟨rest, here⟩ := List.head?_eq_some_iff.1 mark
      rw [lazyBehind_of_mark here] at looked
      cases looked
      exact lazyBehind_of_mark (skip_append_cons here _)
    · rw [lazyBehind_of_other mark] at looked
      cases looked
      exact lazyBehind_of_other (head?_skip_append mark closed)
  exact (bind_of_ok same).trans rfl

/-- A token is read the same before a closing parenthesis. Where the text behind it goes on in a
comment, so that the parenthesis stands in that comment, the comment must not end. -/
theorem tokenOf_append {sc : Scope} {c : Char} {text left : List Char} {t : Token}
    (read : tokenOf sc.flags c text = .ok (t, left)) {more : List Char}
    (closed : '\n' ∈ more → isOpen (sc.after t).flags left = false) :
    tokenOf sc.flags c (text ++ ')' :: more) = .ok (t, left ++ ')' :: more) := by
  by_cases opens : c = '('
  · subst opens
    refine group_append read ?_
    rintro rfl
    exact closed
  by_cases counts : c = '{'
  · subst counts
    refine counted_append read ?_
    obtain ⟨found, mid, _, second⟩ := bind_eq_ok.1 read
    obtain ⟨isLazy, left', _, made⟩ := bind_eq_ok.1 second
    cases made
    exact closed
  · exact (Steady.tokenOf opens counts).keeps text t left read more

theorem tokenOf_length_le {c : Char} {text left : List Char} {t : Token}
    (read : tokenOf fl c text = .ok (t, left)) : left.length ≤ text.length := by
  by_cases opens : c = '('
  · subst opens
    exact group_length_le read
  by_cases counts : c = '{'
  · subst counts
    obtain ⟨found, mid, first, second⟩ := bind_eq_ok.1 read
    obtain ⟨isLazy, left', looked, made⟩ := bind_eq_ok.1 second
    cases made
    exact Nat.le_trans (lazyBehind_length_le looked) (Steady.bounds.short text found mid first)
  · exact (Steady.tokenOf opens counts).short text t left read

/-- Where no group can begin, a closing parenthesis makes none that leaves anything. -/
theorem group_fails {text left : List Char} {e : PatternError} {t : Token}
    (failed : group fl text = .error e) (read : group fl (text ++ [')']) = .ok (t, left)) :
    left = [] := by
  by_cases special : (skip fl text).head? = some '?'
  · obtain ⟨rest, here⟩ := List.head?_eq_some_iff.1 special
    have same : skip fl (text ++ [')']) = '?' :: (rest ++ [')']) := skip_append_cons here _
    rw [group_of_special here] at failed
    rw [group_of_special same] at read
    exact Steady.specialGroup.fails rest e failed t left read
  · rw [group_of_other special] at failed
    cases failed

theorem counted_fails {text left : List Char} {e : PatternError} {t : Token}
    (failed : counted fl text = .error e) (read : counted fl (text ++ [')']) = .ok (t, left)) :
    left = [] := by
  obtain ⟨found, mid, first, second⟩ := bind_eq_ok.1 read
  obtain ⟨isLazy, left', looked, made⟩ := bind_eq_ok.1 second
  cases made
  cases alone : bounds fl text with
  | error e' =>
    have nothing := Steady.bounds.fails text e' alone found mid first
    have short := lazyBehind_length_le looked
    rw [nothing] at short
    exact List.eq_nil_of_length_eq_zero (Nat.le_zero.1 short)
  | ok found' =>
    obtain ⟨found', mid'⟩ := found'
    have failed := (bind_of_ok alone).symm.trans failed
    by_cases mark : (skip fl mid').head? = some '?'
    · obtain ⟨rest, here⟩ := List.head?_eq_some_iff.1 mark
      cases (bind_of_ok (lazyBehind_of_mark here)).symm.trans failed
    · cases (bind_of_ok (lazyBehind_of_other mark)).symm.trans failed

/-- Where a token cannot be read, a closing parenthesis makes none that leaves anything. -/
theorem tokenOf_fails {c : Char} {text left : List Char} {e : PatternError} {t : Token}
    (failed : tokenOf fl c text = .error e)
    (read : tokenOf fl c (text ++ [')']) = .ok (t, left)) : left = [] := by
  by_cases opens : c = '('
  · subst opens
    exact group_fails failed read
  by_cases counts : c = '{'
  · subst counts
    exact counted_fails failed read
  · exact (Steady.tokenOf opens counts).fails text e failed t left read

/-- Whether what is read is never the end of a group. -/
def EndsNone (f : Reader Token) : Prop := ∀ text t left, f text = .ok (t, left) → t ≠ .closes

namespace EndsNone

theorem pure {t : Token} (other : t ≠ .closes) : EndsNone (Pure.pure t) := by
  rintro text _ left ⟨⟩
  exact other

theorem throw (e : PatternError) : EndsNone (MonadExcept.throw e) := nofun

theorem bind {α : Type} {f : Reader α} {g : α → Reader Token} (each : ∀ a, EndsNone (g a)) :
    EndsNone (f >>= g) := by
  intro text t left read
  obtain ⟨a, mid, _, second⟩ := bind_eq_ok.1 read
  exact each a mid t left second

theorem map {α : Type} {f : Reader α} {g : α → Token} (each : ∀ a, g a ≠ .closes) :
    EndsNone (g <$> f) := by
  rw [map_eq_pure_bind]
  exact bind fun a => pure (each a)

theorem groupName : EndsNone (groupName fl) :=
  bind fun name => by
    split
    · exact throw _
    · exact throw _
    · split_ifs
      · exact pure nofun
      · exact throw _

theorem specialGroup : EndsNone (specialGroup fl) := by
  refine bind fun ahead => ?_
  split_ifs
  · exact throw _
  refine bind fun ahead => ?_
  split_ifs
  · exact throw _
  refine bind fun angle => ?_
  split_ifs
  · exact groupName
  refine bind fun letter => ?_
  split_ifs
  · refine bind fun angle => ?_
    split_ifs
    · exact groupName
    · exact throw _
  · refine bind fun found => pure ?_
    split_ifs
    · nofun
    · nofun

theorem group : EndsNone (group fl) := by
  intro text t left read
  by_cases special : (skip fl text).head? = some '?'
  · obtain ⟨rest, here⟩ := List.head?_eq_some_iff.1 special
    rw [group_of_special here] at read
    exact specialGroup rest t left read
  · rw [group_of_other special] at read
    cases read
    nofun

end EndsNone

/-- Only the closing parenthesis ends a group. -/
theorem endsNone_tokenOf {c : Char} (other : c ≠ ')') : EndsNone (tokenOf fl c) := by
  unfold tokenOf
  dsimp only
  split
  · exact .group
  · exact absurd rfl other
  · exact .pure nofun
  iterate 3 exact .map nofun
  · exact .bind fun _ => .bind fun _ => .pure nofun
  · exact .bind fun _ => .pure nofun
  · exact .bind fun _ => .pure nofun
  · intro text t left read
    cases made : dot fl with
    | error e =>
      rw [made] at read
      cases read
    | ok s =>
      rw [made] at read
      cases read
      nofun
  iterate 3 exact .pure nofun

end AttrGrammar.Pattern.Syntax
