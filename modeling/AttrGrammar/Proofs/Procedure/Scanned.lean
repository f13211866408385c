import AttrGrammar.Proofs.Procedure.Lexemes

/-!
The pieces of a text that is scanned, whatever the text is.

Inside quotes there are characters and escapes up to the next quote, and inside brackets there are
strings, arrays and other tokens up to the bracket that belongs to the first one. So where a scan
succeeds, what it finds after an opening token are the pieces of a group that fit together, its
closing token, and what is scanned after it.
-/

namespace AttrGrammar.Procedure

open Recognizer
open Scanner (advance)
open Json (isBlank)

/-- What stands between the quotes of a string: characters, of which one after a backslash does not
count. -/
inductive StringBody : List Char → Prop
  | nil : StringBody []
  | plain {c : Char} {rest : List Char} (ordinary : c ≠ '"' ∧ c ≠ '\\') (others : StringBody rest) :
    StringBody (c :: rest)
  | escaped (c : Char) {rest : List Char} (others : StringBody rest) : StringBody ('\\' :: c :: rest)

/-- What stands between the brackets of an array, and the same without the blanks that are not in
strings. -/
inductive ArrayBody : List Char → List Char → Prop
  | nil : ArrayBody [] []
  | blank {c : Char} {rest tight : List Char} (blank : isBlank c = true)
    (others : ArrayBody rest tight) : ArrayBody (c :: rest) tight
  | other {c : Char} {rest tight : List Char} (solid : isBlank c = false)
    (plain : c ≠ '"' ∧ c ≠ '[' ∧ c ≠ ']') (others : ArrayBody rest tight) :
    ArrayBody (c :: rest) (c :: tight)
  | string {body rest tight : List Char} (written : StringBody body)
    (others : ArrayBody rest tight) :
    ArrayBody ('"' :: (body ++ '"' :: rest)) ('"' :: (body ++ '"' :: tight))
  | array {body inner rest tight : List Char} (within : ArrayBody body inner)
    (others : ArrayBody rest tight) :
    ArrayBody ('[' :: (body ++ ']' :: rest)) ('[' :: (inner ++ ']' :: tight))

theorem StringBody.append_plain {front rest : List Char}
    (ordinary : ∀ c ∈ front, c ≠ '"' ∧ c ≠ '\\') (others : StringBody rest) :
    StringBody (front ++ rest) := by
  induction front with
  | nil => exact others
  | cons c front ih =>
    obtain ⟨here, later⟩ := List.forall_mem_cons.1 ordinary
    exact .plain here (ih later)

theorem ArrayBody.append_blanks {front rest tight : List Char} (blanks : ∀ c ∈ front, isBlank c = true)
    (others : ArrayBody rest tight) : ArrayBody (front ++ rest) tight := by
  induction front with
  | nil => exact others
  | cons c front ih =>
    obtain ⟨here, later⟩ := List.forall_mem_cons.1 blanks
    exact .blank here (ih later)

theorem ArrayBody.append_other {front rest tight : List Char} (solid : ∀ c ∈ front, isBlank c = false)
    (plain : ∀ c ∈ front, c ≠ '"' ∧ c ≠ '[' ∧ c ≠ ']') (others : ArrayBody rest tight) :
    ArrayBody (front ++ rest) (front ++ tight) := by
  induction front with
  | nil => exact others
  | cons c front ih =>
    obtain ⟨solidHere, solidLater⟩ := List.forall_mem_cons.1 solid
    obtain ⟨here, later⟩ := List.forall_mem_cons.1 plain
    exact .other solidHere here (ih solidLater later)

variable {text rest lexeme : List Char} {name : String}

theorem blanks_of_ws (takes : (recognizer "ws").length? (lexeme ++ rest) = some lexeme.length) :
    ∀ c ∈ lexeme, isBlank c = true := by
  have within : (recognizer "ws").Within (fun c => isBlank c = true) := by
    simp [recognizer, many, Within, contains_blank]
  exact length?_within within takes

theorem ordinary_of_chars
    (takes : (recognizer "chars").length? (lexeme ++ rest) = some lexeme.length) :
    ∀ c ∈ lexeme, c ≠ '"' ∧ c ≠ '\\' := by
  have noQuote : ∀ c ∈ lexeme, c ≠ '"' := ne_of_avoids (by decide) takes
  have noSlash : ∀ c ∈ lexeme, c ≠ '\\' := ne_of_avoids (by decide) takes
  exact fun c member => ⟨noQuote c member, noSlash c member⟩

/-- An escape is a backslash, a character, and others that stand for themselves. -/
theorem escape_cases (takes : (recognizer "escape").length? (lexeme ++ rest) = some lexeme.length) :
    ∃ c tail, lexeme = '\\' :: c :: tail ∧ ∀ d ∈ tail, d ≠ '"' ∧ d ≠ '\\' := by
  have slash : ∀ {c next}, next? escape c escape = some next → c = '\\' ∧
      next = .read escapeLetter (.accept .stop) (.read (.single 'u') (.exactly hexDigit 4) .stop) := by
    intro c next leads
    rw [escape, next?] at leads
    split at leads
    · next inside =>
      rw [CharSet.contains_single, decide_eq_true_eq] at inside
      exact ⟨inside, (Option.some.inj leads).symm⟩
    · cases leads
  rcases lexeme with _ | ⟨c, _ | ⟨d, tail⟩⟩
  · exact absurd takes (length?_ne_zero rfl _)
  · obtain ⟨next, leads, takes⟩ := length?_cons_iff.1 takes
    obtain ⟨_, rfl⟩ := slash leads
    exact absurd takes (length?_ne_zero rfl _)
  · obtain ⟨next, leads, takes⟩ := length?_cons_iff.1 takes
    obtain ⟨rfl, rfl⟩ := slash leads
    obtain ⟨last, leads, takes⟩ := length?_cons_iff.1 takes
    have avoids : last.avoids '"' = true ∧ last.avoids '\\' = true := by
      rw [next?] at leads
      split at leads
      · cases leads
        decide
      · rw [next?] at leads
        split at leads
        · cases leads
          decide
        · cases leads
    have noQuote : ∀ e ∈ tail, e ≠ '"' := ne_of_avoids avoids.1 takes
    have noSlash : ∀ e ∈ tail, e ≠ '\\' := ne_of_avoids avoids.2 takes
    exact ⟨d, tail, rfl, fun e member => ⟨noQuote e member, noSlash e member⟩⟩

/-- A token that stands by itself in an array has no blanks, quotes or brackets in it. -/
theorem solid_of_item (listed : name ∈ tokensIn (some .array))
    (takes : (recognizer name).length? (lexeme ++ rest) = some lexeme.length) :
    (∀ c ∈ lexeme, isBlank c = false) ∧ ∀ c ∈ lexeme, c ≠ '"' ∧ c ≠ '[' ∧ c ≠ ']' := by
  have avoids : ∀ n ∈ tokensIn (some .array),
      [' ', '\t', '\n', '\r', '"', '[', ']'].all (avoids · (recognizer n)) = true := by decide
  have other := fun x among => ne_of_avoids (List.all_eq_true.1 (avoids name listed) x among) takes
  constructor
  · intro c member
    simp [isBlank, other _ _ c member]
  · intro c member
    simp [other _ _ c member]

variable {s : Scanner} {hooks : Scanner.Hooks} {m : Mode} {below : List Nat} {place : Nat × Nat}
  {tokens : List Token}

theorem pick_cases {n best : Nat} {action : ScanAction Nat} {rules : List (String × ScanAction Nat)}
    (picked : pick text best rules = some (n, name, action)) :
    best < n ∧ (name, action) ∈ rules ∧ (recognizer name).length? text = some n := by
  induction rules generalizing best with
  | nil => cases picked
  | cons rule rules ih =>
    rw [pick] at picked
    have later : ∀ best', best ≤ best' → pick text best' rules = some (n, name, action) →
        best < n ∧ (name, action) ∈ rule :: rules ∧ (recognizer name).length? text = some n := by
      intro best' most picked
      obtain ⟨longer, listed, takes⟩ := ih picked
      exact ⟨Nat.lt_of_le_of_lt most longer, List.mem_cons_of_mem _ listed, takes⟩
    split at picked
    · next k takes =>
      split at picked
      · next longer =>
        cases after : pick text k rules with
        | some result =>
          rw [after] at picked
          cases picked
          exact later k (Nat.le_of_lt longer) after
        | none =>
          rw [after] at picked
          cases picked
          exact ⟨longer, List.mem_cons_self, takes⟩
      · exact later best (Nat.le_refl best) picked
    · exact later best (Nat.le_refl best) picked

/-- A scan that succeeds takes a match, and goes on behind it. -/
theorem IsScanner.step_of_ok (standard : IsScanner s) {c : Char}
    (scanned : s.scanFrom hooks (m.place :: below) place (c :: text) = .ok tokens) :
    ∃ name action lexeme rest stack depth others, c :: text = lexeme ++ rest ∧
      rest.length < (c :: text).length ∧ lexeme ≠ [] ∧ (name, action) ∈ m.rules ∧
      (recognizer name).length? (lexeme ++ rest) = some lexeme.length ∧
      s.act (m.place :: below) action = some (stack, depth) ∧
      s.scanFrom hooks stack (advance place lexeme) rest = .ok others ∧
      tokens = if action = .skip then others else emit hooks depth place name lexeme :: others := by
  have longest := standard.longest? m below (c :: text)
  rw [Scanner.scanFrom.eq_def] at scanned
  dsimp only at scanned
  cases found : s.longest? (m.place :: below) (c :: text) with
  | none =>
    rw [found] at scanned
    cases scanned
  | some result =>
    obtain ⟨n, rule⟩ := result
    rw [found, Option.map_some] at longest
    rw [found] at scanned
    obtain ⟨positive, listed, takes⟩ := pick_cases longest.symm
    obtain ⟨n, rfl⟩ : ∃ k, n = k + 1 := ⟨n - 1, by omega⟩
    have inside : n ≤ text.length := Nat.le_of_succ_le_succ (length?_le takes)
    dsimp only at scanned
    cases acts : s.act (m.place :: below) rule.action with
    | none =>
      rw [acts] at scanned
      cases scanned
    | some result =>
      obtain ⟨stack, depth⟩ := result
      rw [acts] at scanned
      dsimp only at scanned
      rw [Nat.add_sub_cancel] at scanned
      cases later : s.scanFrom hooks stack (advance place (c :: text.take n)) (text.drop n) with
      | error e =>
        rw [later] at scanned
        cases scanned
      | ok others =>
        rw [later] at scanned
        have split : c :: text = (c :: text.take n) ++ text.drop n := by
          rw [List.cons_append, List.take_append_drop]
        have shorter : (text.drop n).length < (c :: text).length :=
          Nat.lt_succ_of_le (List.drop_sublist n text).length_le
        refine ⟨rule.terminal, rule.action, c :: text.take n, text.drop n, stack, depth, others, split,
          shorter, List.cons_ne_nil _ _, listed, ?_, acts, later, ?_⟩
        · rw [← split, List.length_cons, List.length_take_of_le inside]
          exact takes
        · change (if rule.action = .skip then Except.ok others
            else Except.ok (emit hooks depth place rule.terminal (c :: text.take n) :: others)) =
              .ok tokens at scanned
          split at scanned
          · next skips => rw [if_pos skips, Except.ok.inj scanned]
          · next keeps => rw [if_neg keeps, Except.ok.inj scanned]

theorem below_of_ok (scanned : s.scanFrom hooks (m.place :: below) place [] = .ok tokens) :
    below = [] ∧ tokens = [] := by
  rw [Scanner.scanFrom] at scanned
  split at scanned
  · cases scanned
  · next few =>
    refine ⟨?_, (Except.ok.inj scanned).symm⟩
    cases below with
    | nil => rfl
    | cons b below => simp at few

theorem act_pop {stack : List Nat} {depth : Nat}
    (acts : s.act (m.place :: below) .pop = some (stack, depth)) : stack = below := by
  cases below with
  | nil => cases acts
  | cons b below =>
    cases acts
    rfl

/-- The text of the tokens of pieces. -/
def letters (ps : List Piece) : List Char := (rawAll ps).flatMap lettersOf

/-- What is scanned after an opening token: pieces of which something holds with their text, a
closing token, and what is scanned after it in the modes below. -/
inductive Closes (s : Scanner) (hooks : Scanner.Hooks) (below : List Nat) (k : Group)
    (bracket : Char) (holds : List Piece → List Char → Prop) : List Char → List Token → Prop
  | intro {ps : List Piece} {body rest : List Char} {closing : Token} {others : List Token}
      {place : Nat × Nat} (inside : holds ps body) (named : closing.name = k.closing)
      (spelled : lettersOf closing = [bracket])
      (scanned : s.scanFrom hooks below place rest = .ok others) :
      Closes s hooks below k bracket holds (body ++ bracket :: rest) (rawAll ps ++ closing :: others)

/-- Pieces before others. -/
theorem Closes.cons {k : Group} {bracket : Char} {holds : List Piece → List Char → Prop}
    (qs : List Piece) (extends' : ∀ ps body, holds ps body → holds (qs ++ ps) (lexeme ++ body))
    (closes : Closes s hooks below k bracket holds text tokens) :
    Closes s hooks below k bracket holds (lexeme ++ text) (rawAll qs ++ tokens) := by
  obtain ⟨inside, named, spelled, scanned⟩ := closes
  rw [← List.append_assoc, ← List.append_assoc, ← rawAll_append]
  exact .intro (extends' _ _ inside) named spelled scanned

/-- A group before others. -/
theorem Closes.group {k k' : Group} {bracket bracket' front : Char}
    {holds holds' : List Piece → List Char → Prop} {opening : Token}
    (extends' : ∀ inside body closing ps outer, closing.name = k'.closing →
      lettersOf closing = [bracket'] → holds' inside body → holds ps outer →
        holds (.group k' opening inside closing :: ps) (front :: (body ++ bracket' :: outer)))
    {stack : List Nat} (closes : Closes s hooks stack k' bracket' holds' text tokens)
    (continues : ∀ {rest others place}, rest.length < text.length →
      s.scanFrom hooks stack place rest = .ok others →
        Closes s hooks below k bracket holds rest others) :
    Closes s hooks below k bracket holds (front :: text) (opening :: tokens) := by
  obtain @⟨inside, body, rest, closing, others, place, within, named, spelled, scanned⟩ := closes
  have shorter : rest.length < (body ++ bracket' :: rest).length := by
    rw [List.length_append, List.length_cons]
    omega
  have outer := continues shorter scanned
  have whole : Closes s hooks below k bracket holds ((front :: (body ++ [bracket'])) ++ rest)
      (rawAll [.group k' opening inside closing] ++ others) := by
    refine outer.cons _ fun ps outer holds => ?_
    have joined := extends' inside body closing ps outer named spelled within holds
    simpa using joined
  simpa [rawAll, Piece.raw] using whole

/-- The pieces of a string between its quotes. -/
structure Glyphs (k : Group) (ps : List Piece) (body : List Char) : Prop where
  fit : Fit (some k) ps
  written : StringBody body
  spelled : letters ps = body
  empty : body = [] → ps = []

/-- The pieces of an array between its brackets. -/
structure Entries (k : Group) (ps : List Piece) (body : List Char) : Prop where
  fit : Fit (some k) ps
  written : ArrayBody body (letters ps)
  empty : letters ps = [] → ps = []

theorem lettersOf_emit (makes : Makes (emit hooks)) (depth : Nat) (place : Nat × Nat)
    (name : String) (text : List Char) : lettersOf (emit hooks depth place name text) = text := by
  rw [lettersOf, makes.lexeme, String.toList_ofList]

theorem letters_token (t : Token) (ps : List Piece) :
    letters (.token t :: ps) = lettersOf t ++ letters ps := rfl

theorem letters_group (k : Group) (opening : Token) (inside : List Piece) (closing : Token)
    (ps : List Piece) : letters (.group k opening inside closing :: ps) =
      lettersOf opening ++ (letters inside ++ (lettersOf closing ++ letters ps)) := by
  simp [letters, rawAll, Piece.raw]

theorem Glyphs.cons (makes : Makes (emit hooks)) {r : Region} {ps : List Piece}
    {body : List Char} (listed : name ∈ tokensIn (some r.string)) (visible : lexeme ≠ [])
    (extends' : StringBody body → StringBody (lexeme ++ body)) (depth : Nat) (place : Nat × Nat)
    (glyphs : Glyphs r.string ps body) :
    Glyphs r.string (.token (emit hooks depth place name lexeme) :: ps) (lexeme ++ body) where
  fit := by
    have other : name ≠ "lbrace" := by
      rintro rfl
      cases r <;> exact absurd listed (by decide)
    exact fit_token makes listed other depth place lexeme glyphs.fit
  written := extends' glyphs.written
  spelled := by rw [letters_token, lettersOf_emit makes, glyphs.spelled]
  empty blank := absurd (List.append_eq_nil_iff.1 blank).1 visible

theorem Region.string_rules (r : Region) : ∀ rule ∈ r.stringMode.rules,
    rule = ("chars", .emit) ∨ rule = ("escape", .emit) ∨ rule = (r.string.closing, .pop) := by
  cases r <;> decide

/-- A string is scanned up to the next quote. -/
theorem IsScanner.closes_string (standard : IsScanner s) (makes : Makes (emit hooks)) :
    ∀ (size : Nat) (r : Region) {below : List Nat} {text : List Char} {place : Nat × Nat}
      {tokens : List Token}, text.length ≤ size → below ≠ [] →
        s.scanFrom hooks (r.stringMode.place :: below) place text = .ok tokens →
          Closes s hooks below r.string '"' (Glyphs r.string) text tokens
  | _, _, _, [], _, _, _, more, scanned => absurd (below_of_ok scanned).1 more
  | size + 1, r, below, c :: text, place, tokens, bound, more, scanned => by
    obtain ⟨name, action, lexeme, rest, stack, depth, others, split, shorter, visible, listed, takes,
      acts, later, rfl⟩ := standard.step_of_ok scanned
    have short : rest.length ≤ size := Nat.le_of_lt_succ (Nat.lt_of_lt_of_le shorter bound)
    rw [split]
    rcases r.string_rules _ listed with same | same | same
    · cases same
      cases acts
      have closes := closes_string standard makes size r short more later
      refine closes.cons [.token _] fun ps body glyphs => ?_
      refine glyphs.cons makes (by cases r <;> decide) visible (fun written => ?_) _ _
      exact written.append_plain (ordinary_of_chars takes)
    · cases same
      cases acts
      have closes := closes_string standard makes size r short more later
      refine closes.cons [.token _] fun ps body glyphs => ?_
      refine glyphs.cons makes (by cases r <;> decide) visible (fun written => ?_) _ _
      obtain ⟨d, tail, rfl, plain⟩ := escape_cases takes
      exact .escaped d (written.append_plain plain)
    · cases same
      cases act_pop acts
      have quote : recognizer r.string.closing = word ['"'] := by cases r <;> rfl
      rw [quote] at takes
      obtain rfl := eq_of_word takes
      have inside : Glyphs r.string [] [] := ⟨trivial, .nil, rfl, fun _ => rfl⟩
      exact Closes.intro inside (makes.name _ _ _ _) (lettersOf_emit makes _ _ _ _) later

section

variable {r : Region} {ps : List Piece} {body : List Char}

theorem Entries.blanks (blanks : ∀ c ∈ lexeme, isBlank c = true) (entries : Entries r.array ps body) :
    Entries r.array ps (lexeme ++ body) :=
  ⟨entries.fit, entries.written.append_blanks blanks, entries.empty⟩

theorem Entries.token (makes : Makes (emit hooks)) (listed : name ∈ tokensIn (some .array))
    (visible : lexeme ≠ [])
    (takes : (recognizer name).length? (lexeme ++ rest) = some lexeme.length) (depth : Nat)
    (place : Nat × Nat) (entries : Entries r.array ps body) :
    Entries r.array (.token (emit hooks depth place name lexeme) :: ps) (lexeme ++ body) := by
  obtain ⟨solid, plain⟩ := solid_of_item listed takes
  have other : name ≠ "lbrace" := by
    rintro rfl
    exact absurd listed (by decide)
  have among : name ∈ tokensIn (some r.array) := by cases r <;> exact listed
  refine ⟨fit_token makes among other depth place lexeme entries.fit, ?_, fun empty => ?_⟩
  · rw [letters_token, lettersOf_emit makes]
    exact entries.written.append_other solid plain
  · rw [letters_token, lettersOf_emit makes] at empty
    exact absurd (List.append_eq_nil_iff.1 empty).1 visible

theorem Entries.group {k : Group} {opening closing : Token} {inside : List Piece} {left right : Char}
    (among : k ∈ groupsIn (some r.array))
    (opens : opening.name = k.opening ∧ lettersOf opening = [left]) (named : closing.name = k.closing)
    (spelled : lettersOf closing = [right]) (fit : Fit (some k) inside) {text : List Char}
    (written : ArrayBody (left :: text) (left :: (letters inside ++ right :: letters ps)))
    (entries : Entries r.array ps body) :
    Entries r.array (.group k opening inside closing :: ps) (left :: text) := by
  have spells : letters (.group k opening inside closing :: ps) =
      left :: (letters inside ++ right :: letters ps) := by
    rw [letters_group, opens.2, spelled]
    rfl
  refine ⟨⟨⟨among, opens.1, named, fit⟩, trivial, entries.fit⟩, ?_, fun empty => ?_⟩
  · rw [spells]
    exact written
  · rw [spells] at empty
    cases empty

theorem Entries.string {opening closing : Token} {inside : List Piece} {inner : List Char}
    (opens : opening.name = "item_quote" ∧ lettersOf opening = ['"'])
    (named : closing.name = "item_quote") (spelled : lettersOf closing = ['"'])
    (glyphs : Glyphs .itemString inside inner) (entries : Entries r.array ps body) :
    Entries r.array (.group .itemString opening inside closing :: ps) ('"' :: (inner ++ '"' :: body)) := by
  refine entries.group (by cases r <;> decide) opens named spelled glyphs.fit ?_
  rw [glyphs.spelled]
  exact .string glyphs.written entries.written

theorem Entries.array {opening closing : Token} {inside : List Piece} {inner : List Char}
    (opens : opening.name = "item_lbracket" ∧ lettersOf opening = ['['])
    (named : closing.name = "item_rbracket") (spelled : lettersOf closing = [']'])
    (within : Entries .itemArray inside inner) (entries : Entries r.array ps body) :
    Entries r.array (.group .itemArray opening inside closing :: ps) ('[' :: (inner ++ ']' :: body)) :=
  entries.group (by cases r <;> decide) opens named spelled within.fit
    (.array within.written entries.written)

end

theorem Region.array_rules (r : Region) : ∀ rule ∈ r.arrayMode.rules,
    rule = ("ws", .skip) ∨ rule = ("item_quote", .push Region.item.stringMode.place) ∨
      rule = ("item_lbracket", .push Region.item.arrayMode.place) ∨ rule = (r.array.closing, .pop) ∨
        rule.1 ∈ tokensIn (some .array) ∧ rule.2 = .emit := by
  cases r <;> decide

/-- An array is scanned up to the bracket that belongs to its first one. -/
theorem IsScanner.closes_array (standard : IsScanner s) (makes : Makes (emit hooks)) :
    ∀ (size : Nat) (r : Region) {below : List Nat} {text : List Char} {place : Nat × Nat}
      {tokens : List Token}, text.length ≤ size → below ≠ [] →
        s.scanFrom hooks (r.arrayMode.place :: below) place text = .ok tokens →
          Closes s hooks below r.array ']' (Entries r.array) text tokens
  | _, _, _, [], _, _, _, more, scanned => absurd (below_of_ok scanned).1 more
  | size + 1, r, below, c :: text, place, tokens, bound, more, scanned => by
    obtain ⟨name, action, lexeme, rest, stack, depth, others, split, shorter, visible, listed, takes,
      acts, later, rfl⟩ := standard.step_of_ok scanned
    have short : rest.length ≤ size := Nat.le_of_lt_succ (Nat.lt_of_lt_of_le shorter bound)
    rw [split]
    rcases r.array_rules _ listed with same | same | same | same | ⟨item, emits⟩
    · cases same
      cases acts
      have closes := closes_array standard makes size r short more later
      exact closes.cons [] fun ps body entries => entries.blanks (blanks_of_ws takes)
    · cases same
      cases acts
      obtain rfl : lexeme = ['"'] := eq_of_word takes
      have closes := standard.closes_string makes size .item short (List.cons_ne_nil _ _) later
      refine closes.group (fun inside body closing ps outer named spelled glyphs entries => ?_)
        fun shorter => closes_array standard makes size r
          (Nat.le_trans (Nat.le_of_lt shorter) short) more
      exact entries.string ⟨makes.name _ _ _ _, lettersOf_emit makes _ _ _ _⟩ named spelled glyphs
    · cases same
      cases acts
      obtain rfl : lexeme = ['['] := eq_of_word takes
      have closes := closes_array standard makes size .item short (List.cons_ne_nil _ _) later
      refine closes.group (fun inside body closing ps outer named spelled within entries => ?_)
        fun shorter => closes_array standard makes size r
          (Nat.le_trans (Nat.le_of_lt shorter) short) more
      exact within.array ⟨makes.name _ _ _ _, lettersOf_emit makes _ _ _ _⟩ named spelled entries
    · cases same
      cases act_pop acts
      have bracket : recognizer r.array.closing = word [']'] := by cases r <;> rfl
      rw [bracket] at takes
      obtain rfl := eq_of_word takes
      have inside : Entries r.array [] [] := ⟨trivial, .nil, fun _ => rfl⟩
      exact Closes.intro inside (makes.name _ _ _ _) (lettersOf_emit makes _ _ _ _) later
    · cases emits
      cases acts
      have closes := closes_array standard makes size r short more later
      exact closes.cons [.token _] fun ps body entries => entries.token makes item visible takes _ _

end AttrGrammar.Procedure
