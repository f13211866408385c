import AttrGrammar.Proofs.Json.Reading
import AttrGrammar.Proofs.Procedure.Pieces

/-!
Scanning the text of a JSON value.

At each place of a JSON text the next character leaves one terminal to scan, or a quote that may
begin a special form. So the tokens of a written value are known from its parts, whatever follows
it, and an object inside an array stops the scanner.
-/

namespace AttrGrammar.Procedure

open Recognizer
open Scanner (advance advance_append)
open Json (Blanks Solid Written Items Members Glyph Literal Numeral isBlank comma)

/-- The longest match of some terminals at the start of a text, the first of equally long ones. Only
matches longer than `best` count. -/
def pick (text : List Char) : Nat → List (String × ScanAction Nat) →
    Option (Nat × String × ScanAction Nat)
  | _, [] => none
  | best, rule :: rest =>
    match (recognizer rule.1).length? text with
    | some n => if n > best then pick text n rest <|> some (n, rule) else pick text best rest
    | none => pick text best rest

theorem longestFrom_eq {text : List Char} {rules : List ScanRule}
    (measures : ∀ rule ∈ rules, rule.matcher.measures (recognizer rule.terminal) = true) :
    ∀ best, (Scanner.longestFrom text best rules).map
        (fun (n, rule) => (n, rule.terminal, rule.action)) =
      pick text best (rules.map fun rule => (rule.terminal, rule.action)) := by
  induction rules with
  | nil => intro best; rfl
  | cons rule rules ih =>
    intro best
    have later := ih fun rule member => measures rule (List.mem_cons_of_mem _ member)
    rw [Scanner.longestFrom, List.map_cons, pick,
      Matcher.length?_eq (measures rule List.mem_cons_self)]
    cases (recognizer rule.terminal).length? text with
    | none => exact later best
    | some n =>
      dsimp only
      split
      · rw [← later n]
        cases Scanner.longestFrom text n rules <;> rfl
      · exact later best

/-- Whether a terminal can begin with a character. -/
def canBegin (c : Char) (rule : String × ScanAction Nat) : Bool :=
  (next? (recognizer rule.1) c (recognizer rule.1)).isSome

/-- Terminals that cannot begin with the first character play no part. -/
theorem pick_filter {c : Char} {rest : List Char} {rules : List (String × ScanAction Nat)}
    (visible : ∀ rule ∈ rules, (recognizer rule.1).accepts = false) :
    ∀ best, pick (c :: rest) best rules = pick (c :: rest) best (rules.filter (canBegin c)) := by
  induction rules with
  | nil => intro best; rfl
  | cons rule rules ih =>
    intro best
    have later := ih fun rule member => visible rule (List.mem_cons_of_mem _ member)
    rw [List.filter_cons]
    by_cases begins : canBegin c rule = true
    · rw [if_pos begins, pick, pick, later best]
      cases (recognizer rule.1).length? (c :: rest) with
      | none => rfl
      | some n => simp only [later n]
    · have leads : next? (recognizer rule.1) c (recognizer rule.1) = none := by
        simpa [canBegin] using begins
      rw [if_neg begins, pick, length?_none leads (visible rule List.mem_cons_self)]
      exact later best

theorem Mode.visible (m : Mode) : ∀ rule ∈ m.rules, (recognizer rule.1).accepts = false := by
  cases m <;> decide

/-- A terminal that no other shares the first character with is picked. -/
theorem pick_only {m : Mode} {c : Char} {rest : List Char} {name : String}
    {action : ScanAction Nat} {n : Nat} (only : m.rules.filter (canBegin c) = [(name, action)])
    (takes : (recognizer name).length? (c :: rest) = some (n + 1)) :
    pick (c :: rest) 0 m.rules = some (n + 1, name, action) := by
  rw [pick_filter m.visible, only, pick, takes]
  rfl

theorem pick_none {m : Mode} {c : Char} (stuck : m.rules.filter (canBegin c) = [])
    (rest : List Char) : pick (c :: rest) 0 m.rules = Option.none := by
  rw [pick_filter m.visible, stuck]
  rfl

variable {s : Scanner} {hooks : Scanner.Hooks}

theorem IsScanner.top? (standard : IsScanner s) (m : Mode) (below : List Nat) :
    ∃ mode ∈ s.modes, s.top? (m.place :: below) = some mode ∧
      s.modes[m.place]? = some mode ∧ outlineOf mode = (m.name, m.nesting, m.rules) := by
  have listed : (s.modes.map outlineOf)[m.place]? = some (m.name, m.nesting, m.rules) := by
    rw [standard.modes]
    cases m <;> rfl
  rw [List.getElem?_map, Option.map_eq_some_iff] at listed
  obtain ⟨mode, found, outline⟩ := listed
  exact ⟨mode, List.mem_of_getElem? found, found, found, outline⟩

theorem IsScanner.longest? (standard : IsScanner s) (m : Mode) (below : List Nat)
    (text : List Char) :
    (s.longest? (m.place :: below) text).map (fun (n, rule) => (n, rule.terminal, rule.action)) =
      pick text 0 m.rules := by
  obtain ⟨mode, member, top, _, outline⟩ := standard.top? m below
  have rules : mode.rules.map (fun rule => (rule.terminal, rule.action)) = m.rules :=
    congrArg (·.2.2) outline
  rw [Scanner.longest?, top, Option.bind_some, longestFrom_eq (standard.measures mode member), rules]

theorem IsScanner.depth_cons (standard : IsScanner s) (m : Mode) (below : List Nat) :
    s.depth (m.place :: below) = s.depth below + if m.nesting then 1 else 0 := by
  obtain ⟨mode, _, _, found, outline⟩ := standard.top? m below
  have nesting : mode.nesting = m.nesting := congrArg (·.2.1) outline
  rw [Scanner.depth, List.countP_cons, ← Scanner.depth, found, ← nesting]

/-- The token of a piece of text. -/
def emit (hooks : Scanner.Hooks) (depth : Nat) (place : Nat × Nat) (name : String)
    (text : List Char) : Token :=
  hooks { name, lexeme := String.ofList text } { line := place.1, column := place.2, depth }

/-- Scanning a text, with some rest behind it, gives some tokens and comes to a stack of modes. -/
def Scans (s : Scanner) (hooks : Scanner.Hooks) (stack stack' : List Nat) (text rest : List Char)
    (tokens : Nat × Nat → List Token) : Prop :=
  ∀ place, s.scanFrom hooks stack place (text ++ rest) =
    (s.scanFrom hooks stack' (advance place text) rest).map (tokens place ++ ·)

/-- Scanning a text fails, whatever comes behind it. -/
def Fails (s : Scanner) (hooks : Scanner.Hooks) (stack : List Nat) (text : List Char) : Prop :=
  ∀ place rest, ∃ e, s.scanFrom hooks stack place (text ++ rest) = .error e

variable {stack stack' stack'' : List Nat} {first second text rest : List Char}

theorem Scans.nil : Scans s hooks stack stack [] rest fun _ => [] := by
  intro place
  show s.scanFrom hooks stack place rest = (s.scanFrom hooks stack place rest).map ([] ++ ·)
  cases s.scanFrom hooks stack place rest <;> rfl

theorem Scans.append {tokens more : Nat × Nat → List Token}
    (before : Scans s hooks stack stack' first (second ++ rest) tokens)
    (after : Scans s hooks stack' stack'' second rest more) :
    Scans s hooks stack stack'' (first ++ second) rest
      fun place => tokens place ++ more (advance place first) := by
  intro place
  rw [List.append_assoc, before place, after, advance_append]
  cases s.scanFrom hooks stack'' (advance (advance place first) second) rest with
  | error e => rfl
  | ok tokens => simp [Except.map]

theorem Scans.congr {tokens more : Nat × Nat → List Token}
    (scans : Scans s hooks stack stack' text rest tokens) (same : ∀ place, tokens place = more place) :
    Scans s hooks stack stack' text rest more := by
  intro place
  rw [← same place]
  exact scans place

theorem Fails.after {tokens : Nat × Nat → List Token}
    (before : ∀ rest, Scans s hooks stack stack' first (second ++ rest) tokens)
    (fails : Fails s hooks stack' second) : Fails s hooks stack (first ++ second) := by
  intro place rest
  obtain ⟨e, stops⟩ := fails (advance place first) rest
  refine ⟨e, ?_⟩
  rw [List.append_assoc, before rest place, stops]
  rfl

theorem Fails.before (fails : Fails s hooks stack first) (second : List Char) :
    Fails s hooks stack (first ++ second) := by
  intro place rest
  rw [List.append_assoc]
  exact fails place (second ++ rest)

/-- One match, and what is scanned after it. -/
theorem IsScanner.scanFrom_cons (standard : IsScanner s) {m : Mode} {below : List Nat} {c : Char}
    {name : String} {action : ScanAction Nat} {depth : Nat}
    (picked : pick (c :: (text ++ rest)) 0 m.rules = some (text.length + 1, name, action))
    (acts : s.act (m.place :: below) action = some (stack', depth)) (place : Nat × Nat) :
    s.scanFrom hooks (m.place :: below) place (c :: (text ++ rest)) =
      (s.scanFrom hooks stack' (advance place (c :: text)) rest).map fun others =>
        if action = .skip then others else emit hooks depth place name (c :: text) :: others := by
  have longest := standard.longest? m below (c :: (text ++ rest))
  rw [picked, Option.map_eq_some_iff] at longest
  obtain ⟨⟨n, rule⟩, found, same⟩ := longest
  simp only [Prod.mk.injEq] at same
  obtain ⟨rfl, rfl, rfl⟩ := same
  rw [Scanner.scanFrom.eq_def]
  simp only [found, acts, Nat.add_sub_cancel, List.take_left, List.drop_left]
  cases s.scanFrom hooks stack' (advance place (c :: text)) rest with
  | error e => rfl
  | ok others =>
    show (if rule.action = .skip then _ else _) = Except.ok _
    split <;> rfl

/-- A match that keeps a token. -/
theorem IsScanner.scans (standard : IsScanner s) {m : Mode} {below : List Nat} {c : Char}
    {name : String} {action : ScanAction Nat} {depth : Nat} (kept : action ≠ .skip)
    (acts : s.act (m.place :: below) action = some (stack', depth))
    (picked : pick (c :: (text ++ rest)) 0 m.rules = some (text.length + 1, name, action)) :
    Scans s hooks (m.place :: below) stack' (c :: text) rest
      fun place => [emit hooks depth place name (c :: text)] := by
  intro place
  rw [List.cons_append, standard.scanFrom_cons picked acts]
  simp only [if_neg kept]
  rfl

/-- Blanks leave no token. -/
theorem IsScanner.scans_blanks (standard : IsScanner s) {m : Mode} {below : List Nat}
    (skips : ∀ c, isBlank c = true → m.rules.filter (canBegin c) = [("ws", .skip)]) (b : Blanks)
    (solid : Solid rest) :
    Scans s hooks (m.place :: below) (m.place :: below) b.1 rest fun _ => [] := by
  obtain ⟨text, blanks⟩ := b
  cases text with
  | nil => exact Scans.nil
  | cons c text =>
    intro place
    have first := blanks c List.mem_cons_self
    have takes : (recognizer "ws").length? (c :: (text ++ rest)) = some (text.length + 1) := by
      apply length?_many
      · rw [contains_blank, first]
      · intro d member
        rw [contains_blank, blanks d (List.mem_cons_of_mem c member)]
      · intro d head
        rw [contains_blank, solid d head]
    rw [List.cons_append, standard.scanFrom_cons (pick_only (skips c first) takes) rfl]
    rfl

theorem digit_cases {c : Char} (isDigit : c.isDigit = true) :
    c ∈ ['0', '1', '2', '3', '4', '5', '6', '7', '8', '9'] := by
  simp only [Char.isDigit, Bool.and_eq_true, decide_eq_true_eq] at isDigit
  have low : 48 ≤ c.toNat := isDigit.1
  have high : c.toNat ≤ 57 := isDigit.2
  have same : ∀ d : Char, c.toNat = d.toNat → c = d := fun d => Char.toNat_inj.1
  have cases : c.toNat = 48 ∨ c.toNat = 49 ∨ c.toNat = 50 ∨ c.toNat = 51 ∨ c.toNat = 52 ∨
      c.toNat = 53 ∨ c.toNat = 54 ∨ c.toNat = 55 ∨ c.toNat = 56 ∨ c.toNat = 57 := by
    omega
  rcases cases with h | h | h | h | h | h | h | h | h | h
  · simp [same '0' h]
  · simp [same '1' h]
  · simp [same '2' h]
  · simp [same '3' h]
  · simp [same '4' h]
  · simp [same '5' h]
  · simp [same '6' h]
  · simp [same '7' h]
  · simp [same '8' h]
  · simp [same '9' h]

theorem Region.filter_ordinary (r : Region) {c : Char} (isOrdinary : ordinary.contains c = true) :
    r.stringMode.rules.filter (canBegin c) = [("chars", .emit)] := by
  have notQuote : c ≠ '"' := by
    rintro rfl
    cases isOrdinary
  have notEscape : c ≠ '\\' := by
    rintro rfl
    cases isOrdinary
  cases r <;>
    simp [stringMode, Mode.rules, Mode.stringRules, List.filter, canBegin, recognizer, many, escape,
      word, next?, isOrdinary, notQuote, notEscape]

theorem Region.filter_escape (r : Region) :
    r.stringMode.rules.filter (canBegin '\\') = [("escape", .emit)] := by
  cases r <;> decide

theorem Region.filter_quote (r : Region) :
    r.stringMode.rules.filter (canBegin '"') = [(r.string.closing, .pop)] := by
  cases r <;> decide

/-- A text of pieces begins with its plain ones. -/
theorem textOf_run (glyphs : List Glyph) : Glyph.textOf glyphs =
    Glyph.textOf (glyphs.takeWhile isPlain) ++ Glyph.textOf (glyphs.dropWhile isPlain) := by
  rw [Glyph.textOf, Glyph.textOf, Glyph.textOf, ← List.flatMap_append,
    List.takeWhile_append_dropWhile]

theorem ordinary_of_run {glyphs : List Glyph} (readable : ∀ g ∈ glyphs, g.Readable) :
    ∀ d ∈ Glyph.textOf (glyphs.takeWhile isPlain), ordinary.contains d = true := by
  intro d member
  obtain ⟨g, among, inside⟩ := List.mem_flatMap.1 member
  have isPlain := List.all_eq_true.1 (@List.all_takeWhile _ isPlain glyphs) g among
  cases g with
  | escape letter => cases isPlain
  | unicode digits => cases isPlain
  | plain e =>
    rw [List.mem_singleton.1 inside]
    exact ordinary_of_readable (readable _ ((List.takeWhile_sublist _).subset among))

/-- What follows the plain pieces at the start of a string is an escape or the closing quote. -/
theorem not_ordinary_after_run {glyphs : List Glyph} {d : Char}
    (first : (Glyph.textOf (glyphs.dropWhile isPlain) ++ '"' :: rest).head? = some d) :
    ordinary.contains d = false := by
  cases after : glyphs.dropWhile isPlain with
  | nil =>
    rw [after] at first
    cases first
    rfl
  | cons g others =>
    have notPlain : isPlain g = false := by
      have head := List.head?_dropWhile_not isPlain glyphs
      rw [after] at head
      simpa using head
    rw [after, Glyph.textOf_cons] at first
    cases g with
    | plain e => cases notPlain
    | escape letter =>
      cases first
      rfl
    | unicode digits =>
      cases first
      rfl

/-- Plain pieces in a row are one token. -/
theorem IsScanner.scans_run (standard : IsScanner s) (r : Region) (below : List Nat) {c : Char}
    {glyphs : List Glyph} (here : (Glyph.plain c).Readable) (later : ∀ g ∈ glyphs, g.Readable) :
    Scans s hooks (r.stringMode.place :: below) (r.stringMode.place :: below)
      (c :: Glyph.textOf (glyphs.takeWhile isPlain))
      (Glyph.textOf (glyphs.dropWhile isPlain) ++ '"' :: rest)
      fun place => [emit hooks (s.depth (r.stringMode.place :: below)) place "chars"
        (c :: Glyph.textOf (glyphs.takeWhile isPlain))] := by
  have takes : (recognizer "chars").length?
      (c :: (Glyph.textOf (glyphs.takeWhile isPlain) ++
        (Glyph.textOf (glyphs.dropWhile isPlain) ++ '"' :: rest))) =
      some ((Glyph.textOf (glyphs.takeWhile isPlain)).length + 1) :=
    length?_many (ordinary_of_readable here) (ordinary_of_run later) fun _ => not_ordinary_after_run
  exact standard.scans (by decide) rfl
    (pick_only (r.filter_ordinary (ordinary_of_readable here)) takes)

/-- An escape is one token. -/
theorem IsScanner.scans_escape (standard : IsScanner s) (r : Region) (below : List Nat) {g : Glyph}
    (readable : g.Readable) (escapes : isPlain g = false) :
    Scans s hooks (r.stringMode.place :: below) (r.stringMode.place :: below) g.text rest
      fun place => [emit hooks (s.depth (r.stringMode.place :: below)) place "escape" g.text] := by
  have notPlain : ∀ c, g ≠ .plain c := by
    rintro c rfl
    cases escapes
  obtain ⟨tail, same⟩ := (text_cases g).resolve_left fun ⟨c, equal⟩ => notPlain c equal
  have takes : (recognizer "escape").length? ('\\' :: (tail ++ rest)) = some (tail.length + 1) := by
    have whole := escape_takes readable notPlain rest
    rw [same] at whole
    exact whole
  rw [same]
  exact standard.scans (by decide) rfl (pick_only r.filter_escape takes)

/-- The inside of a string, scanned piece by piece. -/
theorem IsScanner.scans_contents (standard : IsScanner s) (r : Region) (below : List Nat) :
    ∀ {glyphs : List Glyph}, (∀ g ∈ glyphs, g.Readable) →
      Scans s hooks (r.stringMode.place :: below) (r.stringMode.place :: below)
        (Glyph.textOf glyphs) ('"' :: rest)
        fun place => contents (emit hooks) (s.depth (r.stringMode.place :: below)) place glyphs
  | [], _ => Scans.nil.congr fun place => by rw [contents]
  | g :: glyphs, readable => by
    have here := readable g List.mem_cons_self
    have later := fun g member => readable g (List.mem_cons_of_mem _ member)
    cases plain : isPlain g with
    | true =>
      cases g with
      | escape letter => cases plain
      | unicode digits => cases plain
      | plain c =>
        have left : ∀ g ∈ glyphs.dropWhile isPlain, g.Readable :=
          fun g member => later g ((List.dropWhile_sublist _).subset member)
        have first : Scans s hooks _ _ _
            (Glyph.textOf (glyphs.dropWhile isPlain) ++ '"' :: rest) _ :=
          standard.scans_run r below here later
        have others := standard.scans_contents r below left
        rw [Glyph.textOf_cons, textOf_run glyphs]
        refine (first.append others).congr fun place => ?_
        rw [contents, if_pos plain]
        rfl
    | false =>
      have first : Scans s hooks _ _ _ (Glyph.textOf glyphs ++ '"' :: rest) _ :=
        standard.scans_escape r below here plain
      have others := standard.scans_contents r below later
      refine (first.append others).congr fun place => ?_
      rw [contents, if_neg (by simp [plain])]
      rfl
termination_by glyphs => glyphs.length
decreasing_by
  · exact Nat.lt_succ_self _
  · exact Nat.lt_succ_of_le (List.dropWhile_sublist _).length_le

/-- A string, once its opening quote is taken. -/
theorem IsScanner.scans_quoted (standard : IsScanner s) {m : Mode} {r : Region} (below : List Nat)
    (l : Literal)
    (picked : pick (l.text ++ rest) 0 m.rules =
      some (1, r.string.opening, .push r.stringMode.place)) :
    Scans s hooks (m.place :: below) (m.place :: below) l.text rest
      fun place => (quoted (emit hooks) r (s.depth (m.place :: below)) place l).raw := by
  have level : s.depth (r.stringMode.place :: m.place :: below) = s.depth (m.place :: below) := by
    rw [standard.depth_cons]
    cases r <;> rfl
  have first : pick ('"' :: ([] ++ ((l.body ++ ['"']) ++ rest))) 0 m.rules =
      some (([] : List Char).length + 1, r.string.opening, .push r.stringMode.place) := picked
  have opened : Scans s hooks (m.place :: below) (r.stringMode.place :: m.place :: below) ['"']
      ((l.body ++ ['"']) ++ rest) _ := standard.scans (by simp) rfl first
  have inside : Scans s hooks (r.stringMode.place :: m.place :: below) _ l.body ('"' :: rest) _ :=
    standard.scans_contents r (m.place :: below) (Glyph.readable_of_decode? l.spells)
  have quote : (recognizer r.string.closing).length? ('"' :: ([] ++ rest)) = some 1 := by
    cases r <;> exact length?_word ['"'] rest
  have closed : Scans s hooks (r.stringMode.place :: m.place :: below) (m.place :: below) ['"'] rest
      _ := standard.scans (by simp) rfl (pick_only r.filter_quote quote)
  refine (opened.append (inside.append closed)).congr fun place => ?_
  rw [quoted, Piece.raw, rawAll_tokens, level]
  rfl

/-- A quote that begins a member or a value begins a special form, or a string otherwise. -/
theorem pick_quote {m : Mode} (region : m.region? = some .member) (l : Literal)
    (rest : List Char) :
    pick (l.text ++ rest) 0 m.rules =
      if isForm l.body then some (l.text.length, formTerminal l.body, .emit)
      else some (1, "quote", .push Mode.string.place) := by
  have rules : m.rules.filter (canBegin '"') = [("let_form", .emit), ("ref_form", .emit),
      ("doc_form", .emit), ("unknown_form", .emit), ("quote", .push Mode.string.place)] := by
    cases m <;> first | (cases region; done) | decide
  have shape : l.text ++ rest = '"' :: (l.body ++ ['"'] ++ rest) := rfl
  have size : l.text.length = l.body.length + 2 := by
    simp [Literal.text]
  have letForm : (recognizer "let_form").length? (l.text ++ rest) =
      if l.body = ['&', 'l', 'e', 't'] then some l.text.length else none :=
    word_length? ['&', 'l', 'e', 't'] (by simp) l rest
  have refForm : (recognizer "ref_form").length? (l.text ++ rest) =
      if l.body = ['&', 'r', 'e', 'f'] then some l.text.length else none :=
    word_length? ['&', 'r', 'e', 'f'] (by simp) l rest
  have docForm : (recognizer "doc_form").length? (l.text ++ rest) =
      if l.body = ['&', 'd', 'o', 'c'] then some l.text.length else none :=
    word_length? ['&', 'd', 'o', 'c'] (by simp) l rest
  have unknown : (recognizer "unknown_form").length? (l.text ++ rest) =
      if isForm l.body then some l.text.length else none := form_length? l rest
  have quote : (recognizer "quote").length? (l.text ++ rest) = some 1 := length?_word ['"'] _
  have filtered : pick (l.text ++ rest) 0 m.rules =
      pick (l.text ++ rest) 0 (m.rules.filter (canBegin '"')) := pick_filter m.visible 0
  rw [filtered, rules]
  simp only [pick, letForm, refForm, docForm, unknown, quote, size, formTerminal]
  by_cases isLet : l.body = ['&', 'l', 'e', 't']
  · simp [isLet, show isForm ['&', 'l', 'e', 't'] = true by decide]
  · by_cases isRef : l.body = ['&', 'r', 'e', 'f']
    · simp [isRef, show isForm ['&', 'r', 'e', 'f'] = true by decide]
    · by_cases isDoc : l.body = ['&', 'd', 'o', 'c']
      · simp [isDoc, show isForm ['&', 'd', 'o', 'c'] = true by decide]
      · cases form : isForm l.body <;> simp [isLet, isRef, isDoc]

/-- A key or a string outside arrays may be a special form; inside it never is. -/
theorem IsScanner.scans_string (standard : IsScanner s) {m : Mode} {r : Region}
    (region : m.region? = some r) (below : List Nat) (l : Literal) :
    Scans s hooks (m.place :: below) (m.place :: below) l.text rest
      fun place => (stringPiece (emit hooks) r (s.depth (m.place :: below)) place l).raw := by
  cases r with
  | item =>
    have only : m.rules.filter (canBegin '"') = [("item_quote", .push Mode.itemString.place)] := by
      cases m <;> first | (cases region; done) | decide
    have takes : (recognizer "item_quote").length? (l.text ++ rest) = some (0 + 1) :=
      length?_word ['"'] _
    exact standard.scans_quoted below l (pick_only only takes)
  | member =>
    have picked := pick_quote region l rest
    simp only [stringPiece, true_and]
    by_cases form : isForm l.body = true
    · rw [if_pos form] at picked
      simp only [if_pos form]
      exact standard.scans (by simp) rfl picked
    · rw [if_neg form] at picked
      simp only [if_neg form]
      exact standard.scans_quoted below l picked

section regions

variable {m : Mode} {r : Region}

theorem filter_blank (region : m.region? = some r) (c : Char) (blank : isBlank c = true) :
    m.rules.filter (canBegin c) = [("ws", .skip)] := by
  simp only [isBlank, Bool.or_eq_true, decide_eq_true_eq] at blank
  rcases blank with ((rfl | rfl) | rfl) | rfl <;> cases m <;> cases region <;> decide

theorem filter_null (region : m.region? = some r) :
    m.rules.filter (canBegin 'n') = [(r.null, .emit)] := by
  cases m <;> cases region <;> decide

theorem filter_boolean (region : m.region? = some r) {c : Char} (begins : c = 't' ∨ c = 'f') :
    m.rules.filter (canBegin c) = [(r.boolean, .emit)] := by
  rcases begins with rfl | rfl <;> cases m <;> cases region <;> decide

theorem filter_number (region : m.region? = some r) {c : Char}
    (begins : c = '-' ∨ c.isDigit = true) :
    m.rules.filter (canBegin c) = [(r.number, .emit)] := by
  have listed : c ∈ ['-', '0', '1', '2', '3', '4', '5', '6', '7', '8', '9'] :=
    List.mem_cons.2 (begins.imp id digit_cases)
  have checked : ['-', '0', '1', '2', '3', '4', '5', '6', '7', '8', '9'].all
      (fun c => m.rules.filter (canBegin c) = [(r.number, .emit)]) = true := by
    cases m <;> cases region <;> decide
  exact of_decide_eq_true (List.all_eq_true.1 checked c listed)

theorem filter_bracket (region : m.region? = some r) :
    m.rules.filter (canBegin '[') = [(r.array.opening, .push r.arrayMode.place)] := by
  cases m <;> cases region <;> decide

theorem filter_divider (region : m.region? = some r) :
    m.rules.filter (canBegin ',') = [(r.divider, .emit)] := by
  cases m <;> cases region <;> decide

theorem filter_brace (region : m.region? = some .member) :
    m.rules.filter (canBegin '{') = [("lbrace", .push Mode.object.place)] := by
  cases m <;> cases region <;> decide

theorem filter_brace_item (region : m.region? = some .item) :
    m.rules.filter (canBegin '{') = [] := by
  cases m <;> cases region <;> decide

theorem Region.filter_closing (r : Region) :
    r.arrayMode.rules.filter (canBegin ']') = [(r.array.closing, .pop)] := by
  cases r <;> decide

theorem Region.region?_arrayMode (r : Region) : r.arrayMode.region? = some .item := by
  cases r <;> rfl

theorem Region.nesting_arrayMode (r : Region) : r.arrayMode.nesting = true := by
  cases r <;> rfl

end regions

/-- A character that is a terminal by itself. -/
theorem IsScanner.scans_char (standard : IsScanner s) {m : Mode} {below : List Nat} {c : Char}
    {name : String} {action : ScanAction Nat} {depth : Nat} (kept : action ≠ .skip)
    (acts : s.act (m.place :: below) action = some (stack', depth))
    (only : m.rules.filter (canBegin c) = [(name, action)]) (reads : recognizer name = word [c]) :
    Scans s hooks (m.place :: below) stack' [c] rest
      fun place => [emit hooks depth place name [c]] := by
  have takes : (recognizer name).length? (c :: ([] ++ rest)) = some (([] : List Char).length + 1) := by
    rw [reads]
    exact length?_word [c] rest
  exact standard.scans kept acts (pick_only only takes)

/-- What stands between two values. -/
theorem IsScanner.scans_separator (standard : IsScanner s) {m : Mode} {r : Region}
    (region : m.region? = some r) (below : List Nat) (gap lead : Blanks) (first : Bool)
    (solid : Solid rest) :
    Scans s hooks (m.place :: below) (m.place :: below) (gap.1 ++ (comma first ++ lead.1)) rest
      fun place => rawAll
        (divider (emit hooks) r first (s.depth (m.place :: below)) (advance place gap.1)) := by
  have blanks : ∀ (b : Blanks) {rest : List Char}, Solid rest →
      Scans s hooks (m.place :: below) (m.place :: below) b.1 rest fun _ => [] :=
    fun b _ solid => standard.scans_blanks (filter_blank region) b solid
  cases first with
  | true => exact (blanks (gap.append lead) solid).congr fun place => rfl
  | false =>
    have comma : Scans s hooks (m.place :: below) (m.place :: below) [','] (lead.1 ++ rest) _ :=
      standard.scans_char (by simp) rfl (filter_divider region) (by cases r <;> rfl)
    have before := blanks gap (Json.solid_cons (c := ',') rfl (lead.1 ++ rest))
    refine (before.append (comma.append (blanks lead solid))).congr fun place => ?_
    rfl

theorem Numeral.starts (n : Numeral) : ∃ c tail, n.text = c :: tail ∧ (c = '-' ∨ c.isDigit = true) := by
  obtain ⟨c, tail, same, digit⟩ := n.shape.starts
  rw [Numeral.text]
  split
  · exact ⟨'-', _, rfl, Or.inl rfl⟩
  · exact ⟨c, tail, same, Or.inr digit⟩

/-- The text of items with the first one apart, as it is scanned. -/
theorem items_text_apart (gap lead trail : Blanks) (item : Written) (others : Items) (first : Bool) :
    gap.1 ++ (Items.cons lead item trail others).text first =
      (gap.1 ++ (comma first ++ lead.1)) ++ (item.text ++ (trail.1 ++ others.text false)) := by
  simp [Items.text]

/-- The text of members with the first one apart, as it is scanned. -/
theorem members_text_apart (gap lead before after trail : Blanks) (key : Literal) (value : Written)
    (others : Members) (first : Bool) :
    gap.1 ++ (Members.cons lead key before after value trail others).text first =
      (gap.1 ++ (comma first ++ lead.1)) ++ (key.text ++ (before.1 ++ ([':'] ++ (after.1 ++
        (value.text ++ (trail.1 ++ others.text false)))))) := by
  simp [Members.text]

theorem rawAll_object (make : Maker) (r : Region) (depth : Nat) (place : Nat × Nat) (gap : Blanks)
    (members : Members) :
    rawAll ((Written.object gap members).pieces make r depth place) =
      make depth place "lbrace" ['{'] ::
        rawAll (members.pieces make true depth (advance place ('{' :: gap.1))) := by
  cases members <;> rfl

section

variable (standard : IsScanner s)
include standard

mutual

/-- A value without objects in arrays is scanned as its pieces. -/
theorem Written.scans : ∀ (w : Written) {m : Mode} {r : Region}, m.region? = some r →
    ∀ (below : List Nat) {rest : List Char}, w.plain r = true → Json.Ends rest →
      Scans s hooks (m.place :: below) (m.place :: below) w.text rest
        fun place => rawAll (w.pieces (emit hooks) r (s.depth (m.place :: below)) place)
  | .null, m, r, region, below, rest, _, _ => by
    have takes : (recognizer r.null).length? (['n', 'u', 'l', 'l'] ++ rest) = some 4 := by
      cases r <;> exact length?_word _ rest
    exact standard.scans (by simp) rfl (pick_only (filter_null region) takes)
  | .bool b, m, r, region, below, rest, _, _ => by
    cases b with
    | true =>
      have takes : (recognizer r.boolean).length? (['t', 'r', 'u', 'e'] ++ rest) = some 4 := by
        cases r <;> exact length?_step rfl (length?_word _ rest)
      exact standard.scans (by simp) rfl (pick_only (filter_boolean region (Or.inl rfl)) takes)
    | false =>
      have takes : (recognizer r.boolean).length? (['f', 'a', 'l', 's', 'e'] ++ rest) = some 5 := by
        cases r <;> exact length?_step rfl (length?_word _ rest)
      exact standard.scans (by simp) rfl (pick_only (filter_boolean region (Or.inr rfl)) takes)
  | .number n, m, r, region, below, rest, _, ends => by
    have takes : (recognizer r.number).length? (n.text ++ rest) = some n.text.length := by
      cases r <;> exact number_takes n ends
    obtain ⟨c, tail, same, begins⟩ := Numeral.starts n
    show Scans s hooks _ _ n.text rest fun place =>
      [emit hooks (s.depth (m.place :: below)) place r.number n.text]
    rw [same] at takes ⊢
    exact standard.scans (by simp) rfl (pick_only (filter_number region begins) takes)
  | .string l, m, r, region, below, rest, _, _ =>
    (standard.scans_string region below l).congr fun place => (List.append_nil _).symm
  | .array gap items, m, r, region, below, rest, plain, _ => by
    have opened : Scans s hooks (m.place :: below) (r.arrayMode.place :: m.place :: below) ['[']
        ((gap.1 ++ items.text true) ++ rest) _ :=
      standard.scans_char (by simp) rfl (filter_bracket region) (by cases r <;> rfl)
    have inside := Items.scans items true gap (m := m) r below rest plain
    refine (opened.append inside).congr fun place => ?_
    simp only [Written.pieces, rawAll, Piece.raw, List.append_nil, ← advance_append]
    rfl
  | .object gap members, m, r, region, below, rest, plain, _ => by
    simp only [Written.plain, Bool.and_eq_true, beq_iff_eq] at plain
    obtain ⟨rfl, plain⟩ := plain
    have opened : Scans s hooks (m.place :: below) (Mode.object.place :: m.place :: below) ['{']
        ((gap.1 ++ members.text true) ++ rest) _ :=
      standard.scans_char (by simp) rfl (filter_brace region) rfl
    have inside := Members.scans members true gap m below rest plain
    refine (opened.append inside).congr fun place => ?_
    rw [rawAll_object, ← advance_append]
    rfl

/-- Items are scanned after the blanks before them, up to the closing bracket. -/
theorem Items.scans : ∀ (items : Items) (first : Bool) (gap : Blanks) {m : Mode} (r : Region)
    (below : List Nat) (rest : List Char), items.plain = true →
      Scans s hooks (r.arrayMode.place :: m.place :: below) (m.place :: below)
        (gap.1 ++ items.text first) rest fun place =>
          rawAll (items.pieces (emit hooks) first (s.depth (m.place :: below) + 1)
            (advance place gap.1)) ++
          [emit hooks (s.depth (m.place :: below)) (advance place (gap.1 ++ items.body first))
            r.array.closing [']']]
  | .nil, first, gap, m, r, below, rest, _ => by
    have before : Scans s hooks (r.arrayMode.place :: m.place :: below) _ gap.1 ([']'] ++ rest) _ :=
      standard.scans_blanks (filter_blank r.region?_arrayMode) gap
        (Json.solid_cons (c := ']') rfl rest)
    have closed : Scans s hooks (r.arrayMode.place :: m.place :: below) (m.place :: below) [']']
        rest _ := standard.scans_char (by simp) rfl r.filter_closing (by cases r <;> rfl)
    refine (before.append closed).congr fun place => ?_
    rw [Items.body, List.append_nil]
    rfl
  | .cons lead item trail others, first, gap, m, r, below, rest, plain => by
    simp only [Items.plain, Bool.and_eq_true] at plain
    have level : s.depth (r.arrayMode.place :: m.place :: below) = s.depth (m.place :: below) + 1 := by
      rw [standard.depth_cons, r.nesting_arrayMode]
      rfl
    have solid : Solid ((item.text ++ (trail.1 ++ others.text false)) ++ rest) := by
      rw [List.append_assoc]
      exact item.solid _
    have ends : Json.Ends ((trail.1 ++ others.text false) ++ rest) := by
      rw [List.append_assoc]
      exact (others.ends rest).of_blanks trail
    have between : Scans s hooks (r.arrayMode.place :: m.place :: below) _ _ _ _ :=
      standard.scans_separator r.region?_arrayMode (m.place :: below) gap lead first solid
    have here := Written.scans item r.region?_arrayMode (m.place :: below) plain.1 ends
    have later := Items.scans others false trail (m := m) r below rest plain.2
    rw [items_text_apart]
    refine (between.append (here.append later)).congr fun place => ?_
    simp [Items.pieces, Items.body, rawAll_append, advance_append, level]

/-- Members are scanned after the blanks before them, up to the closing brace. -/
theorem Members.scans : ∀ (members : Members) (first : Bool) (gap : Blanks) (m : Mode)
    (below : List Nat) (rest : List Char), members.plain = true →
      Scans s hooks (Mode.object.place :: m.place :: below) (m.place :: below)
        (gap.1 ++ members.text first) rest fun place =>
          rawAll (members.pieces (emit hooks) first (s.depth (m.place :: below))
            (advance place gap.1))
  | .nil, first, gap, m, below, rest, _ => by
    have before : Scans s hooks (Mode.object.place :: m.place :: below) _ gap.1 (['}'] ++ rest) _ :=
      standard.scans_blanks (filter_blank rfl) gap (Json.solid_cons (c := '}') rfl rest)
    have closed : Scans s hooks (Mode.object.place :: m.place :: below) (m.place :: below) ['}']
        rest _ := standard.scans_char (by simp) rfl
          (by decide : _ = [("rbrace", ScanAction.pop)]) rfl
    exact (before.append closed).congr fun place => rfl
  | .cons lead key before after value trail others, first, gap, m, below, rest, plain => by
    simp only [Members.plain, Bool.and_eq_true] at plain
    have level : s.depth (Mode.object.place :: m.place :: below) = s.depth (m.place :: below) + 1 := by
      rw [standard.depth_cons]
      rfl
    have ends : Json.Ends ((trail.1 ++ others.text false) ++ rest) := by
      rw [List.append_assoc]
      exact (others.ends rest).of_blanks trail
    have solid : Solid ((value.text ++ (trail.1 ++ others.text false)) ++ rest) := by
      rw [List.append_assoc]
      exact value.solid _
    have between : Scans s hooks (Mode.object.place :: m.place :: below) _ _
        ((key.text ++ (before.1 ++ ([':'] ++ (after.1 ++ (value.text ++
          (trail.1 ++ others.text false)))))) ++ rest) _ :=
      standard.scans_separator (r := .member) rfl (m.place :: below) gap lead first
        (Json.solid_cons (c := '"') rfl _)
    have name : Scans s hooks (Mode.object.place :: m.place :: below) _ _
        ((before.1 ++ ([':'] ++ (after.1 ++ (value.text ++ (trail.1 ++ others.text false))))) ++
          rest) _ := standard.scans_string (r := .member) rfl (m.place :: below) key
    have beforeColon : Scans s hooks (Mode.object.place :: m.place :: below) _ before.1
        (([':'] ++ (after.1 ++ (value.text ++ (trail.1 ++ others.text false)))) ++ rest) _ :=
      standard.scans_blanks (filter_blank rfl) before (Json.solid_cons (c := ':') rfl _)
    have colon : Scans s hooks (Mode.object.place :: m.place :: below) _ [':']
        ((after.1 ++ (value.text ++ (trail.1 ++ others.text false))) ++ rest) _ :=
      standard.scans_char (m := .object) (by simp) rfl
        (by decide : _ = [("colon", ScanAction.emit)]) rfl
    have afterColon : Scans s hooks (Mode.object.place :: m.place :: below) _ after.1 _ _ :=
      standard.scans_blanks (filter_blank rfl) after solid
    have here := Written.scans value (m := .object) rfl (m.place :: below) plain.1 ends
    have later := Members.scans others false trail m below rest plain.2
    rw [members_text_apart]
    refine (between.append (name.append (beforeColon.append (colon.append (afterColon.append
      (here.append later)))))).congr fun place => ?_
    simp [Members.pieces, rawAll, rawAll_append, advance_append, level, Piece.raw]
    rfl

end

mutual

/-- An object inside an array stops the scanner. -/
theorem Written.fails : ∀ (w : Written) {m : Mode} {r : Region}, m.region? = some r →
    ∀ (below : List Nat), w.plain r = false → Fails s hooks (m.place :: below) w.text
  | .null, _, _, _, _, plain => by cases plain
  | .bool _, _, _, _, _, plain => by cases plain
  | .number _, _, _, _, _, plain => by cases plain
  | .string _, _, _, _, _, plain => by cases plain
  | .array gap items, m, r, region, below, plain => by
    have opened : ∀ rest, Scans s hooks (m.place :: below) (r.arrayMode.place :: m.place :: below)
        ['['] ((gap.1 ++ items.text true) ++ rest) _ := fun rest =>
      standard.scans_char (by simp) rfl (filter_bracket region) (by cases r <;> rfl)
    exact Fails.after opened (Items.fails items true gap r (m.place :: below) plain)
  | .object gap members, m, r, region, below, plain => by
    cases r with
    | item =>
      intro place rest
      have longest := standard.longest? m below ('{' :: (gap.1 ++ members.text true ++ rest))
      rw [pick_none (filter_brace_item region), Option.map_eq_none_iff] at longest
      refine ⟨.unexpectedCharacter '{' place.1 place.2, ?_⟩
      rw [Written.text, List.cons_append, Scanner.scanFrom.eq_def]
      simp only [longest]
    | member =>
      have opened : ∀ rest, Scans s hooks (m.place :: below)
          (Mode.object.place :: m.place :: below) ['{'] ((gap.1 ++ members.text true) ++ rest) _ :=
        fun rest => standard.scans_char (by simp) rfl (filter_brace region) rfl
      refine Fails.after opened (Members.fails members true gap (m.place :: below) ?_)
      simpa [Written.plain] using plain

theorem Items.fails : ∀ (items : Items) (first : Bool) (gap : Blanks) (r : Region)
    (below : List Nat), items.plain = false →
      Fails s hooks (r.arrayMode.place :: below) (gap.1 ++ items.text first)
  | .nil, _, _, _, _, plain => by cases plain
  | .cons lead item trail others, first, gap, r, below, plain => by
    have between : ∀ rest, Scans s hooks (r.arrayMode.place :: below) _ _
        ((item.text ++ (trail.1 ++ others.text false)) ++ rest) _ := fun rest =>
      standard.scans_separator r.region?_arrayMode below gap lead first (by
        rw [List.append_assoc]
        exact item.solid _)
    rw [items_text_apart]
    apply Fails.after between
    cases inner : item.plain .item with
    | false => exact (Written.fails item r.region?_arrayMode below inner).before _
    | true =>
      rw [Items.plain, inner, Bool.true_and] at plain
      have here : ∀ rest, Scans s hooks (r.arrayMode.place :: below) _ item.text
          ((trail.1 ++ others.text false) ++ rest) _ := fun rest =>
        Written.scans standard item r.region?_arrayMode below inner (by
          rw [List.append_assoc]
          exact (others.ends rest).of_blanks trail)
      exact Fails.after here (Items.fails others false trail r below plain)

theorem Members.fails : ∀ (members : Members) (first : Bool) (gap : Blanks) (below : List Nat),
    members.plain = false →
      Fails s hooks (Mode.object.place :: below) (gap.1 ++ members.text first)
  | .nil, _, _, _, plain => by cases plain
  | .cons lead key before after value trail others, first, gap, below, plain => by
    have between : ∀ rest, Scans s hooks (Mode.object.place :: below) _ _
        ((key.text ++ (before.1 ++ ([':'] ++ (after.1 ++ (value.text ++
          (trail.1 ++ others.text false)))))) ++ rest) _ := fun rest =>
      standard.scans_separator (r := .member) rfl below gap lead first
        (Json.solid_cons (c := '"') rfl _)
    have name : ∀ rest, Scans s hooks (Mode.object.place :: below) _ _
        ((before.1 ++ ([':'] ++ (after.1 ++ (value.text ++ (trail.1 ++ others.text false))))) ++
          rest) _ := fun rest => standard.scans_string (r := .member) rfl below key
    have beforeColon : ∀ rest, Scans s hooks (Mode.object.place :: below) _ before.1
        (([':'] ++ (after.1 ++ (value.text ++ (trail.1 ++ others.text false)))) ++ rest) _ :=
      fun rest => standard.scans_blanks (filter_blank rfl) before (Json.solid_cons (c := ':') rfl _)
    have colon : ∀ rest, Scans s hooks (Mode.object.place :: below) _ [':']
        ((after.1 ++ (value.text ++ (trail.1 ++ others.text false))) ++ rest) _ := fun rest =>
      standard.scans_char (m := .object) (by simp) rfl
        (by decide : _ = [("colon", ScanAction.emit)]) rfl
    have afterColon : ∀ rest, Scans s hooks (Mode.object.place :: below) _ after.1
        ((value.text ++ (trail.1 ++ others.text false)) ++ rest) _ := fun rest =>
      standard.scans_blanks (filter_blank rfl) after (by
        rw [List.append_assoc]
        exact value.solid _)
    rw [members_text_apart]
    apply Fails.after between
    apply Fails.after name
    apply Fails.after beforeColon
    apply Fails.after colon
    apply Fails.after afterColon
    cases inner : value.plain .member with
    | false => exact (Written.fails value (m := .object) rfl below inner).before _
    | true =>
      rw [Members.plain, inner, Bool.true_and] at plain
      have here : ∀ rest, Scans s hooks (Mode.object.place :: below) _ value.text
          ((trail.1 ++ others.text false) ++ rest) _ := fun rest =>
        Written.scans standard value (m := .object) rfl below inner (by
          rw [List.append_assoc]
          exact (others.ends rest).of_blanks trail)
      exact Fails.after here (Members.fails others false trail below plain)

end

end

variable {source : String} {lead trail : Blanks} {w : Written}

theorem Blanks.ends (b : Blanks) : Json.Ends b.1 := by
  have ends := Json.ends_nil.of_blanks b
  rwa [List.append_nil] at ends

/-- A text whose arrays hold no objects is scanned as the pieces of its value. -/
theorem IsScanner.scan_text (standard : IsScanner s)
    (same : source.toList = lead.1 ++ (w.text ++ trail.1)) (plain : w.plain .member = true) :
    s.scan hooks source =
      .ok (rawAll (w.pieces (emit hooks) .member 0 (advance (1, 1) lead.1))) := by
  have solid : Solid ((w.text ++ trail.1) ++ []) := by
    rw [List.append_assoc]
    exact w.solid _
  have before : Scans s hooks [Mode.top.place] [Mode.top.place] lead.1 ((w.text ++ trail.1) ++ [])
      fun _ => [] := standard.scans_blanks (filter_blank (m := .top) rfl) lead solid
  have value : Scans s hooks [Mode.top.place] [Mode.top.place] w.text (trail.1 ++ []) _ :=
    Written.scans standard w (m := .top) rfl [] plain (by
      rw [List.append_nil]
      exact Blanks.ends trail)
  have after : Scans s hooks [Mode.top.place] [Mode.top.place] trail.1 [] fun _ => [] :=
    standard.scans_blanks (filter_blank (m := .top) rfl) trail nofun
  have whole := (before.append (value.append after)) (1, 1)
  have level : s.depth [Mode.top.place] = 0 := standard.depth_cons .top []
  rw [List.append_nil, ← same, level] at whole
  rw [Scanner.scan, standard.initial, whole, Scanner.scanFrom]
  simp [Except.map]

/-- A text with an object in an array is not scanned. -/
theorem IsScanner.scan_fails (standard : IsScanner s)
    (same : source.toList = lead.1 ++ (w.text ++ trail.1)) (plain : w.plain .member = false) :
    ∃ e, s.scan hooks source = .error e := by
  have before : ∀ rest, Scans s hooks [Mode.top.place] [Mode.top.place] lead.1 (w.text ++ rest)
      fun _ => [] := fun rest =>
    standard.scans_blanks (filter_blank (m := .top) rfl) lead (w.solid rest)
  have fails : Fails s hooks [Mode.top.place] w.text :=
    Written.fails standard w (m := .top) rfl [] plain
  have whole := (Fails.after before fails) (1, 1) trail.1
  rw [List.append_assoc, ← same] at whole
  rw [Scanner.scan, standard.initial]
  exact whole

end AttrGrammar.Procedure
