import AttrGrammar.Proofs.Procedure.Scanned

/-!
What folded tokens cover of a source.

Whatever a source is, if it can be scanned, then its tokens can be folded, and nothing of strings and
arrays is left over. With blanks between them the folded tokens make up the source: a string is one
quoted string, an array goes from a bracket outside all others to the one that belongs to it, and any
other token is outside brackets.
-/

namespace AttrGrammar.Procedure

open Recognizer
open Scanner (advance)
open Json (Blanks isBlank)

/-- The names of the tokens that folding leaves. -/
def foldedNames : List String := [
  "lbrace", "rbrace", "colon", "member_divider", "number", "boolean", "null", "let_form", "ref_form",
  "doc_form", "unknown_form", "string", "empty_string", "array", "empty_array", "empty_object"]

/-- A text that a folded token covers. -/
inductive Extent (t : Token) : List Char → Prop
  /-- A string is kept as it is written. -/
  | string {body : List Char} (written : StringBody body)
    (name : t.name = if body = [] then "empty_string" else "string")
    (lexeme : lettersOf t = '"' :: (body ++ ['"'])) : Extent t ('"' :: (body ++ ['"']))
  /-- An array is kept without the blanks outside its strings. -/
  | array {body tight : List Char} (written : ArrayBody body tight)
    (name : t.name = if tight = [] then "empty_array" else "array")
    (lexeme : lettersOf t = '[' :: (tight ++ [']'])) : Extent t ('[' :: (body ++ [']']))
  | object (gap : Blanks) (name : t.name = "empty_object") (lexeme : lettersOf t = ['{', '}']) :
    Extent t ('{' :: (gap.1 ++ ['}']))
  /-- Any other token is what a terminal reads, without brackets. -/
  | other {text : List Char} (name : t.name ∈ tokensIn none)
    (read : (recognizer t.name).length? text = some text.length)
    (flat : ∀ c ∈ text, c ≠ '[' ∧ c ≠ ']') (lexeme : lettersOf t = text) : Extent t text

/-- Tokens make up a text, with blanks between them. -/
inductive Tiles : List Char → List Token → Prop
  | blanks (gap : Blanks) : Tiles gap.1 []
  | token (gap : Blanks) {t : Token} {text rest : List Char} {ts : List Token} (here : Extent t text)
    (others : Tiles rest ts) : Tiles (gap.1 ++ (text ++ rest)) (t :: ts)

variable {t : Token} {ts : List Token} {text rest lexeme : List Char} {name : String}

theorem Extent.name_mem (extent : Extent t text) : t.name ∈ foldedNames := by
  cases extent with
  | string _ name _ =>
    rw [name]
    split <;> decide
  | array _ name _ =>
    rw [name]
    split <;> decide
  | object _ name _ =>
    rw [name]
    decide
  | other name _ _ _ =>
    have among : ∀ n ∈ tokensIn none, n ∈ foldedNames := by decide
    exact among _ name

theorem Tiles.name_mem (tiles : Tiles text ts) : ∀ t ∈ ts, t.name ∈ foldedNames := by
  induction tiles with
  | blanks => exact List.forall_mem_nil _
  | token _ here _ ih => exact List.forall_mem_cons.2 ⟨here.name_mem, ih⟩

theorem Tiles.append_blanks (tiles : Tiles text ts) (gap : Blanks) : Tiles (gap.1 ++ text) ts := by
  cases tiles with
  | blanks more => exact .blanks (gap.append more)
  | token more here others =>
    rw [← List.append_assoc]
    exact .token (gap.append more) here others

theorem Tiles.cons (tiles : Tiles rest ts) (here : Extent t text) : Tiles (text ++ rest) (t :: ts) :=
  .token Json.noBlanks here tiles

theorem flat_of_token (listed : name ∈ tokensIn none)
    (takes : (recognizer name).length? (lexeme ++ rest) = some lexeme.length) :
    ∀ c ∈ lexeme, c ≠ '[' ∧ c ≠ ']' := by
  have avoids : ∀ n ∈ tokensIn none, (recognizer n).avoids '[' = true ∧
      (recognizer n).avoids ']' = true := by decide
  have left := ne_of_avoids (avoids name listed).1 takes
  have right := ne_of_avoids (avoids name listed).2 takes
  exact fun c member => ⟨left c member, right c member⟩

theorem extent_other (listed : t.name ∈ tokensIn none)
    (takes : (recognizer t.name).length? (lexeme ++ rest) = some lexeme.length)
    (spelled : lettersOf t = lexeme) : Extent t lexeme :=
  .other listed (length?_of_append takes) (flat_of_token listed takes) spelled

/-- A closing brace is one character. -/
theorem Extent.eq_of_rbrace (extent : Extent t text) (named : t.name = "rbrace") :
    text = ['}'] ∧ lettersOf t = ['}'] := by
  cases extent with
  | string _ name _ =>
    rw [named] at name
    split at name <;> exact absurd name (by decide)
  | array _ name _ =>
    rw [named] at name
    split at name <;> exact absurd name (by decide)
  | object _ name _ => exact absurd (named.symm.trans name) (by decide)
  | other _ read _ lexeme =>
    rw [named, ← List.append_nil text, List.length_append, List.length_nil, Nat.add_zero] at read
    obtain rfl : text = ['}'] := eq_of_word read
    exact ⟨rfl, lexeme⟩

section

variable {g : Attribution} {opening closing : Token} {inside : List Piece} {body : List Char}

theorem lettersOf_folded (k : Group) :
    lettersOf ((Piece.group k opening inside closing).folded g.combine) =
      lettersOf opening ++ (letters inside ++ lettersOf closing) := by
  rw [lettersOf, folded_lexeme, String.toList_ofList]
  simp [Piece.raw, letters]

theorem folded_name_eq (k : Group) (hollow : inside = [] ↔ body = []) :
    ((Piece.group k opening inside closing).folded g.combine).name =
      if body = [] then k.empty else k.full := by
  simp only [folded_name (joins_combine g), List.isEmpty_iff, hollow]

theorem extent_string (opens : lettersOf opening = ['"']) (closes : lettersOf closing = ['"'])
    (glyphs : Glyphs .string inside body) :
    Extent ((Piece.group .string opening inside closing).folded g.combine)
      ('"' :: (body ++ ['"'])) := by
  have hollow : inside = [] ↔ body = [] :=
    ⟨fun empty => by rw [← glyphs.spelled, empty]; rfl, glyphs.empty⟩
  refine .string glyphs.written (folded_name_eq _ hollow) ?_
  rw [lettersOf_folded, opens, closes, glyphs.spelled]
  rfl

theorem extent_array (opens : lettersOf opening = ['[']) (closes : lettersOf closing = [']'])
    (entries : Entries .array inside body) :
    Extent ((Piece.group .array opening inside closing).folded g.combine)
      ('[' :: (body ++ [']'])) := by
  have hollow : inside = [] ↔ letters inside = [] := ⟨fun empty => by rw [empty]; rfl, entries.empty⟩
  refine .array entries.written (folded_name_eq _ hollow) ?_
  rw [lettersOf_folded, opens, closes]
  rfl

end

/-- Pieces outside strings and arrays, which are folded into tokens that make up a text. -/
structure Outermost (g : Attribution) (text : List Char) (ps : List Piece) : Prop where
  fit : Fit none ps
  tiles : Tiles text (ps.map (Piece.folded g.combine))

namespace Outermost

variable {g : Attribution} {ps : List Piece}

variable {opening closing : Token} {inside : List Piece} {body : List Char}

/-- A group before pieces. -/
theorem group {k : Group} (among : k ∈ groupsIn none) (opened : opening.name = k.opening)
    (closed : closing.name = k.closing) (fit : Fit (some k) inside)
    (extent : Extent ((Piece.group k opening inside closing).folded g.combine) text)
    (outermost : Outermost g rest ps) :
    Outermost g (text ++ rest) (.group k opening inside closing :: ps) :=
  ⟨⟨⟨among, opened, closed, fit⟩, trivial, outermost.fit⟩, outermost.tiles.cons extent⟩

/-- A string before pieces. -/
theorem string (opens : opening.name = "quote" ∧ lettersOf opening = ['"'])
    (named : closing.name = "quote") (spelled : lettersOf closing = ['"'])
    (glyphs : Glyphs .string inside body) (outermost : Outermost g rest ps) :
    Outermost g ('"' :: (body ++ '"' :: rest)) (.group .string opening inside closing :: ps) := by
  have extent := extent_string (g := g) opens.2 spelled glyphs
  simpa using outermost.group (by decide) opens.1 named glyphs.fit extent

/-- An array before pieces. -/
theorem array (opens : opening.name = "lbracket" ∧ lettersOf opening = ['['])
    (named : closing.name = "rbracket") (spelled : lettersOf closing = [']'])
    (entries : Entries .array inside body) (outermost : Outermost g rest ps) :
    Outermost g ('[' :: (body ++ ']' :: rest)) (.group .array opening inside closing :: ps) := by
  have extent := extent_array (g := g) opens.2 spelled entries
  simpa using outermost.group (by decide) opens.1 named entries.fit extent

/-- Another token before pieces. -/
theorem token (clear : Piece.Clear (.token t) ps) (listed : t.name ∈ tokensIn none)
    (takes : (recognizer t.name).length? (lexeme ++ rest) = some lexeme.length)
    (spelled : lettersOf t = lexeme) (outermost : Outermost g rest ps) :
    Outermost g (lexeme ++ rest) (.token t :: ps) :=
  ⟨⟨listed, clear, outermost.fit⟩, outermost.tiles.cons (extent_other listed takes spelled)⟩

/-- A scanned token that is no opening brace before pieces. -/
theorem emit (listed : name ∈ tokensIn none) (other : name ≠ "lbrace")
    (takes : (recognizer name).length? (lexeme ++ rest) = some lexeme.length) (depth : Nat)
    (place : Nat × Nat) (outermost : Outermost g rest ps) :
    Outermost g (lexeme ++ rest) (.token (emit g.annotate depth place name lexeme) :: ps) := by
  have makes := makes_emit g
  have named : (Procedure.emit g.annotate depth place name lexeme).name = name :=
    makes.name depth place name lexeme
  rw [← named] at listed other takes
  exact outermost.token (clear_token other ps) listed takes (lettersOf_emit makes _ _ _ _)

/-- An opening brace before pieces: if a closing one comes next, both are an empty object. -/
theorem brace (named : t.name = "lbrace") (spelled : lettersOf t = ['{'])
    (outermost : Outermost g rest ps) :
    ∃ qs, t :: rawAll ps = rawAll qs ∧ Outermost g ('{' :: rest) qs := by
  by_cases closed : ∃ u ps', ps = .token u :: ps' ∧ u.name = "rbrace"
  · obtain ⟨u, ps, rfl, ends⟩ := closed
    obtain ⟨fit, tiles⟩ := outermost
    refine ⟨.group .object t [] u :: ps, rfl,
      ⟨⟨by decide, named, ends, trivial⟩, trivial, fit.2.2⟩, ?_⟩
    cases tiles with
    | @token gap _ text rest _ here others =>
      obtain ⟨rfl, brace⟩ := here.eq_of_rbrace ends
      have extent : Extent ((Piece.group .object t [] u).folded g.combine)
          ('{' :: (gap.1 ++ ['}'])) := by
        refine .object gap (folded_name (joins_combine g) _ _ _ _) ?_
        have closes : lettersOf u = ['}'] := brace
        rw [lettersOf_folded, spelled, closes]
        rfl
      have whole := others.cons extent
      simpa using whole
  · have takes : (recognizer t.name).length? (['{'] ++ rest) = some 1 := by
      rw [named]
      exact length?_word ['{'] rest
    have listed : t.name ∈ tokensIn none := by
      rw [named]
      decide
    have clear : Piece.Clear (.token t) ps := by
      cases ps with
      | nil => trivial
      | cons p ps =>
        cases p with
        | token u => exact fun both => closed ⟨u, ps, rfl, both.2⟩
        | group _ _ _ _ => trivial
    exact ⟨.token t :: ps, rfl, outermost.token clear listed takes spelled⟩

end Outermost

theorem Mode.object_rules : ∀ rule ∈ objectRules,
    rule = ("ws", .skip) ∨ rule = ("quote", .push Region.member.stringMode.place) ∨
      rule = ("lbracket", .push Region.member.arrayMode.place) ∨
      rule = ("lbrace", .push Mode.object.place) ∨ rule = ("rbrace", .pop) ∨
        rule.1 ∈ tokensIn none ∧ rule.1 ≠ "lbrace" ∧ rule.2 = .emit := by
  decide

variable {s : Scanner} {g : Attribution}

/-- Outside strings and arrays, what is scanned comes from pieces that fit together. -/
theorem IsScanner.exists_outermost (standard : IsScanner s) : ∀ (size : Nat) {m : Mode}
    {below : List Mode} {text : List Char} {place : Nat × Nat} {tokens : List Token},
      text.length ≤ size → (∀ m' ∈ m :: below, m'.rules = Mode.objectRules) →
        s.scanFrom g.annotate ((m :: below).map Mode.place) place text = .ok tokens →
          ∃ ps, tokens = rawAll ps ∧ Outermost g text ps
  | _, _, _, [], _, _, _, _, scanned => by
    obtain ⟨_, rfl⟩ := below_of_ok scanned
    exact ⟨[], rfl, trivial, .blanks Json.noBlanks⟩
  | size + 1, m, below, c :: text, place, tokens, bound, modes, scanned => by
    have makes := makes_emit g
    obtain ⟨name, action, lexeme, rest, stack, depth, others, split, shorter, visible, listed, takes,
      acts, later, rfl⟩ := standard.step_of_ok scanned
    have short : rest.length ≤ size := Nat.le_of_lt_succ (Nat.lt_of_lt_of_le shorter bound)
    rw [split]
    rw [modes m List.mem_cons_self] at listed
    rcases Mode.object_rules _ listed with same | same | same | same | same | ⟨plain, other, emits⟩
    · cases same
      cases acts
      obtain ⟨ps, rfl, outermost⟩ := exists_outermost standard size (m := m) short modes later
      exact ⟨ps, rfl, outermost.fit, outermost.tiles.append_blanks ⟨lexeme, blanks_of_ws takes⟩⟩
    · cases same
      cases acts
      obtain rfl : lexeme = ['"'] := eq_of_word takes
      obtain @⟨inside, body, rest, closing, others, _, glyphs, named, spelled, after⟩ :=
        standard.closes_string makes size .member short (List.cons_ne_nil _ _) later
      have fewer : rest.length ≤ size := by
        simp only [List.length_append, List.length_cons] at short
        omega
      obtain ⟨ps, rfl, outermost⟩ := exists_outermost standard size (m := m) fewer modes after
      refine ⟨.group .string _ inside closing :: ps, by simp [rawAll, Piece.raw]; rfl, ?_⟩
      exact outermost.string ⟨makes.name _ _ _ _, lettersOf_emit makes _ _ _ _⟩ named spelled glyphs
    · cases same
      cases acts
      obtain rfl : lexeme = ['['] := eq_of_word takes
      obtain @⟨inside, body, rest, closing, others, _, entries, named, spelled, after⟩ :=
        standard.closes_array makes size .member short (List.cons_ne_nil _ _) later
      have fewer : rest.length ≤ size := by
        simp only [List.length_append, List.length_cons] at short
        omega
      obtain ⟨ps, rfl, outermost⟩ := exists_outermost standard size (m := m) fewer modes after
      refine ⟨.group .array _ inside closing :: ps, by simp [rawAll, Piece.raw]; rfl, ?_⟩
      exact outermost.array ⟨makes.name _ _ _ _, lettersOf_emit makes _ _ _ _⟩ named spelled entries
    · cases same
      cases acts
      obtain rfl : lexeme = ['{'] := eq_of_word takes
      have deeper : ∀ m' ∈ .object :: m :: below, m'.rules = Mode.objectRules :=
        List.forall_mem_cons.2 ⟨rfl, modes⟩
      obtain ⟨ps, rfl, outermost⟩ := exists_outermost standard size (m := .object) short deeper later
      exact outermost.brace (makes.name _ _ _ _) (lettersOf_emit makes _ _ _ _)
    · cases same
      cases below with
      | nil => cases acts
      | cons b below =>
        cases acts
        have lower : ∀ m' ∈ b :: below, m'.rules = Mode.objectRules :=
          fun m' member => modes m' (List.mem_cons_of_mem m member)
        obtain ⟨ps, rfl, outermost⟩ := exists_outermost standard size (m := b) short lower later
        exact ⟨_, rfl, outermost.emit (by decide) (by decide) takes _ _⟩
    · cases emits
      cases acts
      obtain ⟨ps, rfl, outermost⟩ := exists_outermost standard size (m := m) short modes later
      exact ⟨_, rfl, outermost.emit plain other takes _ _⟩

/-- Any source that can be scanned can be folded, into tokens of which no part of a string or of an
array is left, and these make up the source. -/
theorem tiles_of_scan {l : Language} (built : language = .ok l) (g : Attribution) {source : String}
    {tokens : List Token} (scanned : l.scan g.annotate source = .ok tokens) :
    ∃ folded, l.fold g.combine tokens = .ok folded ∧ (∀ t ∈ folded, t.name ∈ foldedNames) ∧
      Tiles source.toList folded := by
  have standard := isStandard_of_language built
  rw [Language.scan, Scanner.scan, standard.scanner.initial] at scanned
  have modes : ∀ m ∈ [Mode.top], m.rules = Mode.objectRules := List.forall_mem_singleton.2 rfl
  obtain ⟨ps, rfl, outermost⟩ :=
    standard.scanner.exists_outermost source.toList.length (Nat.le_refl _) modes scanned
  exact ⟨_, run_rawAll (joins_combine g) standard outermost.fit, outermost.tiles.name_mem,
    outermost.tiles⟩

/-- Strings and arrays side by side, as they never are in a JSON text. -/
def adjacentSource : String := "\"a\"\"\" [[ ][\"[\"\"\"]] \x7b \x7d"

theorem tiles_of_scan_adjacent : ∃ l tokens folded, language = .ok l ∧
    l.scan (tokenizerOf l).annotate adjacentSource = .ok tokens ∧
    l.fold (tokenizerOf l).combine tokens = .ok folded ∧
    (∀ t ∈ folded, t.name ∈ foldedNames) ∧ Tiles adjacentSource.toList folded := by
  have scans : (language.toOption.any fun l =>
      (l.scan (tokenizerOf l).annotate adjacentSource).isOk) = true := by decide +kernel
  obtain ⟨l, built⟩ := exists_language
  rw [built] at scans
  change (l.scan (tokenizerOf l).annotate adjacentSource).isOk = true at scans
  cases scanned : l.scan (tokenizerOf l).annotate adjacentSource with
  | error e =>
    rw [scanned] at scans
    cases scans
  | ok tokens =>
    obtain ⟨folded, done, names, tiles⟩ := tiles_of_scan built (tokenizerOf l) scanned
    exact ⟨l, tokens, folded, built, scanned, done, names, tiles⟩

end AttrGrammar.Procedure
