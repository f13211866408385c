import AttrGrammar.Json.Reader
import AttrGrammar.Proofs.Outcome
import Mathlib.Algebra.GroupWithZero.Nat

/-!
String literals as they are written.

A literal is a list of glyphs between quotes: a character that stands for itself, an escape by one
letter, or an escape by four digits. What a list of glyphs spells does not depend on what follows
it, and the reader finds just the lists that spell something.
-/

namespace AttrGrammar

namespace Json

/-- A piece of a string literal. -/
inductive Glyph where
  | plain (c : Char)
  | escape (letter : Char)
  | unicode (digits : List Char)
  deriving DecidableEq, Repr, Inhabited

namespace Glyph

def text : Glyph → List Char
  | plain c => [c]
  | escape letter => ['\\', letter]
  | unicode digits => '\\' :: 'u' :: digits

/-- The character that an escape by one letter stands for. -/
def escaped? : Char → Option Char
  | '"' => some '"'
  | '\\' => some '\\'
  | '/' => some '/'
  | 'b' => some '\x08'
  | 'f' => some '\x0c'
  | 'n' => some '\n'
  | 'r' => some '\r'
  | 't' => some '\t'
  | _ => none

/-- The number that four digits write. -/
def hexValue? (digits : List Char) : Option Nat :=
  if digits.length = 4 then
    (digits.mapM Text.hexDigit?).map fun values => values.foldl (fun n d => n * 16 + d) 0
  else none

/-- The character that a pair of surrogates stands for. -/
def paired (leading trailing : Nat) : Char :=
  Char.ofNat ((leading - 0xd800) * 0x400 + (trailing - 0xdc00) + 0x10000)

/-- The characters that glyphs spell. -/
def decode? : List Glyph → Option (List Char)
  | [] => some []
  | plain c :: rest =>
    if c = '"' ∨ c = '\\' ∨ c.toNat < 0x20 then none else (decode? rest).map (c :: ·)
  | escape letter :: rest =>
    (escaped? letter).bind fun c => (decode? rest).map (c :: ·)
  | unicode digits :: unicode more :: rest =>
    (hexValue? digits).bind fun n =>
      if isTrailingSurrogate n then none
      else if isLeadingSurrogate n then
        (hexValue? more).bind fun m =>
          if isTrailingSurrogate m then (decode? rest).map (paired n m :: ·) else none
      else (decode? (unicode more :: rest)).map (Char.ofNat n :: ·)
  | unicode digits :: rest =>
    (hexValue? digits).bind fun n =>
      if isTrailingSurrogate n || isLeadingSurrogate n then none
      else (decode? rest).map (Char.ofNat n :: ·)

/-- The text of glyphs. -/
def textOf (glyphs : List Glyph) : List Char := glyphs.flatMap text

@[simp] theorem textOf_nil : textOf [] = [] := rfl

@[simp] theorem textOf_cons (g : Glyph) (rest : List Glyph) :
    textOf (g :: rest) = g.text ++ textOf rest := rfl

theorem byteCount_eq (text : List Char) : byteCount text = (text.map Char.utf8Size).sum := by
  have shift : ∀ (text : List Char) (n : Nat),
      text.foldl (fun n c => n + c.utf8Size) n = n + (text.map Char.utf8Size).sum := by
    intro text
    induction text with
    | nil => intro n; rfl
    | cons c rest ih =>
      intro n
      rw [List.foldl_cons, ih, List.map_cons, List.sum_cons, Nat.add_assoc]
  rw [byteCount, shift, Nat.zero_add]

theorem length_le_byteCount (text : List Char) : text.length ≤ byteCount text := by
  rw [byteCount_eq]
  induction text with
  | nil => exact Nat.le_refl 0
  | cons c rest ih =>
    have positive := c.utf8Size_pos
    simp only [List.length_cons, List.map_cons, List.sum_cons]
    omega

theorem utf8Size_of_hexDigit? {c : Char} (known : (Text.hexDigit? c).isSome = true) :
    c.utf8Size = 1 := by
  refine Char.utf8Size_eq_one_iff.2 ?_
  have below : c ≤ 'f' := by
    unfold Text.hexDigit? at known
    split at known
    · next h => simp at h; exact Nat.le_trans h.2 (by decide)
    · split at known
      · next h => simp at h; exact h.2
      · split at known
        · next h => simp at h; exact Nat.le_trans h.2 (by decide)
        · cases known
  exact Nat.le_trans below (by decide)

theorem byteCount_of_hexDigits {text : List Char}
    (known : (text.mapM Text.hexDigit?).isSome = true) : byteCount text = text.length := by
  rw [byteCount_eq]
  induction text with
  | nil => rfl
  | cons c rest ih =>
    obtain ⟨values, known⟩ := Option.isSome_iff_exists.1 known
    rw [List.mapM_cons] at known
    obtain ⟨d, first, known⟩ := Option.bind_eq_some_iff.1 known
    obtain ⟨others, after, _⟩ := Option.bind_eq_some_iff.1 known
    rw [List.map_cons, List.sum_cons, ih (by rw [after]; rfl),
      utf8Size_of_hexDigit? (by rw [first]; rfl), List.length_cons, Nat.add_comm]

/-- Four digits are read whatever comes after them. -/
theorem readHex_eq_ok_iff {text rest : List Char} {n : Nat} :
    readHex text = .ok (n, rest) ↔
      ∃ digits, hexValue? digits = some n ∧ text = digits ++ rest := by
  unfold readHex hexValue?
  constructor
  · intro read
    split at read
    · cases read
    · next enough =>
      split at read
      · next values known =>
        cases read
        have whole : (text.take 4).length = 4 := by
          rw [List.length_take]
          by_cases short : text.length < 4
          · rw [List.take_of_length_le (by omega)] at known
            have count := @byteCount_of_hexDigits text (by rw [known]; rfl)
            omega
          · omega
        refine ⟨text.take 4, ?_, (List.take_append_drop 4 text).symm⟩
        rw [if_pos whole, known]
        rfl
      · cases read
  · rintro ⟨digits, known, rfl⟩
    split at known
    · next four =>
      obtain ⟨values, each, rfl⟩ := Option.map_eq_some_iff.1 known
      have enough : ¬ byteCount (digits ++ rest) < 4 := by
        have bytes := length_le_byteCount (digits ++ rest)
        rw [List.length_append] at bytes
        omega
      rw [if_neg enough, List.take_left' four, List.drop_left' four, each]
    · cases known

theorem readEscape_letter {letter c : Char} (known : escaped? letter = some c) (rest : List Char) :
    readEscape (letter :: rest) = .ok (c, rest) := by
  unfold escaped? at known
  split at known <;> cases known <;> rfl

theorem readUnicode_single {digits rest : List Char} {n : Nat} (known : hexValue? digits = some n)
    (trailing : isTrailingSurrogate n = false) (leading : isLeadingSurrogate n = false) :
    readUnicode (digits ++ rest) = .ok (Char.ofNat n, rest) := by
  have read : readHex (digits ++ rest) = .ok (n, rest) := readHex_eq_ok_iff.2 ⟨digits, known, rfl⟩
  rw [readUnicode, read]
  change (if isTrailingSurrogate n = true then stopHere .loneSurrogate rest
    else if isLeadingSurrogate n = true then readTrailing n rest else .ok (Char.ofNat n, rest)) = _
  rw [trailing, leading]
  rfl

theorem readUnicode_pair {digits more rest : List Char} {n m : Nat}
    (known : hexValue? digits = some n) (knownMore : hexValue? more = some m)
    (trailing : isTrailingSurrogate n = false) (leading : isLeadingSurrogate n = true)
    (second : isTrailingSurrogate m = true) :
    readUnicode (digits ++ '\\' :: 'u' :: (more ++ rest)) = .ok (paired n m, rest) := by
  have read : readHex (digits ++ '\\' :: 'u' :: (more ++ rest)) =
      .ok (n, '\\' :: 'u' :: (more ++ rest)) := readHex_eq_ok_iff.2 ⟨digits, known, rfl⟩
  have readMore : readHex (more ++ rest) = .ok (m, rest) :=
    readHex_eq_ok_iff.2 ⟨more, knownMore, rfl⟩
  rw [readUnicode, read]
  change (if isTrailingSurrogate n = true then _ else if isLeadingSurrogate n = true then
    readTrailing n ('\\' :: 'u' :: (more ++ rest)) else _) = _
  rw [trailing, leading, if_neg Bool.false_ne_true, if_pos rfl, readTrailing, readMore]
  change (if isTrailingSurrogate m = true then Except.ok (paired n m, rest) else _) = _
  rw [second, if_pos rfl]

/-- The escapes that are read, after the backslash. -/
theorem readEscape_cases {text rest : List Char} {c : Char}
    (read : readEscape text = .ok (c, rest)) :
    (∃ letter, escaped? letter = some c ∧ text = letter :: rest) ∨
      (∃ digits n, hexValue? digits = some n ∧ isTrailingSurrogate n = false ∧
        isLeadingSurrogate n = false ∧ c = Char.ofNat n ∧ text = 'u' :: (digits ++ rest)) ∨
      ∃ digits more n m, hexValue? digits = some n ∧ hexValue? more = some m ∧
        isTrailingSurrogate n = false ∧ isLeadingSurrogate n = true ∧
        isTrailingSurrogate m = true ∧ c = paired n m ∧
        text = 'u' :: (digits ++ '\\' :: 'u' :: (more ++ rest)) := by
  unfold readEscape at read
  split at read
  all_goals try first | (cases read; exact Or.inl ⟨_, rfl, rfl⟩) | cases read
  refine Or.inr ?_
  unfold readUnicode at read
  obtain ⟨⟨n, after⟩, first, next⟩ := except_bind_eq_ok.1 read
  obtain ⟨digits, known, rfl⟩ := readHex_eq_ok_iff.1 first
  dsimp only at next
  split at next
  · cases next
  rename_i trailing
  rw [Bool.not_eq_true] at trailing
  split at next
  · rename_i leading
    refine Or.inr ?_
    unfold readTrailing at next
    split at next
    all_goals try cases next
    rename_i more
    obtain ⟨⟨m, last⟩, second, final⟩ := except_bind_eq_ok.1 next
    obtain ⟨digits', known', rfl⟩ := readHex_eq_ok_iff.1 second
    dsimp only at final
    split at final
    · rename_i trails
      obtain ⟨same, rfl⟩ := Prod.mk.inj (Except.ok.inj final)
      rw [← paired] at same
      exact ⟨digits, digits', n, m, known, known', trailing, leading, trails, same.symm, rfl⟩
    · cases final
  · rename_i leading
    cases next
    exact Or.inl ⟨digits, n, known, trailing, by simpa using leading, rfl, rfl⟩

theorem decode?_single {digits : List Char} {n : Nat} (known : hexValue? digits = some n)
    (trailing : isTrailingSurrogate n = false) (leading : isLeadingSurrogate n = false)
    (rest : List Glyph) :
    decode? (.unicode digits :: rest) = (decode? rest).map (Char.ofNat n :: ·) := by
  cases rest with
  | nil => simp [decode?, known, trailing, leading]
  | cons g rest => cases g <;> simp [decode?, known, trailing, leading]

theorem decode?_pair {digits more : List Char} {n m : Nat} (known : hexValue? digits = some n)
    (knownMore : hexValue? more = some m) (trailing : isTrailingSurrogate n = false)
    (leading : isLeadingSurrogate n = true) (second : isTrailingSurrogate m = true)
    (rest : List Glyph) :
    decode? (.unicode digits :: .unicode more :: rest) =
      (decode? rest).map (paired n m :: ·) := by
  rw [decode?, known, Option.bind_some]
  simp only [trailing, leading, Bool.false_eq_true, ↓reduceIte, knownMore, Option.bind_some, second]

/-- The digits of an escape that spells something are a number, which no pair ends with. -/
theorem digits_of_decode? {digits : List Char} {rest : List Glyph} {chars : List Char}
    (spelled : decode? (.unicode digits :: rest) = some chars) :
    ∃ n, hexValue? digits = some n ∧ isTrailingSurrogate n = false := by
  cases value : hexValue? digits with
  | none =>
    unfold decode? at spelled
    split at spelled <;> simp_all
  | some n =>
    refine ⟨n, rfl, ?_⟩
    cases trailing : isTrailingSurrogate n with
    | false => rfl
    | true =>
      unfold decode? at spelled
      split at spelled <;> simp_all

/-- Each glyph of a list that spells something can be read by itself, or together with the next. -/
theorem decode?_cons_cases {g : Glyph} {rest : List Glyph} {chars : List Char}
    (spelled : decode? (g :: rest) = some chars) :
    (∃ c others, g = .plain c ∧ ¬ (c = '"' ∨ c = '\\' ∨ c.toNat < 0x20) ∧
        decode? rest = some others ∧ chars = c :: others) ∨
      (∃ letter c others, g = .escape letter ∧ escaped? letter = some c ∧
        decode? rest = some others ∧ chars = c :: others) ∨
      (∃ digits n others, g = .unicode digits ∧ hexValue? digits = some n ∧
        isTrailingSurrogate n = false ∧ isLeadingSurrogate n = false ∧
        decode? rest = some others ∧ chars = Char.ofNat n :: others) ∨
      ∃ digits more n m rest' others, g = .unicode digits ∧ rest = .unicode more :: rest' ∧
        hexValue? digits = some n ∧ hexValue? more = some m ∧ isTrailingSurrogate n = false ∧
        isLeadingSurrogate n = true ∧ isTrailingSurrogate m = true ∧
        decode? rest' = some others ∧ chars = paired n m :: others := by
  cases g with
  | plain c =>
    rw [decode?] at spelled
    split at spelled
    · cases spelled
    · next itself =>
      obtain ⟨others, after, rfl⟩ := Option.map_eq_some_iff.1 spelled
      exact Or.inl ⟨c, others, rfl, itself, after, rfl⟩
  | escape letter =>
    rw [decode?] at spelled
    obtain ⟨c, known, spelled⟩ := Option.bind_eq_some_iff.1 spelled
    obtain ⟨others, after, rfl⟩ := Option.map_eq_some_iff.1 spelled
    exact Or.inr (Or.inl ⟨letter, c, others, rfl, known, after, rfl⟩)
  | unicode digits =>
    refine Or.inr (Or.inr ?_)
    obtain ⟨n, known, trailing⟩ := digits_of_decode? spelled
    cases leading : isLeadingSurrogate n with
    | false =>
      rw [decode?_single known trailing leading] at spelled
      obtain ⟨others, after, rfl⟩ := Option.map_eq_some_iff.1 spelled
      exact Or.inl ⟨digits, n, others, rfl, known, trailing, leading, after, rfl⟩
    | true =>
      refine Or.inr ?_
      cases rest with
      | nil => simp [decode?, known, leading] at spelled
      | cons g rest =>
        cases g with
        | plain c => simp [decode?, known, leading] at spelled
        | escape letter => simp [decode?, known, leading] at spelled
        | unicode more =>
          rw [decode?, known, Option.bind_some, trailing, leading, if_neg Bool.false_ne_true,
            if_pos rfl] at spelled
          obtain ⟨m, knownMore, spelled⟩ := Option.bind_eq_some_iff.1 spelled
          split at spelled
          · next second =>
            obtain ⟨others, after, rfl⟩ := Option.map_eq_some_iff.1 spelled
            exact ⟨digits, more, n, m, rest, others, rfl, rfl, known, knownMore, trailing, leading,
              second, after, rfl⟩
          · cases spelled

theorem readStringFrom_escape {fuel : Nat} {text rest rest' chars : List Char} {c : Char}
    (escape : readEscape text = .ok (c, rest))
    (after : readStringFrom fuel rest = .ok (chars, rest')) :
    readStringFrom (fuel + 1) ('\\' :: text) = .ok (c :: chars, rest') := by
  rw [readStringFrom, escape]
  change readStringFrom fuel rest >>= _ = _
  rw [after]
  rfl

/-- Glyphs that spell something are read as what they spell, whatever comes after them. -/
theorem readStringFrom_textOf {glyphs : List Glyph} {chars : List Char}
    (spelled : decode? glyphs = some chars) {fuel : Nat} (enough : glyphs.length < fuel)
    (rest : List Char) :
    readStringFrom fuel (textOf glyphs ++ '"' :: rest) = .ok (chars, rest) := by
  induction fuel generalizing glyphs chars with
  | zero => exact absurd enough (Nat.not_lt_zero _)
  | succ fuel ih =>
    cases glyphs with
    | nil =>
      cases spelled
      rfl
    | cons g glyphs =>
      have fewer : glyphs.length < fuel := by simpa using enough
      rcases decode?_cons_cases spelled with ⟨c, others, rfl, itself, after, rfl⟩ |
        ⟨letter, c, others, rfl, known, after, rfl⟩ |
        ⟨digits, n, others, rfl, known, trailing, leading, after, rfl⟩ |
        ⟨digits, more, n, m, glyphs, others, rfl, rfl, known, knownMore, trailing, leading, second,
          after, rfl⟩
      · simp only [not_or] at itself
        have step : readStringFrom (fuel + 1) (c :: (textOf glyphs ++ '"' :: rest)) =
            .ok (c :: others, rest) := by
          rw [readStringFrom.eq_5 _ _ _ itself.1 itself.2.1, if_neg itself.2.2, ih after fewer]
          rfl
        exact step
      · exact readStringFrom_escape (readEscape_letter known _) (ih after fewer)
      · rw [textOf_cons, text, List.append_assoc]
        exact readStringFrom_escape
          (readUnicode_single known trailing leading) (ih after fewer)
      · have evenFewer : glyphs.length < fuel := by
          rw [List.length_cons] at fewer
          omega
        rw [textOf_cons, textOf_cons, text, text, List.append_assoc, List.append_assoc]
        exact readStringFrom_escape
          (readUnicode_pair known knownMore trailing leading second) (ih after evenFewer)

/-- What is read spells what it is read as. -/
theorem exists_of_readStringFrom {fuel : Nat} {text rest chars : List Char}
    (read : readStringFrom fuel text = .ok (chars, rest)) :
    ∃ glyphs, text = textOf glyphs ++ '"' :: rest ∧ decode? glyphs = some chars := by
  induction fuel generalizing text chars with
  | zero => cases read
  | succ fuel ih =>
    unfold readStringFrom at read
    split at read
    · cases read
    · cases read
    · cases read
      exact ⟨[], rfl, rfl⟩
    · next text same =>
      cases same
      obtain ⟨⟨c, after⟩, escape, next⟩ := except_bind_eq_ok.1 read
      obtain ⟨⟨others, last⟩, following, final⟩ := except_bind_eq_ok.1 next
      cases final
      obtain ⟨glyphs, rfl, spelled⟩ := ih following
      rcases readEscape_cases escape with ⟨letter, known, rfl⟩ |
        ⟨digits, n, known, trailing, leading, rfl, rfl⟩ |
        ⟨digits, more, n, m, known, knownMore, trailing, leading, second, same, rfl⟩
      · refine ⟨.escape letter :: glyphs, rfl, ?_⟩
        rw [decode?, known, Option.bind_some, spelled]
        rfl
      · refine ⟨.unicode digits :: glyphs, ?_, ?_⟩
        · simp [Glyph.text]
        · rw [decode?_single known trailing leading, spelled]
          rfl
      · refine ⟨.unicode digits :: .unicode more :: glyphs, ?_, ?_⟩
        · simp [Glyph.text]
        · rw [decode?_pair known knownMore trailing leading second, spelled, Option.map_some, same]
    · next c text notQuote notEscape same =>
      cases same
      split at read
      · cases read
      · next visible =>
        obtain ⟨⟨others, last⟩, following, final⟩ := except_bind_eq_ok.1 read
        cases final
        obtain ⟨glyphs, rfl, spelled⟩ := ih following
        refine ⟨.plain c :: glyphs, rfl, ?_⟩
        rw [decode?, if_neg ?_, spelled]
        · rfl
        · simp only [not_or]
          exact ⟨notQuote, notEscape, visible⟩

/-- What every glyph of a literal is like. -/
def Readable : Glyph → Prop
  | plain c => c ≠ '"' ∧ c ≠ '\\'
  | escape letter => (escaped? letter).isSome = true
  | unicode digits => digits.length = 4 ∧ ∀ d ∈ digits, (Text.hexDigit? d).isSome = true

theorem readable_of_hexValue? {digits : List Char} {n : Nat} (known : hexValue? digits = some n) :
    (unicode digits).Readable := by
  have whole : digits.length = 4 := by
    apply Decidable.byContradiction
    intro other
    rw [hexValue?, if_neg other] at known
    cases known
  rw [hexValue?, if_pos whole] at known
  obtain ⟨values, all, -⟩ := Option.map_eq_some_iff.1 known
  refine ⟨whole, fun d member => ?_⟩
  clear whole known
  induction digits generalizing values with
  | nil => cases member
  | cons e digits ih =>
    rw [List.mapM_cons] at all
    obtain ⟨value, first, all⟩ := Option.bind_eq_some_iff.1 all
    obtain ⟨others, after, _⟩ := Option.bind_eq_some_iff.1 all
    rcases List.mem_cons.1 member with rfl | member
    · rw [first]
      rfl
    · exact ih others after member

theorem readable_of_decode? : ∀ {glyphs : List Glyph} {chars : List Char},
    decode? glyphs = some chars → ∀ g ∈ glyphs, g.Readable
  | [], _, _, g, member => by cases member
  | g :: rest, chars, spelled, g', member => by
    rcases decode?_cons_cases spelled with ⟨c, others, rfl, itself, after, _⟩ |
      ⟨letter, c, others, rfl, known, after, _⟩ | ⟨digits, n, others, rfl, known, _, _, after, _⟩ |
      ⟨digits, more, n, m, rest', others, rfl, rfl, known, knownMore, _, _, _, after, _⟩
    · rcases List.mem_cons.1 member with rfl | member
      · simp only [not_or] at itself
        exact ⟨itself.1, itself.2.1⟩
      · exact readable_of_decode? after g' member
    · rcases List.mem_cons.1 member with rfl | member
      · simp [Readable, known]
      · exact readable_of_decode? after g' member
    · rcases List.mem_cons.1 member with rfl | member
      · exact readable_of_hexValue? known
      · exact readable_of_decode? after g' member
    · rcases List.mem_cons.1 member with rfl | member
      · exact readable_of_hexValue? known
      · rcases List.mem_cons.1 member with rfl | member
        · exact readable_of_hexValue? knownMore
        · exact readable_of_decode? after g' member
termination_by glyphs => glyphs.length

end Glyph

/-- A string literal: glyphs between quotes, and what they spell. -/
structure Literal where
  glyphs : List Glyph
  chars : List Char
  spells : Glyph.decode? glyphs = some chars

namespace Literal

def body (l : Literal) : List Char := Glyph.textOf l.glyphs

def text (l : Literal) : List Char := '"' :: (l.body ++ ['"'])

def value (l : Literal) : String := String.ofList l.chars

theorem length_le_textOf (glyphs : List Glyph) : glyphs.length ≤ (Glyph.textOf glyphs).length := by
  induction glyphs with
  | nil => exact Nat.le_refl 0
  | cons g rest ih =>
    have nonempty : 1 ≤ g.text.length := by cases g <;> simp [Glyph.text]
    simp only [Glyph.textOf_cons, List.length_append, List.length_cons]
    omega

theorem readString_body (l : Literal) (rest : List Char) :
    readString (l.body ++ '"' :: rest) = .ok (l.value, rest) := by
  have enough : l.glyphs.length < (l.body ++ '"' :: rest).length + 1 := by
    have fits := length_le_textOf l.glyphs
    rw [List.length_append, body]
    omega
  have read : readStringFrom ((l.body ++ '"' :: rest).length + 1) (l.body ++ '"' :: rest) =
      .ok (l.chars, rest) := Glyph.readStringFrom_textOf l.spells enough rest
  rw [readString, read]
  rfl

theorem exists_of_readString {text rest : List Char} {s : String}
    (read : readString text = .ok (s, rest)) :
    ∃ l : Literal, text = l.body ++ '"' :: rest ∧ l.value = s := by
  obtain ⟨⟨chars, last⟩, found, final⟩ := except_bind_eq_ok.1 read
  cases final
  obtain ⟨glyphs, rfl, spelled⟩ := Glyph.exists_of_readStringFrom found
  exact ⟨⟨glyphs, chars, spelled⟩, rfl, rfl⟩

end Literal

end Json

end AttrGrammar
