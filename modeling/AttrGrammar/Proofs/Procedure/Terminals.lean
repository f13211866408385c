import AttrGrammar.Procedure.Language
import AttrGrammar.Proofs.Json.Written
import AttrGrammar.Proofs.Pattern.Recognizer

/-!
What the scanned terminals of the procedure language read, as recognizers, and how much of a JSON
text each of them takes.
-/

namespace AttrGrammar

namespace Recognizer

/-- Reads one word. -/
def word : List Char → Recognizer
  | [] => .accept .stop
  | c :: rest => .read (.single c) (word rest) .stop

/-- Reads one character or more of a set. -/
def many (s : CharSet) : Recognizer := .read s (.again s (.accept .stop)) .stop

/-- Reads a number of characters of a set. -/
def exactly (s : CharSet) : Nat → Recognizer
  | 0 => .accept .stop
  | n + 1 => .read s (exactly s n) .stop

theorem length?_of_stuck {r : Recognizer} {rest : List Char} (accepts : r.accepts = true)
    (stuck : ∀ c, rest.head? = some c → next? r c r = none) : r.length? rest = some 0 := by
  cases rest with
  | nil => simp [length?, accepts]
  | cons c rest => simp [length?, accepts, stuck c rfl]

theorem length?_step {r next : Recognizer} {c : Char} {rest : List Char} {n : Nat}
    (leads : next? r c r = some next) (takes : next.length? rest = some n) :
    r.length? (c :: rest) = some (n + 1) := by
  simp [length?, leads, takes]

theorem length?_none {r : Recognizer} {c : Char} (leads : next? r c r = none)
    (open' : r.accepts = false) (rest : List Char) : r.length? (c :: rest) = none := by
  simp [length?, leads, open']

theorem length?_word (w rest : List Char) : (word w).length? (w ++ rest) = some w.length := by
  induction w with
  | nil => exact length?_of_stuck rfl fun c _ => rfl
  | cons c w ih =>
    apply length?_step _ ih
    simp [word, next?]

/-- A state that comes back to itself takes a whole run of its characters. -/
theorem length?_again {r : Recognizer} {run rest : List Char} {n : Nat}
    (comesBack : ∀ c ∈ run, next? r c r = some r) (takes : r.length? rest = some n) :
    r.length? (run ++ rest) = some (run.length + n) := by
  induction run with
  | nil => simpa using takes
  | cons c run ih =>
    have others := ih fun d member => comesBack d (List.mem_cons_of_mem c member)
    have all := length?_step (comesBack c List.mem_cons_self) others
    rw [List.cons_append, all, List.length_cons]
    congr 1
    omega

theorem length?_many {s : CharSet} {c : Char} {run rest : List Char} (inside : s.contains c = true)
    (all : ∀ d ∈ run, s.contains d = true)
    (stops : ∀ d, rest.head? = some d → s.contains d = false) :
    (many s).length? (c :: (run ++ rest)) = some (run.length + 1) := by
  have last : (Recognizer.again s (.accept .stop)).length? rest = some 0 := by
    apply length?_of_stuck rfl
    intro d first
    simp [next?, stops d first]
  have comesBack : ∀ d ∈ run, next? (.again s (.accept .stop)) d (.again s (.accept .stop)) =
      some (.again s (.accept .stop)) := by
    intro d member
    simp [next?, all d member]
  apply length?_step _ (length?_again comesBack last)
  simp [many, next?, inside]

theorem length?_exactly {s : CharSet} {run : List Char} (all : ∀ d ∈ run, s.contains d = true)
    (rest : List Char) : (exactly s run.length).length? (run ++ rest) = some run.length := by
  induction run with
  | nil => exact length?_of_stuck rfl fun c _ => rfl
  | cons c run ih =>
    have others := ih fun d member => all d (List.mem_cons_of_mem c member)
    apply length?_step _ others
    simp [exactly, next?, all c List.mem_cons_self]

theorem length?_ne_zero {r : Recognizer} (open' : r.accepts = false) (text : List Char) :
    r.length? text ≠ some 0 := by
  cases text with
  | nil => simp [length?, open']
  | cons c text =>
    rw [length?, open']
    cases next? r c r with
    | none => simp
    | some next => cases next.length? text <;> simp

/-- A longer match begins with a step to another state. -/
theorem length?_cons_iff {r : Recognizer} {c : Char} {text : List Char} {n : Nat} :
    r.length? (c :: text) = some (n + 1) ↔
      ∃ next, next? r c r = some next ∧ next.length? text = some n := by
  rw [length?]
  cases next? r c r with
  | none => cases r.accepts <;> simp
  | some next =>
    simp only [Option.bind_some, Option.some.injEq, exists_eq_left']
    cases next.length? text <;> cases r.accepts <;> simp

theorem length?_le {r : Recognizer} {text : List Char} {n : Nat} (takes : r.length? text = some n) :
    n ≤ text.length := by
  induction text generalizing r n with
  | nil =>
    rw [length?] at takes
    split at takes
    · cases takes
      exact Nat.le_refl 0
    · cases takes
  | cons c text ih =>
    cases n with
    | zero => exact Nat.zero_le _
    | succ n =>
      obtain ⟨next, _, takes⟩ := length?_cons_iff.1 takes
      exact Nat.succ_le_succ (ih takes)

/-- A match does not depend on what comes behind it. -/
theorem length?_of_append {r : Recognizer} {text rest : List Char}
    (takes : r.length? (text ++ rest) = some text.length) : r.length? text = some text.length := by
  induction text generalizing r with
  | nil =>
    cases accepts : r.accepts with
    | true => rw [length?, if_pos accepts, List.length_nil]
    | false => exact absurd takes (length?_ne_zero accepts _)
  | cons c text ih =>
    obtain ⟨next, leads, takes⟩ := length?_cons_iff.1 takes
    exact length?_cons_iff.2 ⟨next, leads, ih takes⟩

/-- Every character that is read has a property. -/
def Within (P : Char → Prop) : Recognizer → Prop
  | stop => True
  | accept others => others.Within P
  | again s others => (∀ c, s.contains c = true → P c) ∧ others.Within P
  | read s next others => (∀ c, s.contains c = true → P c) ∧ next.Within P ∧ others.Within P

theorem next?_within {P : Char → Prop} {whole part next : Recognizer} {c : Char}
    (all : whole.Within P) (within : part.Within P) (leads : next? whole c part = some next) :
    P c ∧ next.Within P := by
  induction part with
  | stop => cases leads
  | accept others ih => exact ih within leads
  | again s others ih =>
    rw [next?] at leads
    split at leads
    · next inside =>
      cases leads
      exact ⟨within.1 c inside, all⟩
    · exact ih within.2 leads
  | read s other others _ ih =>
    rw [next?] at leads
    split at leads
    · next inside =>
      cases leads
      exact ⟨within.1 c inside, within.2.1⟩
    · exact ih within.2.2 leads

variable {r : Recognizer} {text rest : List Char}

theorem length?_within {P : Char → Prop} (within : r.Within P)
    (takes : r.length? (text ++ rest) = some text.length) : ∀ c ∈ text, P c := by
  induction text generalizing r with
  | nil => exact List.forall_mem_nil _
  | cons c text ih =>
    obtain ⟨next, leads, takes⟩ := length?_cons_iff.1 takes
    obtain ⟨here, within⟩ := next?_within within within leads
    exact List.forall_mem_cons.2 ⟨here, ih within takes⟩

/-- Whether a character is never read. -/
def avoids (x : Char) : Recognizer → Bool
  | stop => true
  | accept others => others.avoids x
  | again s others => !s.contains x && others.avoids x
  | read s next others => !s.contains x && (next.avoids x && others.avoids x)

theorem within_of_avoids {x : Char} (avoids : r.avoids x = true) : r.Within (· ≠ x) := by
  have other : ∀ s : CharSet, (!s.contains x) = true → ∀ c, s.contains c = true → c ≠ x := by
    rintro s outside c inside rfl
    simp [inside] at outside
  induction r with
  | stop => trivial
  | accept others ih => exact ih avoids
  | again s others ih =>
    rw [Recognizer.avoids, Bool.and_eq_true] at avoids
    exact ⟨other s avoids.1, ih avoids.2⟩
  | read s next others ihNext ih =>
    rw [Recognizer.avoids, Bool.and_eq_true, Bool.and_eq_true] at avoids
    exact ⟨other s avoids.1, ihNext avoids.2.1, ih avoids.2.2⟩

theorem ne_of_avoids {x : Char} (avoids : r.avoids x = true)
    (takes : r.length? (text ++ rest) = some text.length) : ∀ c ∈ text, c ≠ x :=
  length?_within (within_of_avoids avoids) takes

theorem eq_of_word {w : List Char} (takes : (word w).length? (text ++ rest) = some text.length) :
    text = w := by
  induction w generalizing text with
  | nil =>
    cases text with
    | nil => rfl
    | cons c text =>
      obtain ⟨next, leads, _⟩ := length?_cons_iff.1 takes
      cases leads
  | cons d w ih =>
    cases text with
    | nil => exact absurd takes (length?_ne_zero rfl _)
    | cons c text =>
      obtain ⟨next, leads, takes⟩ := length?_cons_iff.1 takes
      rw [word, next?] at leads
      split at leads
      · next same =>
        cases leads
        rw [CharSet.contains_single, decide_eq_true_eq] at same
        rw [same, ih takes]
      · cases leads

end Recognizer

namespace Procedure

open Recognizer
open Json (isBlank AreDigits NoDigit Ends IsSigned IsPower IsFraction IsScale IsNumber Numeral Glyph
  Literal)

def blank : CharSet :=
  .union (.single ' ') (.union (.single '\t') (.union (.single '\n') (.single '\r')))

theorem contains_blank (c : Char) : blank.contains c = isBlank c := by
  simp [blank, isBlank, Bool.or_assoc]

def digit : CharSet := .range '0' '9'

theorem contains_digit (c : Char) : digit.contains c = c.isDigit := by
  simp only [digit, CharSet.contains_range, Char.isDigit]
  rfl

def mark : CharSet := .union (.single 'e') (.single 'E')

def sign : CharSet := .union (.single '+') (.single '-')

/-- The digits of an exponent after the first. -/
def powerDigits : Recognizer := .again digit (.accept .stop)

/-- An exponent after its letter. -/
def power : Recognizer :=
  .read sign (.read digit powerDigits .stop) (.read digit powerDigits .stop)

/-- The digits of a fraction after the first, and an exponent. -/
def fractionDigits : Recognizer := .again digit (.read mark power (.accept .stop))

/-- What may come after the digits of an integer. -/
def scale : Recognizer :=
  .read (.single '.') (.read digit fractionDigits .stop) (.read mark power (.accept .stop))

/-- The digits of an integer after the first, and what comes after them. -/
def integerDigits : Recognizer := .again digit scale

def unsigned : Recognizer :=
  .read (.single '0') scale (.read (.range '1' '9') integerDigits .stop)

def signedNumber : Recognizer := .read (.single '-') unsigned unsigned

theorem next?_digit {others : Recognizer} {c : Char} (isDigit : c.isDigit = true) :
    next? (.again digit others) c (.again digit others) = some (.again digit others) := by
  simp [next?, contains_digit, isDigit]

theorem length?_digits {others : Recognizer} {digits rest : List Char} {n : Nat}
    (areDigits : AreDigits digits)
    (takes : (Recognizer.again digit others).length? rest = some n) :
    (Recognizer.again digit others).length? (digits ++ rest) = some (digits.length + n) :=
  length?_again (fun c member => next?_digit (List.all_eq_true.1 areDigits c member)) takes

theorem powerDigits_takes {digits rest : List Char} (areDigits : AreDigits digits)
    (stops : NoDigit rest) : powerDigits.length? (digits ++ rest) = some digits.length := by
  show (Recognizer.again digit (.accept .stop)).length? (digits ++ rest) = some (digits.length + 0)
  apply length?_digits areDigits
  apply length?_of_stuck rfl
  intro c first
  simp [next?, contains_digit, stops c first]

theorem power_takes {signed rest : List Char} (isSigned : IsSigned signed) (ends : Ends rest) :
    power.length? (signed ++ rest) = some signed.length := by
  obtain ⟨front, digits, isSign, nonempty, areDigits, rfl⟩ := isSigned
  cases digits with
  | nil => exact absurd rfl nonempty
  | cons c digits =>
    have both : c.isDigit = true ∧ AreDigits digits := by
      simpa [AreDigits] using areDigits
    have others := powerDigits_takes both.2 ends.noDigit
    have notSign : sign.contains c = false := by
      have fromDigit := both.1
      simp only [Char.isDigit, Bool.and_eq_true, decide_eq_true_eq] at fromDigit
      simp only [sign, CharSet.contains_union, CharSet.contains_single]
      rw [decide_eq_false, decide_eq_false]
      · rfl
      · rintro rfl
        exact absurd fromDigit.1 (by decide)
      · rintro rfl
        exact absurd fromDigit.1 (by decide)
    rcases isSign with rfl | rfl | rfl
    · apply length?_step _ others
      simp [power, next?, notSign, contains_digit, both.1]
    · apply length?_step rfl (length?_step _ others)
      simp [next?, contains_digit, both.1]
    · apply length?_step rfl (length?_step _ others)
      simp [next?, contains_digit, both.1]

/-- A state that may end a number, or go on with an exponent. -/
structure MayEnd (r : Recognizer) : Prop where
  accepts : r.accepts = true
  marked : ∀ c, c = 'e' ∨ c = 'E' → r.next? c r = some power
  stuck : ∀ c, c.isDigit = false → c ≠ '.' → c ≠ 'e' → c ≠ 'E' → r.next? c r = none

theorem MayEnd.takes {r : Recognizer} (mayEnd : MayEnd r) {text rest : List Char}
    (isPower : IsPower text) (ends : Ends rest) : r.length? (text ++ rest) = some text.length := by
  rcases isPower with rfl | ⟨letter, signed, isMark, isSigned, rfl⟩
  · apply length?_of_stuck mayEnd.accepts
    intro c first
    obtain ⟨noDigit, noPoint, noMark, noMark'⟩ := ends c first
    exact mayEnd.stuck c noDigit noPoint noMark noMark'
  · exact length?_step (mayEnd.marked letter isMark) (power_takes isSigned ends)

theorem mayEnd_fractionDigits : MayEnd fractionDigits where
  accepts := rfl
  marked := by
    rintro c (rfl | rfl) <;> rfl
  stuck := by
    intro c noDigit noPoint noMark noMark'
    simp [fractionDigits, next?, contains_digit, mark, *]

theorem mayEnd_scale : MayEnd scale where
  accepts := rfl
  marked := by
    rintro c (rfl | rfl) <;> rfl
  stuck := by
    intro c noDigit noPoint noMark noMark'
    simp [scale, next?, mark, *]

theorem mayEnd_integerDigits : MayEnd integerDigits where
  accepts := rfl
  marked := by
    rintro c (rfl | rfl) <;> rfl
  stuck := by
    intro c noDigit noPoint noMark noMark'
    simp [integerDigits, scale, next?, contains_digit, mark, *]

theorem fraction_takes {fraction rest : List Char} (isFraction : IsFraction false fraction)
    (ends : Ends rest) :
    (Recognizer.read digit fractionDigits .stop).length? (fraction ++ rest) =
      some fraction.length := by
  obtain ⟨digits, tail, nonempty, areDigits, isPower, rfl⟩ := isFraction
  cases digits with
  | nil => exact absurd rfl (nonempty rfl)
  | cons c digits =>
    have both : c.isDigit = true ∧ AreDigits digits := by
      simpa [AreDigits] using areDigits
    have others : fractionDigits.length? (digits ++ (tail ++ rest)) =
        Option.some (digits.length + tail.length) :=
      length?_digits both.2 (mayEnd_fractionDigits.takes isPower ends)
    rw [List.append_assoc, List.cons_append, List.length_append, List.length_cons,
      Nat.add_right_comm]
    apply length?_step _ others
    simp [next?, contains_digit, both.1]

theorem MayEnd.takes_scale {r : Recognizer} (mayEnd : MayEnd r)
    (pointed : r.next? '.' r = some (.read digit fractionDigits .stop)) {text rest : List Char}
    (isScale : IsScale text) (ends : Ends rest) : r.length? (text ++ rest) = some text.length := by
  rcases isScale with isPower | ⟨fraction, isFraction, rfl⟩
  · exact mayEnd.takes isPower ends
  · exact length?_step pointed (fraction_takes isFraction ends)

theorem unsigned_takes {digits rest : List Char} (isNumber : IsNumber digits) (ends : Ends rest) :
    unsigned.length? (digits ++ rest) = some digits.length := by
  rcases isNumber with ⟨tail, isScale, rfl⟩ | ⟨c, digits, tail, isDigit, notZero, areDigits, isScale, rfl⟩
  · exact length?_step rfl (mayEnd_scale.takes_scale rfl isScale ends)
  · have others : integerDigits.length? (digits ++ (tail ++ rest)) =
        some (digits.length + tail.length) :=
      length?_digits areDigits (mayEnd_integerDigits.takes_scale rfl isScale ends)
    have inside : (CharSet.range '1' '9').contains c = true := by
      simp only [Char.isDigit, Bool.and_eq_true, decide_eq_true_eq] at isDigit
      have other : c.toNat ≠ '0'.toNat := fun same => notZero (Char.toNat_inj.1 same)
      have low : '0'.toNat ≤ c.toNat := isDigit.1
      have next : '1'.toNat ≤ c.toNat := by
        change 48 ≤ c.toNat at low
        change c.toNat ≠ 48 at other
        show 49 ≤ c.toNat
        omega
      rw [CharSet.contains_range, decide_eq_true (show '1' ≤ c from next),
        decide_eq_true (show c ≤ '9' from isDigit.2)]
      rfl
    rw [List.cons_append, List.append_assoc, List.length_cons, List.length_append]
    apply length?_step _ others
    simp [unsigned, next?, inside, notZero]

/-- A number is taken as a whole. -/
theorem number_takes (n : Numeral) {rest : List Char} (ends : Ends rest) :
    signedNumber.length? (n.text ++ rest) = some n.text.length := by
  have digits := unsigned_takes n.shape ends
  rw [Numeral.text]
  split
  · exact length?_step rfl digits
  · obtain ⟨c, tail, same, isDigit⟩ := n.shape.starts
    rw [same] at digits ⊢
    have notMinus : c ≠ '-' := by
      rintro rfl
      exact absurd isDigit (by decide)
    have next : signedNumber.next? c signedNumber = unsigned.next? c unsigned := by
      simp [signedNumber, unsigned, next?, notMinus]
    rw [List.cons_append, Recognizer.length?] at digits ⊢
    rw [next]
    exact digits

def truthValue : Recognizer :=
  .read (.single 't') (.word ['r', 'u', 'e']) (.read (.single 'f') (.word ['a', 'l', 's', 'e']) .stop)

/-- The characters that stand for themselves in a string. -/
def ordinary : CharSet := (CharSet.union (.single '"') (.single '\\')).complement

def hexDigit : CharSet := .union digit (.union (.range 'a' 'f') (.range 'A' 'F'))

def escapeLetter : CharSet :=
  ['"', '\\', '/', 'b', 'f', 'n', 'r', 't'].foldr (fun c s => .union (.single c) s) ∅

def escape : Recognizer :=
  .read (.single '\\') (.read escapeLetter (.accept .stop)
    (.read (.single 'u') (.exactly hexDigit 4) .stop)) .stop

def nameStart : CharSet := .union (.range 'a' 'z') (.union (.range 'A' 'Z') (.single '_'))

def namePart : CharSet := nameStart.union digit

/-- A special form after the ampersand and the first character of its name. -/
def formRest : Recognizer := .again namePart (.read (.single '"') (.accept .stop) .stop)

def form : Recognizer :=
  .read (.single '"') (.read (.single '&') (.read nameStart formRest .stop) .stop) .stop

/-- What a scanned terminal reads. -/
def recognizer (terminal : String) : Recognizer :=
  match terminal with
  | "ws" => .many blank
  | "quote" | "item_quote" => .word ['"']
  | "chars" => .many ordinary
  | "escape" => escape
  | "lbrace" => .word ['{']
  | "rbrace" => .word ['}']
  | "lbracket" | "item_lbracket" => .word ['[']
  | "rbracket" | "item_rbracket" => .word [']']
  | "colon" => .word [':']
  | "member_divider" | "item_divider" => .word [',']
  | "number" | "item_number" => signedNumber
  | "boolean" | "item_boolean" => truthValue
  | "null" | "item_null" => .word ['n', 'u', 'l', 'l']
  | "let_form" => .word ['"', '&', 'l', 'e', 't', '"']
  | "ref_form" => .word ['"', '&', 'r', 'e', 'f', '"']
  | "doc_form" => .word ['"', '&', 'd', 'o', 'c', '"']
  | "unknown_form" => form
  | _ => .stop

theorem ordinary_of_readable {c : Char} (readable : (Glyph.plain c).Readable) :
    ordinary.contains c = true := by
  simp [ordinary, readable.1, readable.2]

theorem contains_escapeLetter {letter : Char} (known : (Glyph.escaped? letter).isSome = true) :
    escapeLetter.contains letter = true := by
  unfold Glyph.escaped? at known
  split at known <;> first | rfl | cases known

theorem contains_hexDigit {d : Char} (known : (Text.hexDigit? d).isSome = true) :
    hexDigit.contains d = true := by
  simp only [hexDigit, digit, CharSet.contains_union, CharSet.contains_range]
  unfold Text.hexDigit? at known
  split at known
  · next inside => rw [inside]; rfl
  · split at known
    · next inside => rw [inside]; simp
    · split at known
      · next inside => rw [inside]; simp
      · cases known

/-- An escape is taken as a whole. -/
theorem escape_takes {g : Glyph} (readable : g.Readable) (notPlain : ∀ c, g ≠ .plain c)
    (rest : List Char) : escape.length? (g.text ++ rest) = some g.text.length := by
  cases g with
  | plain c => exact absurd rfl (notPlain c)
  | escape letter =>
    apply length?_step rfl
    apply length?_step _ (length?_of_stuck (r := .accept .stop) rfl fun c _ => rfl)
    simp [next?, contains_escapeLetter readable]
  | unicode digits =>
    obtain ⟨four, hex⟩ := readable
    have others := length?_exactly (fun d member => contains_hexDigit (hex d member)) rest
    rw [four] at others
    show escape.length? ('\\' :: 'u' :: (digits ++ rest)) = some (digits.length + 1 + 1)
    rw [four]
    exact length?_step rfl (length?_step rfl others)

/-- The text of a literal between its quotes, if it is that of a special form: an ampersand and a
name. -/
def isForm : List Char → Bool
  | '&' :: c :: name => nameStart.contains c && name.all namePart.contains
  | _ => false

/-- The terminal for a special form, by its text between the quotes. -/
def formTerminal (body : List Char) : String :=
  if body = ['&', 'l', 'e', 't'] then "let_form"
  else if body = ['&', 'r', 'e', 'f'] then "ref_form"
  else if body = ['&', 'd', 'o', 'c'] then "doc_form"
  else "unknown_form"

/-- Where a glyph begins, unless it stands for itself. -/
theorem text_cases (g : Glyph) : (∃ c, g = .plain c) ∨ ∃ tail, g.text = '\\' :: tail := by
  cases g with
  | plain c => exact Or.inl ⟨c, rfl⟩
  | escape letter => exact Or.inr ⟨_, rfl⟩
  | unicode digits => exact Or.inr ⟨_, rfl⟩

theorem length?_read (s : CharSet) (next : Recognizer) (c : Char) (rest : List Char) :
    (Recognizer.read s next .stop).length? (c :: rest) =
      if s.contains c then (next.length? rest).map (· + 1) else none := by
  cases inside : s.contains c <;> simp [length?, next?, accepts, inside]

theorem length?_single (c : Char) (next : Recognizer) (rest : List Char) :
    (Recognizer.read (.single c) next .stop).length? (c :: rest) =
      (next.length? rest).map (· + 1) := by
  simp [length?_read]

theorem formRest_length? {glyphs : List Glyph} (readable : ∀ g ∈ glyphs, g.Readable)
    (rest : List Char) :
    formRest.length? (Glyph.textOf glyphs ++ '"' :: rest) =
      if (Glyph.textOf glyphs).all namePart.contains then
        some ((Glyph.textOf glyphs).length + 1)
      else none := by
  induction glyphs with
  | nil => exact length?_step rfl (length?_of_stuck (r := .accept .stop) rfl fun c _ => rfl)
  | cons g glyphs ih =>
    rw [Glyph.textOf_cons]
    rcases text_cases g with ⟨c, rfl⟩ | ⟨tail, same⟩
    · have itself := readable _ List.mem_cons_self
      have others := ih fun g member => readable g (List.mem_cons_of_mem _ member)
      show formRest.length? (c :: (Glyph.textOf glyphs ++ '"' :: rest)) =
        if (namePart.contains c && (Glyph.textOf glyphs).all namePart.contains) = true then
          some ((Glyph.textOf glyphs).length + 1 + 1)
        else none
      by_cases part : namePart.contains c = true
      · have back : next? formRest c formRest = some formRest := by
          simp [formRest, next?, part]
        rw [length?, back, Option.bind_some, others, part, Bool.true_and]
        split <;> rfl
      · rw [Bool.not_eq_true] at part
        rw [part, Bool.false_and]
        apply length?_none _ rfl
        simp [formRest, next?, part, itself.1]
    · rw [same, List.cons_append, List.cons_append, List.all_cons]
      exact length?_none rfl rfl _

/-- A literal is taken as a special form just if it looks like one. -/
theorem form_length? (l : Literal) (rest : List Char) :
    form.length? (l.text ++ rest) = if isForm l.body then some l.text.length else none := by
  have readable := Glyph.readable_of_decode? l.spells
  have shape : l.text ++ rest = '"' :: (Glyph.textOf l.glyphs ++ '"' :: rest) := by
    simp [Literal.text, Literal.body]
  have size : l.text.length = (Glyph.textOf l.glyphs).length + 2 := by
    simp [Literal.text, Literal.body]
  rw [shape, size, Literal.body, form, length?_single]
  generalize l.glyphs = glyphs at readable
  cases glyphs with
  | nil => rfl
  | cons g glyphs =>
    rw [Glyph.textOf_cons]
    rcases text_cases g with ⟨c, rfl⟩ | ⟨tail, same⟩
    · rw [Glyph.text, List.cons_append, List.nil_append, List.cons_append]
      by_cases ampersand : c = '&'
      · subst ampersand
        rw [length?_single]
        cases glyphs with
        | nil => rfl
        | cons g glyphs =>
          rw [Glyph.textOf_cons]
          rcases text_cases g with ⟨d, rfl⟩ | ⟨tail, same⟩
          · have others := formRest_length?
              (fun g member => readable g (List.mem_cons_of_mem _ (List.mem_cons_of_mem _ member)))
              rest
            rw [Glyph.text, List.cons_append, List.nil_append, List.cons_append, length?_read,
              others, isForm]
            cases nameStart.contains d with
            | false => rfl
            | true =>
              rw [Bool.true_and, if_pos rfl]
              split <;> rfl
          · rw [same, List.cons_append, List.cons_append, length?_read]
            rfl
      · rw [length?_read, CharSet.contains_single, decide_eq_false ampersand]
        have other : isForm (c :: Glyph.textOf glyphs) = false := by
          simp [isForm, ampersand]
        rw [other]
        rfl
    · rw [same, List.cons_append, List.cons_append, length?_read]
      rfl

/-- A word between quotes is taken just from the literal of that word. -/
theorem word_length? (w : List Char) (simple : ∀ c ∈ w, c ≠ '"' ∧ c ≠ '\\') (l : Literal)
    (rest : List Char) :
    (word ('"' :: (w ++ ['"']))).length? (l.text ++ rest) =
      if l.body = w then some l.text.length else none := by
  have readable := Glyph.readable_of_decode? l.spells
  have shape : l.text ++ rest = '"' :: (Glyph.textOf l.glyphs ++ '"' :: rest) := by
    simp [Literal.text, Literal.body]
  have size : l.text.length = (Glyph.textOf l.glyphs).length + 1 + 1 := by
    simp [Literal.text, Literal.body]
  rw [shape, size, Literal.body, word, length?_single]
  generalize l.glyphs = glyphs at readable
  have inner : (word (w ++ ['"'])).length? (Glyph.textOf glyphs ++ '"' :: rest) =
      if Glyph.textOf glyphs = w then some ((Glyph.textOf glyphs).length + 1) else none := by
    clear shape size
    induction w generalizing glyphs with
    | nil =>
      cases glyphs with
      | nil =>
        exact length?_step rfl (length?_of_stuck (r := .accept .stop) rfl fun c _ => rfl)
      | cons g glyphs =>
        rw [Glyph.textOf_cons]
        rcases text_cases g with ⟨c, rfl⟩ | ⟨tail, same⟩
        · have itself := readable _ List.mem_cons_self
          rw [Glyph.text, List.cons_append, List.nil_append, List.cons_append, List.nil_append, word,
            length?_read, CharSet.contains_single, decide_eq_false itself.1]
          rfl
        · rw [same]
          rfl
    | cons d w ih =>
      have first := simple d List.mem_cons_self
      have later := fun c member => simple c (List.mem_cons_of_mem d member)
      cases glyphs with
      | nil =>
        rw [Glyph.textOf_nil, List.nil_append, List.cons_append, word, length?_read,
          CharSet.contains_single, decide_eq_false (Ne.symm first.1)]
        rfl
      | cons g glyphs =>
        rw [Glyph.textOf_cons]
        rcases text_cases g with ⟨c, rfl⟩ | ⟨tail, same⟩
        · have others := ih later glyphs fun g member => readable g (List.mem_cons_of_mem _ member)
          show (word (d :: (w ++ ['"']))).length? (c :: (Glyph.textOf glyphs ++ '"' :: rest)) =
            if c :: Glyph.textOf glyphs = d :: w then
              some ((Glyph.textOf glyphs).length + 1 + 1)
            else none
          rw [word, length?_read, CharSet.contains_single, others]
          by_cases equal : c = d
          · subst equal
            by_cases rest : Glyph.textOf glyphs = w <;> simp [rest]
          · simp [equal]
        · rw [same, List.cons_append, List.cons_append, List.cons_append, word, length?_read,
            CharSet.contains_single, decide_eq_false (Ne.symm first.2)]
          simp [Ne.symm first.2]
  rw [inner]
  split <;> rfl

end Procedure

end AttrGrammar
