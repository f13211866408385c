import AttrGrammar.Proofs.Json.Literal

/-!
Numbers as they are written.

A numeral has digits, perhaps a fraction and perhaps an exponent. The reader takes a number from the
start of a text just if a numeral stands there, and takes the same number whatever follows, as long
as that does not go on with the numeral.
-/

namespace AttrGrammar.Json

/-- A text that does not go on with a numeral. -/
def Ends (rest : List Char) : Prop :=
  ∀ c, rest.head? = some c → c.isDigit = false ∧ c ≠ '.' ∧ c ≠ 'e' ∧ c ≠ 'E'

theorem ends_nil : Ends [] := nofun

def AreDigits (text : List Char) : Prop := text.all Char.isDigit = true

def NoDigit (text : List Char) : Prop := ∀ c, text.head? = some c → c.isDigit = false

theorem Ends.noDigit {rest : List Char} (ends : Ends rest) : NoDigit rest :=
  fun c head => (ends c head).1

theorem areDigits_takeWhile (text : List Char) : AreDigits (text.takeWhile Char.isDigit) := by
  rw [AreDigits, List.all_eq_true]
  intro c member
  have kept := List.all_takeWhile (p := Char.isDigit) (l := text)
  exact List.all_eq_true.1 kept c member

theorem dropWhile_append {digits rest : List Char} (areDigits : AreDigits digits)
    (stops : NoDigit rest) : (digits ++ rest).dropWhile Char.isDigit = rest := by
  induction digits with
  | nil =>
    cases rest with
    | nil => rfl
    | cons c rest => rw [List.nil_append, List.dropWhile_cons, stops c rfl]; rfl
  | cons c digits ih =>
    rw [AreDigits, List.all_cons, Bool.and_eq_true] at areDigits
    rw [List.cons_append, List.dropWhile_cons, areDigits.1]
    exact ih areDigits.2

theorem takeWhile_append {digits rest : List Char} (areDigits : AreDigits digits)
    (stops : NoDigit rest) : (digits ++ rest).takeWhile Char.isDigit = digits := by
  induction digits with
  | nil =>
    cases rest with
    | nil => rfl
    | cons c rest => rw [List.nil_append, List.takeWhile_cons, stops c rfl]; rfl
  | cons c digits ih =>
    rw [AreDigits, List.all_cons, Bool.and_eq_true] at areDigits
    rw [List.cons_append, List.takeWhile_cons, areDigits.1, if_pos rfl, ih areDigits.2]

/-- A reading function takes the start of a text, which has some shape, as a value, whatever comes
after it. -/
def Takes (read : List Char → Except Stop (Json × List Char)) (shape : List Char → Prop)
    (text rest : List Char) (value : Json) : Prop :=
  ∃ front, shape front ∧ text = front ++ rest ∧
    ∀ rest', Ends rest' → read (front ++ rest') = .ok (value, rest')

section

variable {negative : Bool} {text rest : List Char} {value : Json}

theorem finishParts_takes {significand : Nat} {exponent : Int}
    (read : finishParts negative significand exponent text = .ok (value, rest)) :
    text = rest ∧ ∀ rest', finishParts negative significand exponent rest' = .ok (value, rest') := by
  unfold finishParts at read ⊢
  cases parts : ofParts negative significand exponent with
  | none => rw [parts] at read; cases read
  | some x =>
    rw [parts] at read
    cases read
    exact ⟨rfl, fun rest' => rfl⟩

theorem readExponentDigits_stops {down : Bool} {significand next : Nat} {start : Int}
    {rest : List Char} (stops : NoDigit rest) :
    readExponentDigits negative down significand start next rest =
      finishParts negative significand
        (clampExponent (if down then start - next else start + next)) rest := by
  cases rest with
  | nil => rfl
  | cons c rest =>
    rw [readExponentDigits, stops c rfl]
    rfl

theorem readExponentDigits_takes_nothing {down : Bool} {significand next : Nat} {start : Int}
    (stops : NoDigit text)
    (read : readExponentDigits negative down significand start next text = .ok (value, rest)) :
    Takes (readExponentDigits negative down significand start next) AreDigits text rest value := by
  rw [readExponentDigits_stops stops] at read
  obtain ⟨rfl, reads⟩ := finishParts_takes read
  refine ⟨[], rfl, rfl, fun rest' ends => ?_⟩
  rw [List.nil_append, readExponentDigits_stops ends.noDigit, reads]

theorem noDigit_cons {c : Char} (other : ¬ c.isDigit = true) (text : List Char) :
    NoDigit (c :: text) := by
  intro c' head
  cases head
  simpa using other

theorem areDigits_cons {c : Char} {digits : List Char} (digit : c.isDigit = true)
    (others : AreDigits digits) : AreDigits (c :: digits) := by
  rw [AreDigits, List.all_cons, digit]
  exact others

theorem readExponentDigits_takes {down : Bool} {significand next : Nat} {start : Int}
    (read : readExponentDigits negative down significand start next text = .ok (value, rest)) :
    Takes (readExponentDigits negative down significand start next) AreDigits text rest value := by
  induction text generalizing next with
  | nil => exact readExponentDigits_takes_nothing nofun read
  | cons c text ih =>
    by_cases digit : c.isDigit = true
    · rw [readExponentDigits, if_pos digit] at read
      dsimp only at read
      split at read
      · next small =>
        obtain ⟨front, digits, rfl, reads⟩ := ih read
        refine ⟨c :: front, areDigits_cons digit digits, rfl, fun rest' ends => ?_⟩
        rw [List.cons_append, readExponentDigits, if_pos digit]
        dsimp only
        rw [if_pos small, reads rest' ends]
      · next large =>
        split at read
        · cases read
        · next harmless =>
          cases read
          refine ⟨c :: text.takeWhile Char.isDigit,
            areDigits_cons digit (areDigits_takeWhile text), ?_, fun rest' ends => ?_⟩
          · rw [List.cons_append, List.takeWhile_append_dropWhile]
          · rw [List.cons_append, readExponentDigits, if_pos digit]
            dsimp only
            rw [if_neg large, if_neg harmless,
              dropWhile_append (areDigits_takeWhile text) ends.noDigit]
    · exact readExponentDigits_takes_nothing (noDigit_cons digit text) read

/-- The sign and the digits of an exponent. -/
def IsSigned (text : List Char) : Prop :=
  ∃ sign digits, (sign = [] ∨ sign = ['-'] ∨ sign = ['+']) ∧ digits ≠ [] ∧ AreDigits digits ∧
    text = sign ++ digits

theorem readExponent_minus {significand : Nat} {start : Int} {c : Char} (digit : c.isDigit = true)
    (text : List Char) : readExponent negative significand start ('-' :: c :: text) =
      readExponentDigits negative true significand start (digitValue c) text := if_pos digit

theorem readExponent_plus {significand : Nat} {start : Int} {c : Char} (digit : c.isDigit = true)
    (text : List Char) : readExponent negative significand start ('+' :: c :: text) =
      readExponentDigits negative false significand start (digitValue c) text := if_pos digit

theorem readExponent_digit {significand : Nat} {start : Int} {c : Char} (digit : c.isDigit = true)
    (text : List Char) : readExponent negative significand start (c :: text) =
      readExponentDigits negative false significand start (digitValue c) text := by
  unfold readExponent
  split
  next down after taken =>
  split at taken
  · next same =>
    obtain ⟨rfl, _⟩ := List.cons.inj same
    cases digit
  · next same =>
    obtain ⟨rfl, _⟩ := List.cons.inj same
    cases digit
  · cases taken
    exact if_pos digit

theorem readExponent_takes {significand : Nat} {start : Int}
    (read : readExponent negative significand start text = .ok (value, rest)) :
    Takes (readExponent negative significand start) IsSigned text rest value := by
  unfold readExponent at read
  split at read
  next down after taken =>
  -- A digit comes next, whatever the sign was.
  split at read
  · cases read
  next c tail =>
  split at read
  · next digit =>
    obtain ⟨front, digits, rfl, reads⟩ := readExponentDigits_takes read
    have signed : ∀ sign, (sign = [] ∨ sign = ['-'] ∨ sign = ['+']) →
        IsSigned (sign ++ c :: front) := fun sign one =>
      ⟨sign, c :: front, one, List.cons_ne_nil c front, areDigits_cons digit digits, rfl⟩
    split at taken <;> cases taken
    · refine ⟨['-'] ++ c :: front, signed _ (by simp), rfl, fun rest' ends => ?_⟩
      exact (readExponent_minus digit _).trans (reads rest' ends)
    · refine ⟨['+'] ++ c :: front, signed _ (by simp), rfl, fun rest' ends => ?_⟩
      exact (readExponent_plus digit _).trans (reads rest' ends)
    · refine ⟨c :: front, signed [] (by simp), rfl, fun rest' ends => ?_⟩
      exact (readExponent_digit digit _).trans (reads rest' ends)
  · cases read

/-- An exponent with its letter, or nothing. -/
def IsPower (text : List Char) : Prop :=
  text = [] ∨ ∃ letter signed, (letter = 'e' ∨ letter = 'E') ∧ IsSigned signed ∧
    text = letter :: signed

theorem IsPower.noDigit {power rest : List Char} (isPower : IsPower power) (ends : Ends rest) :
    NoDigit (power ++ rest) := by
  rcases isPower with rfl | ⟨letter, signed, rfl | rfl, _, rfl⟩
  · exact ends.noDigit
  · exact noDigit_cons (by decide) _
  · exact noDigit_cons (by decide) _

theorem finishFloat_ends {significand : Nat} {exponent : Int} (ends : Ends rest) :
    finishFloat negative significand exponent rest =
      finishParts negative significand exponent rest := by
  unfold finishFloat
  split
  · exact absurd rfl (ends _ rfl).2.2.1
  · exact absurd rfl (ends _ rfl).2.2.2
  · rfl

theorem finishFloat_takes {significand : Nat} {exponent : Int}
    (read : finishFloat negative significand exponent text = .ok (value, rest)) :
    Takes (finishFloat negative significand exponent) IsPower text rest value := by
  unfold finishFloat at read
  split at read
  · obtain ⟨front, signed, rfl, reads⟩ := readExponent_takes read
    exact ⟨'e' :: front, Or.inr ⟨_, _, Or.inl rfl, signed, rfl⟩, rfl, reads⟩
  · obtain ⟨front, signed, rfl, reads⟩ := readExponent_takes read
    exact ⟨'E' :: front, Or.inr ⟨_, _, Or.inr rfl, signed, rfl⟩, rfl, reads⟩
  · obtain ⟨rfl, reads⟩ := finishParts_takes read
    refine ⟨[], Or.inl rfl, rfl, fun rest' ends => ?_⟩
    rw [List.nil_append, finishFloat_ends ends, reads]

/-- Digits, at least one unless there was one before, and then an exponent or nothing. -/
def IsFraction (seen : Bool) (text : List Char) : Prop :=
  ∃ digits power, (seen = false → digits ≠ []) ∧ AreDigits digits ∧ IsPower power ∧
    text = digits ++ power

theorem readFraction_stops {significand : Nat} {exponent : Int} (stops : NoDigit text) :
    readFraction negative significand exponent true text =
      finishFloat negative significand exponent text := by
  cases text with
  | nil => rfl
  | cons c text =>
    rw [readFraction, stops c rfl]
    rfl

theorem readFraction_takes_nothing {significand : Nat} {exponent : Int} (stops : NoDigit text)
    (read : readFraction negative significand exponent true text = .ok (value, rest)) :
    Takes (readFraction negative significand exponent true) (IsFraction true) text rest value := by
  rw [readFraction_stops stops] at read
  obtain ⟨front, power, rfl, reads⟩ := finishFloat_takes read
  refine ⟨front, ⟨[], front, nofun, rfl, power, rfl⟩, rfl, fun rest' ends => ?_⟩
  rw [readFraction_stops (power.noDigit ends), reads rest' ends]

theorem readFraction_takes {significand : Nat} {exponent : Int} {seen : Bool}
    (read : readFraction negative significand exponent seen text = .ok (value, rest)) :
    Takes (readFraction negative significand exponent seen) (IsFraction seen) text rest value := by
  induction text generalizing significand exponent seen with
  | nil =>
    cases seen with
    | true => exact readFraction_takes_nothing nofun read
    | false => cases read
  | cons c text ih =>
    by_cases digit : c.isDigit = true
    · rw [readFraction, if_pos digit] at read
      dsimp only at read
      split at read
      · next small =>
        obtain ⟨front, ⟨digits, power, _, areDigits, isPower, rfl⟩, rfl, reads⟩ := ih read
        refine ⟨c :: (digits ++ power), ⟨c :: digits, power, nofun, areDigits_cons digit areDigits,
          isPower, rfl⟩, rfl, fun rest' ends => ?_⟩
        rw [List.cons_append, readFraction, if_pos digit]
        dsimp only
        rw [if_pos small, reads rest' ends]
      · next large =>
        obtain ⟨front, power, same, reads⟩ := finishFloat_takes read
        refine ⟨c :: (text.takeWhile Char.isDigit ++ front),
          ⟨c :: text.takeWhile Char.isDigit, front, nofun,
            areDigits_cons digit (areDigits_takeWhile text), power, rfl⟩, ?_, fun rest' ends => ?_⟩
        · rw [List.cons_append, List.append_assoc, ← same, List.takeWhile_append_dropWhile]
        · rw [List.cons_append, readFraction, if_pos digit]
          dsimp only
          rw [if_neg large, List.append_assoc,
            dropWhile_append (areDigits_takeWhile text) (power.noDigit ends), reads rest' ends]
    · cases seen with
      | true => exact readFraction_takes_nothing (noDigit_cons digit text) read
      | false =>
        rw [readFraction, if_neg digit] at read
        cases read

/-- A fraction with its point, or none, and then an exponent or nothing. -/
def IsScale (text : List Char) : Prop :=
  IsPower text ∨ ∃ fraction, IsFraction false fraction ∧ text = '.' :: fraction

theorem IsScale.noDigit {scale rest : List Char} (isScale : IsScale scale) (ends : Ends rest) :
    NoDigit (scale ++ rest) := by
  rcases isScale with power | ⟨fraction, _, rfl⟩
  · exact power.noDigit ends
  · exact noDigit_cons (by decide) _

theorem finishInteger_ends {significand : Nat} (ends : Ends rest) :
    finishInteger negative significand rest = .ok (ofInteger negative significand, rest) := by
  unfold finishInteger
  split
  · exact absurd rfl (ends _ rfl).2.1
  · exact absurd rfl (ends _ rfl).2.2.1
  · exact absurd rfl (ends _ rfl).2.2.2
  · rfl

theorem finishInteger_takes {significand : Nat}
    (read : finishInteger negative significand text = .ok (value, rest)) :
    Takes (finishInteger negative significand) IsScale text rest value := by
  unfold finishInteger at read
  split at read
  · obtain ⟨front, fraction, rfl, reads⟩ := readFraction_takes read
    exact ⟨'.' :: front, Or.inr ⟨front, fraction, rfl⟩, rfl, reads⟩
  · obtain ⟨front, signed, rfl, reads⟩ := readExponent_takes read
    exact ⟨'e' :: front, Or.inl (Or.inr ⟨_, _, Or.inl rfl, signed, rfl⟩), rfl, reads⟩
  · obtain ⟨front, signed, rfl, reads⟩ := readExponent_takes read
    exact ⟨'E' :: front, Or.inl (Or.inr ⟨_, _, Or.inr rfl, signed, rfl⟩), rfl, reads⟩
  · cases read
    exact ⟨[], Or.inl (Or.inl rfl), rfl, fun rest' ends => finishInteger_ends ends⟩

/-- What follows the digits of a long integer, of which some were dropped. -/
def finishDropped (negative : Bool) (significand : Nat) (dropped : Int) (text : List Char) :
    Except Stop (Json × List Char) :=
  match text with
  | '.' :: rest => readFraction negative significand dropped false rest
  | rest => finishFloat negative significand dropped rest

theorem finishLong_eq (significand : Nat) (text : List Char) :
    finishLong negative significand text =
      finishDropped negative significand (text.takeWhile Char.isDigit).length
        (text.dropWhile Char.isDigit) := rfl

theorem finishDropped_takes {significand : Nat} {dropped : Int}
    (read : finishDropped negative significand dropped text = .ok (value, rest)) :
    Takes (finishDropped negative significand dropped) IsScale text rest value := by
  unfold finishDropped at read
  split at read
  · obtain ⟨front, fraction, rfl, reads⟩ := readFraction_takes read
    exact ⟨'.' :: front, Or.inr ⟨front, fraction, rfl⟩, rfl, reads⟩
  · obtain ⟨front, power, rfl, reads⟩ := finishFloat_takes read
    refine ⟨front, Or.inl power, rfl, fun rest' ends => ?_⟩
    rw [← reads rest' ends]
    unfold finishDropped
    split
    · next same =>
      rcases power with rfl | ⟨letter, signed, rfl | rfl, _, rfl⟩
      · rw [List.nil_append] at same
        subst same
        exact absurd rfl (ends _ rfl).2.1
      · cases same
      · cases same
    · rfl

/-- Digits and what may follow them in a number. -/
def IsInteger (text : List Char) : Prop :=
  ∃ digits scale, AreDigits digits ∧ IsScale scale ∧ text = digits ++ scale

theorem readInteger_stops {significand : Nat} (stops : NoDigit text) :
    readInteger negative significand text = finishInteger negative significand text := by
  cases text with
  | nil => rfl
  | cons c text =>
    rw [readInteger, stops c rfl]
    rfl

theorem readInteger_takes_nothing {significand : Nat} (stops : NoDigit text)
    (read : readInteger negative significand text = .ok (value, rest)) :
    Takes (readInteger negative significand) IsInteger text rest value := by
  rw [readInteger_stops stops] at read
  obtain ⟨front, scale, rfl, reads⟩ := finishInteger_takes read
  refine ⟨front, ⟨[], front, rfl, scale, rfl⟩, rfl, fun rest' ends => ?_⟩
  rw [readInteger_stops (scale.noDigit ends), reads rest' ends]

theorem readInteger_takes {significand : Nat}
    (read : readInteger negative significand text = .ok (value, rest)) :
    Takes (readInteger negative significand) IsInteger text rest value := by
  induction text generalizing significand with
  | nil => exact readInteger_takes_nothing nofun read
  | cons c text ih =>
    by_cases digit : c.isDigit = true
    · rw [readInteger, if_pos digit] at read
      dsimp only at read
      split at read
      · next small =>
        obtain ⟨front, ⟨digits, scale, areDigits, isScale, rfl⟩, rfl, reads⟩ := ih read
        refine ⟨c :: (digits ++ scale), ⟨c :: digits, scale, areDigits_cons digit areDigits, isScale,
          rfl⟩, rfl, fun rest' ends => ?_⟩
        rw [List.cons_append, readInteger, if_pos digit]
        dsimp only
        rw [if_pos small, reads rest' ends]
      · next large =>
        rw [finishLong_eq] at read
        obtain ⟨front, scale, same, reads⟩ := finishDropped_takes read
        have kept : ∀ tail, (c :: tail).takeWhile Char.isDigit = c :: tail.takeWhile Char.isDigit ∧
            (c :: tail).dropWhile Char.isDigit = tail.dropWhile Char.isDigit := fun tail =>
          ⟨by rw [List.takeWhile_cons, if_pos digit], by rw [List.dropWhile_cons, if_pos digit]⟩
        rw [(kept text).2] at same
        refine ⟨c :: (text.takeWhile Char.isDigit ++ front),
          ⟨c :: text.takeWhile Char.isDigit, front,
            areDigits_cons digit (areDigits_takeWhile text), scale, rfl⟩, ?_, fun rest' ends => ?_⟩
        · rw [List.cons_append, List.append_assoc, ← same, List.takeWhile_append_dropWhile]
        · have stops := scale.noDigit ends
          rw [List.cons_append, readInteger, if_pos digit]
          dsimp only
          rw [if_neg large, finishLong_eq, (kept _).1, (kept _).2, List.append_assoc,
            takeWhile_append (areDigits_takeWhile text) stops,
            dropWhile_append (areDigits_takeWhile text) stops, ← reads rest' ends, (kept text).1]
    · exact readInteger_takes_nothing (noDigit_cons digit text) read

/-- The text of a number after its sign. A leading zero stands alone. -/
def IsNumber (text : List Char) : Prop :=
  (∃ scale, IsScale scale ∧ text = '0' :: scale) ∨
    ∃ c digits scale, c.isDigit = true ∧ c ≠ '0' ∧ AreDigits digits ∧ IsScale scale ∧
      text = c :: (digits ++ scale)

theorem readNumber_cons (negative : Bool) (c : Char) (rest : List Char) :
    readNumber negative (c :: rest) =
      if c = '0' then
        match rest with
        | d :: _ =>
          if d.isDigit then stopNext .invalidNumber rest else finishInteger negative 0 rest
        | [] => finishInteger negative 0 []
      else if c.isDigit then readInteger negative (digitValue c) rest
      else stopNext .invalidNumber (c :: rest) := rfl

theorem readNumber_takes (read : readNumber negative text = .ok (value, rest)) :
    Takes (readNumber negative) IsNumber text rest value := by
  cases text with
  | nil => cases read
  | cons c text =>
    by_cases zero : c = '0'
    · subst zero
      have alone : ∀ {tail : List Char}, NoDigit tail →
          readNumber negative ('0' :: tail) = finishInteger negative 0 tail := by
        intro tail stops
        rw [readNumber_cons, if_pos rfl]
        cases tail with
        | nil => rfl
        | cons d tail =>
          dsimp only
          rw [stops d rfl]
          rfl
      have stops : NoDigit text := by
        intro d head
        rw [readNumber_cons, if_pos rfl] at read
        cases text with
        | nil => cases head
        | cons d' text =>
          cases head
          dsimp only at read
          split at read
          · cases read
          · next other => simpa using other
      rw [alone stops] at read
      obtain ⟨front, scale, rfl, reads⟩ := finishInteger_takes read
      refine ⟨'0' :: front, Or.inl ⟨front, scale, rfl⟩, rfl, fun rest' ends => ?_⟩
      rw [List.cons_append, alone (scale.noDigit ends), reads rest' ends]
    · rw [readNumber_cons, if_neg zero] at read
      split at read
      · next digit =>
        obtain ⟨front, ⟨digits, scale, areDigits, isScale, rfl⟩, rfl, reads⟩ :=
          readInteger_takes read
        refine ⟨c :: (digits ++ scale), Or.inr ⟨c, digits, scale, digit, zero, areDigits, isScale,
          rfl⟩, rfl, fun rest' ends => ?_⟩
        rw [List.cons_append, readNumber_cons, if_neg zero, if_pos digit, reads rest' ends]
      · cases read

end

/-- A reading that succeeds gives a number. -/
def GivesNumber (done : Except Stop (Json × List Char)) : Prop :=
  ∀ v rest, done = .ok (v, rest) → v.asFloat?.isSome = true

section

variable {negative : Bool}

theorem givesNumber_error (stop : Stop) : GivesNumber (.error stop) := nofun

theorem givesNumber_ok {v : Json} (number : v.asFloat?.isSome = true) (rest : List Char) :
    GivesNumber (.ok (v, rest)) := by
  intro v' rest' same
  cases same
  exact number

theorem givesNumber_finishParts (significand : Nat) (exponent : Int) (rest : List Char) :
    GivesNumber (finishParts negative significand exponent rest) := by
  unfold finishParts
  split
  · exact givesNumber_ok rfl rest
  · exact givesNumber_error _

theorem givesNumber_readExponentDigits {down : Bool} {significand : Nat} {start : Int}
    (text : List Char) (next : Nat) :
    GivesNumber (readExponentDigits negative down significand start next text) := by
  induction text generalizing next with
  | nil => exact givesNumber_finishParts _ _ _
  | cons c text ih =>
    rw [readExponentDigits]
    dsimp only
    split
    · split
      · exact ih _
      · split
        · exact givesNumber_error _
        · exact givesNumber_ok rfl _
    · exact givesNumber_finishParts _ _ _

theorem givesNumber_readExponent (significand : Nat) (start : Int) (text : List Char) :
    GivesNumber (readExponent negative significand start text) := by
  unfold readExponent
  split
  split
  · exact givesNumber_error _
  · split
    · exact givesNumber_readExponentDigits _ _
    · exact givesNumber_error _

theorem givesNumber_finishFloat (significand : Nat) (exponent : Int) (text : List Char) :
    GivesNumber (finishFloat negative significand exponent text) := by
  unfold finishFloat
  split
  · exact givesNumber_readExponent _ _ _
  · exact givesNumber_readExponent _ _ _
  · exact givesNumber_finishParts _ _ _

theorem givesNumber_readFraction (text : List Char) (significand : Nat) (exponent : Int)
    (seen : Bool) : GivesNumber (readFraction negative significand exponent seen text) := by
  induction text generalizing significand exponent seen with
  | nil =>
    rw [readFraction]
    split
    · exact givesNumber_finishFloat _ _ _
    · exact givesNumber_error _
  | cons c text ih =>
    rw [readFraction]
    dsimp only
    split
    · split
      · exact ih _ _ _
      · exact givesNumber_finishFloat _ _ _
    · split
      · exact givesNumber_finishFloat _ _ _
      · exact givesNumber_error _

theorem givesNumber_ofInteger (significand : Nat) (rest : List Char) :
    GivesNumber (.ok (ofInteger negative significand, rest)) := by
  apply givesNumber_ok
  unfold ofInteger
  split
  · rfl
  · split <;> rfl

theorem givesNumber_finishInteger (significand : Nat) (text : List Char) :
    GivesNumber (finishInteger negative significand text) := by
  unfold finishInteger
  split
  · exact givesNumber_readFraction _ _ _ _
  · exact givesNumber_readExponent _ _ _
  · exact givesNumber_readExponent _ _ _
  · exact givesNumber_ofInteger _ _

theorem givesNumber_readInteger (text : List Char) (significand : Nat) :
    GivesNumber (readInteger negative significand text) := by
  induction text generalizing significand with
  | nil => exact givesNumber_finishInteger _ _
  | cons c text ih =>
    rw [readInteger]
    dsimp only
    split
    · split
      · exact ih _
      · unfold finishLong
        dsimp only
        split
        · exact givesNumber_readFraction _ _ _ _
        · exact givesNumber_finishFloat _ _ _
    · exact givesNumber_finishInteger _ _

theorem givesNumber_readNumber (text : List Char) : GivesNumber (readNumber negative text) := by
  cases text with
  | nil => exact givesNumber_error _
  | cons c text =>
    rw [readNumber_cons]
    split
    · split
      · split
        · exact givesNumber_error _
        · exact givesNumber_finishInteger _ _
      · exact givesNumber_finishInteger _ _
    · split
      · exact givesNumber_readInteger _ _
      · exact givesNumber_error _

end

/-- A number as it is written, and its value. -/
structure Numeral where
  negative : Bool
  digits : List Char
  value : Json
  shape : IsNumber digits
  reads : ∀ rest, Ends rest → readNumber negative (digits ++ rest) = .ok (value, rest)

namespace Numeral

def text (n : Numeral) : List Char := if n.negative then '-' :: n.digits else n.digits

theorem exists_of_readNumber {negative : Bool} {text rest : List Char} {value : Json}
    (read : readNumber negative text = .ok (value, rest)) :
    ∃ n : Numeral, n.negative = negative ∧ n.value = value ∧ text = n.digits ++ rest := by
  obtain ⟨front, shape, rfl, reads⟩ := readNumber_takes read
  exact ⟨⟨negative, front, value, shape, reads⟩, rfl, rfl, rfl⟩

/-- The value of a numeral is a number. -/
theorem value_isNumber (n : Numeral) : n.value.asFloat?.isSome = true :=
  givesNumber_readNumber _ _ _ (n.reads [] ends_nil)

end Numeral

end AttrGrammar.Json
