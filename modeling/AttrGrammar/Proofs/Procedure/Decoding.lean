import AttrGrammar.Procedure.Symbols
import AttrGrammar.Proofs.Procedure.Pieces

/-!
Every literal of a text can be decoded: numerals are decimal numbers, and arrays without objects are
lists of values.

What the items of a list are is said by recursion on the text, and the program takes them for that.
-/

namespace AttrGrammar

namespace Decimal

open Json (AreDigits NoDigit IsSigned IsPower IsFraction IsScale IsNumber Numeral)

theorem exponent?_isSome {text : List Char} (signed : IsSigned text) :
    (exponent? text).isSome = true := by
  obtain ⟨sign, digits, signs, visible, areDigits, rfl⟩ := signed
  have accepted : (digits.isEmpty || !digits.all Char.isDigit) = false := by
    rw [AreDigits] at areDigits
    rw [areDigits]
    simpa using visible
  rcases signs with rfl | rfl | rfl
  · cases digits with
    | nil => exact absurd rfl visible
    | cons d digits =>
      have digit := List.all_eq_true.1 areDigits d List.mem_cons_self
      unfold exponent?
      split
      next negative rest taken =>
      split at taken
      · next same =>
        obtain ⟨rfl, _⟩ := List.cons.inj same
        cases digit
      · next same =>
        obtain ⟨rfl, _⟩ := List.cons.inj same
        cases digit
      · cases taken
        rw [List.nil_append, accepted]
        rfl
  · exact congrArg Option.isSome (if_neg (by simp [accepted]))
  · exact congrArg Option.isSome (if_neg (by simp [accepted]))

/-- The end of `unsigned?`: an exponent with its letter, or nothing. -/
theorem power_isSome {text : List Char} (power : IsPower text) (value : Int → Float) :
    (match text with
      | [] => some (value 0)
      | c :: rest => if c = 'e' || c = 'E' then (exponent? rest).map value else none).isSome =
        true := by
  rcases power with rfl | ⟨letter, signed, letters, isSigned, rfl⟩
  · rfl
  · have found := exponent?_isSome isSigned
    rcases letters with rfl | rfl <;> simpa using found

theorem IsPower.not_point {text : List Char} (power : IsPower text) (rest : List Char) :
    text ≠ '.' :: rest := by
  rcases power with rfl | ⟨letter, signed, rfl | rfl, _, rfl⟩ <;> simp

theorem unsigned?_isSome {digits scale : List Char} (visible : digits ≠ [])
    (areDigits : AreDigits digits) (isScale : IsScale scale) :
    (unsigned? (digits ++ scale)).isSome = true := by
  have stops : NoDigit scale := by
    have whole := isScale.noDigit Json.ends_nil
    rwa [List.append_nil] at whole
  have someDigits : digits.isEmpty = false := by simpa using visible
  unfold unsigned?
  rw [Json.takeWhile_append areDigits stops, Json.dropWhile_append areDigits stops]
  dsimp -iota only
  split
  next fraction power parts =>
  have isPower : IsPower power := by
    rcases isScale with isPower | ⟨text, ⟨more, power', _, areMore, isPower, rfl⟩, rfl⟩
    · split at parts
      · next rest => exact absurd rfl (IsPower.not_point isPower rest)
      · cases parts
        exact isPower
    · have stopsMore : NoDigit power' := by
        have whole := isPower.noDigit Json.ends_nil
        rwa [List.append_nil] at whole
      have after : ((more ++ power').takeWhile Char.isDigit,
          (more ++ power').dropWhile Char.isDigit) = (fraction, power) := parts
      rw [Json.dropWhile_append areMore stopsMore] at after
      cases after
      exact isPower
  rw [someDigits, Bool.false_and]
  exact power_isSome isPower fun exponent =>
    nearest (ofDigits (digits ++ fraction)) (exponent - fraction.length)

theorem magnitude?_isSome {text : List Char} (shape : IsNumber text) :
    (magnitude? text).isSome = true := by
  obtain ⟨c, tail, same, digit⟩ := shape.starts
  have unsigned : (unsigned? text).isSome = true := by
    rcases shape with ⟨scale, isScale, rfl⟩ | ⟨c, digits, scale, digit, _, areDigits, isScale, rfl⟩
    · exact unsigned?_isSome (List.cons_ne_nil '0' []) rfl isScale
    · exact unsigned?_isSome (List.cons_ne_nil c digits) (Json.areDigits_cons digit areDigits) isScale
  unfold magnitude?
  split
  · rfl
  · rfl
  · rfl
  · exact unsigned

/-- A number in a text is a decimal number. -/
theorem read?_numeral (n : Numeral) : (read? (String.ofList n.text)).isSome = true := by
  have magnitude := magnitude?_isSome n.shape
  rw [read?, String.toList_ofList, Numeral.text]
  cases n.negative with
  | true => simpa using magnitude
  | false =>
    obtain ⟨c, tail, same, digit⟩ := n.shape.starts
    rw [if_neg Bool.false_ne_true]
    rw [same] at magnitude ⊢
    split
    · next same =>
      obtain ⟨rfl, _⟩ := List.cons.inj same
      cases digit
    · next same =>
      obtain ⟨rfl, _⟩ := List.cons.inj same
      cases digit
    · exact magnitude

end Decimal

namespace Json

open Procedure (Value)

mutual

/-- What an item of a list is in the language. Objects do not stand in lists. -/
def Written.item? : Written → Option Value
  | .null => some .unbound
  | .bool b => some (.boolean b)
  | .number n => n.value.asFloat?.map .number
  | .string l => some (.string l.value)
  | .array _ items => items.list?.map .list
  | .object .. => none

/-- The items of a list in their order. -/
def Items.list? : Items → Option (List Value)
  | .nil => some []
  | .cons _ item _ others => do
    let value ← item.item?
    let values ← others.list?
    some (value :: values)

end

mutual

/-- A value without objects has a value of the language. -/
theorem Written.item?_isSome : ∀ w : Written, w.plain .item = true → w.item?.isSome = true
  | .null, _ => rfl
  | .bool _, _ => rfl
  | .number n, _ => by
    rw [Written.item?, Option.isSome_map]
    exact n.value_isNumber
  | .string _, _ => rfl
  | .array _ items, plain => by
    rw [Written.item?, Option.isSome_map]
    exact items.list?_isSome plain
  | .object _ _, plain => by cases plain

theorem Items.list?_isSome : ∀ items : Items, items.plain = true → items.list?.isSome = true
  | .nil, _ => rfl
  | .cons _ item _ others, plain => by
    simp only [Items.plain, Bool.and_eq_true] at plain
    obtain ⟨value, here⟩ := Option.isSome_iff_exists.1 (item.item?_isSome plain.1)
    obtain ⟨values, later⟩ := Option.isSome_iff_exists.1 (others.list?_isSome plain.2)
    rw [Items.list?, here, later]
    rfl

end

end Json

namespace Procedure

open Json (Numeral Written Items)

theorem ofJson?_number (n : Numeral) : ofJson? n.value = n.value.asFloat?.map .number := by
  have number := n.value_isNumber
  cases value : n.value with
  | int k => rfl
  | float x => rfl
  | _ =>
    rw [value] at number
    cases number

mutual

/-- The program takes an item of an array for what is written there. -/
theorem ofJson?_json : ∀ w : Written, ofJson? w.json = w.item?
  | .null => rfl
  | .bool _ => rfl
  | .number n => ofJson?_number n
  | .string _ => rfl
  | .array _ items => by
    rw [Written.json, ofJson?, ofJsonItems?_json items]
    rfl
  | .object _ _ => rfl

theorem ofJsonItems?_json : ∀ items : Items, ofJsonItems? items.json = items.list?
  | .nil => rfl
  | .cons _ item _ others => by
    rw [Items.json, ofJsonItems?, ofJson?_json item, ofJsonItems?_json others]
    rfl

end

end Procedure

end AttrGrammar
