import AttrGrammar.Json.Reader

/-!
Passing over JSON values that nobody asks for.

A value that is passed over must be well formed, but it may nest to any depth, its numbers may have
any size, and its escapes may stand for half a pair of surrogates.
-/

namespace AttrGrammar.Json

/-- Skips digits, at least one. -/
def skipDigits? : List Char → Option (List Char)
  | [] => none
  | c :: rest => if c.isDigit then some (rest.dropWhile Char.isDigit) else none

/-- Skips the digits before a point. A leading zero stands alone. -/
def skipWhole? : List Char → Option (List Char)
  | '0' :: rest => if rest.head?.any Char.isDigit then none else some rest
  | text => skipDigits? text

def skipFraction? : List Char → Option (List Char)
  | '.' :: rest => skipDigits? rest
  | text => some text

/-- Skips an exponent after its letter. -/
def skipPower? : List Char → Option (List Char)
  | '+' :: rest => skipDigits? rest
  | '-' :: rest => skipDigits? rest
  | text => skipDigits? text

def skipExponent? : List Char → Option (List Char)
  | 'e' :: rest => skipPower? rest
  | 'E' :: rest => skipPower? rest
  | text => some text

/-- Skips a number after its sign. -/
def skipNumber? (text : List Char) : Option (List Char) :=
  ((skipWhole? text).bind skipFraction?).bind skipExponent?

/-- Skips a string after its opening quote. -/
def skipString? : List Char → Option (List Char)
  | [] => none
  | '"' :: rest => some rest
  | '\\' :: 'u' :: a :: b :: c :: d :: rest =>
    if [a, b, c, d].all fun x => (Text.hexDigit? x).isSome then skipString? rest else none
  | '\\' :: c :: rest =>
    if ['"', '\\', '/', 'b', 'f', 'n', 'r', 't'].contains c then skipString? rest else none
  | c :: rest => if c.toNat < 0x20 then none else skipString? rest

def skipWord? (word text : List Char) : Option (List Char) :=
  if word.isPrefixOf text then some (text.drop word.length) else none

mutual

def skipValue? : Nat → List Char → Option (List Char)
  | 0, _ => none
  | fuel + 1, text =>
    match skipBlanks text with
    | 'n' :: rest => skipWord? ['u', 'l', 'l'] rest
    | 't' :: rest => skipWord? ['r', 'u', 'e'] rest
    | 'f' :: rest => skipWord? ['a', 'l', 's', 'e'] rest
    | '-' :: rest => skipNumber? rest
    | '"' :: rest => skipString? rest
    | '[' :: rest => skipItems? fuel true rest
    | '{' :: rest => skipMembers? fuel true rest
    | rest => skipNumber? rest

/-- Skips the items of an array and its closing bracket. -/
def skipItems? : Nat → Bool → List Char → Option (List Char)
  | 0, _, _ => none
  | fuel + 1, first, text => do
    let (more, rest) ← (nextItem first text).toOption
    if more then
      let rest ← skipValue? fuel rest
      skipItems? fuel false rest
    else some rest

/-- Skips the members of an object and its closing brace. -/
def skipMembers? : Nat → Bool → List Char → Option (List Char)
  | 0, _, _ => none
  | fuel + 1, first, text => do
    let (more, rest) ← (nextKey first text).toOption
    if more then
      let rest ← skipString? rest
      let ((), rest) ← (readColon rest).toOption
      let rest ← skipValue? fuel rest
      skipMembers? fuel false rest
    else some rest

end

end AttrGrammar.Json
