import AttrGrammar.Pattern.Basic
import AttrGrammar.Pattern.Property
import AttrGrammar.Text.Hex

/-!
Escapes: characters by their numbers, classes by their letters or names, and assertions.

Where Unicode is off, classes are those of ASCII, and nothing may read other characters but one that
is written as itself.
-/

namespace AttrGrammar

namespace Pattern.Syntax

open Reader (take next accept upTo)

/-- What an atom without parts of its own stands for. -/
inductive Atom where
  | char (c : Char)
  | set (s : CharSet)
  | assertion (a : Assertion)

/-- A class as the flags want it. Characters that differ in case are added before the class is
negated. -/
def settle (fl : Flags) (negated : Bool) (s : CharSet) : Except PatternError CharSet :=
  let pairs := if fl.unicode then CharSet.foldings else CharSet.asciiFoldings
  let s := if fl.ignoreCase then s.fold pairs else s
  let s := if negated then s.complement else s
  if fl.unicode || s.isAscii then .ok s else .error .notUtf8

/-- The character with a number, if the number is a code point outside the surrogates. -/
def charOfCodePoint (n : Nat) : Except PatternError Char :=
  if n.isValidChar then .ok (Char.ofNat n) else .error .badCodePoint

/-- Reads a number of hexadecimal digits after `c`, which is the next digit of a number. -/
def hexDigits (fl : Flags) : Nat → Nat → Char → Reader Char
  | more, value, c =>
    match Text.hexDigit? c, more with
    | none, _ => throw .badCodePoint
    | some d, 0 => .ofExcept (charOfCodePoint (value * 16 + d))
    | some d, more + 1 => do hexDigits fl more (value * 16 + d) (← next fl .unfinishedEscape)

/-- Reads hexadecimal digits up to a closing brace. -/
def hexBraced (fl : Flags) : Reader Char := do
  let digits ← upTo fl '}' .unfinishedEscape
  match digits.mapM Text.hexDigit? with
  | some (d :: digits) => .ofExcept (charOfCodePoint (digits.foldl (fun n d => n * 16 + d) d))
  | _ => throw .badCodePoint

/-- Reads the digits of a hexadecimal escape, which are so many or stand in braces. -/
def hexEscape (fl : Flags) (digits : Nat) : Reader Char := do
  let c ← next fl .unfinishedEscape
  if c = '{' then hexBraced fl else hexDigits fl (digits - 1) 0 c

/-- Reads the character with a number of two digits. Where Unicode is off, these are for a byte. -/
def byteEscape (fl : Flags) : Reader Char := do
  let c ← next fl .unfinishedEscape
  if c = '{' then hexBraced fl
  else do
    let c ← hexDigits fl 1 0 c
    if fl.unicode || c.toNat < 128 then pure c else throw .notUtf8

/-- The place at words that a name in braces stands for. -/
def wordEdge? (name : List Char) : Option WordEdge :=
  match String.ofList name with
  | "start" => some .start
  | "end" => some .stop
  | "start-half" => some .startHalf
  | "end-half" => some .stopHalf
  | _ => none

/-- Reads the name of a place at words up to its closing brace. -/
def wordEdge (fl : Flags) : Reader WordEdge := do
  let name ← upTo fl '}' .unfinishedEscape
  match wordEdge? name with
  | some e => pure e
  | none => throw .unknownEscape

/-- Reads the name in braces that may follow a word boundary. Braces with a number belong to a
repetition. -/
def boundary (fl : Flags) : Reader WordEdge := fun text =>
  match text with
  | '{' :: rest =>
    match skip fl rest with
    | [] => .error .unfinishedEscape
    | c :: _ =>
      if c.isAlpha || c == '-' then wordEdge fl rest
      else if c.isDigit || Text.isSpace c then .ok (.boundary, text)
      else .error .badCount
  | _ => .ok (.boundary, text)

def digits : CharSet := .ofCodePoints Text.digitBounds.toList

def spaces : CharSet := .ofCodePoints Text.spaceBounds.toList

def wordCharacters : CharSet := .ofCodePoints Text.wordBounds.toList

def asciiDigits : CharSet := .range '0' '9'

def asciiSpaces : CharSet := .union (.range '\t' '\r') (.single ' ')

def asciiLetters : CharSet := .union (.range 'A' 'Z') (.range 'a' 'z')

def asciiWords : CharSet := .union (.union asciiDigits asciiLetters) (.single '_')

/-- A class that has one letter: `all`, or `ascii` where Unicode is off. -/
def letterClass (fl : Flags) (negated : Bool) (all ascii : CharSet) : Except PatternError CharSet :=
  if fl.unicode then .ok (if negated then all.complement else all)
  else if negated then .error .notUtf8
  else .ok ascii

/-- Reads the name of a class, one letter or some in braces. -/
def propertyName (fl : Flags) : Reader (Option CharSet) := do
  let c ← next fl .unfinishedEscape
  if c = '{' then unicodeClass? <$> upTo fl '}' .unfinishedEscape
  else pure (propertyClass? [c])

def namedProperty (fl : Flags) (negated : Bool) : Reader Atom := do
  let found ← propertyName fl
  if !fl.unicode then throw .unicodeOff
  else
    match found with
    | some s => .ofExcept ((settle fl negated s).map .set)
    | none => throw .unknownProperty

/-- Characters that stand for themselves after a backslash: all of ASCII but letters, digits and
angle brackets. -/
def isEscapable (c : Char) : Bool :=
  c.toNat < 128 && !c.isAlphanum && c != '<' && c != '>'

/-- Reads an escape after its backslash. -/
def escape (fl : Flags) : Reader Atom := do
  let letter (negated : Bool) (all ascii : CharSet) : Reader Atom :=
    .ofExcept ((letterClass fl negated all ascii).map .set)
  let edge (e : WordEdge) : Atom := .assertion (.word fl.unicode e)
  match ← take .unfinishedEscape with
  | 'x' => .char <$> byteEscape fl
  | 'u' => .char <$> hexEscape fl 4
  | 'U' => .char <$> hexEscape fl 8
  | 'p' => namedProperty fl false
  | 'P' => namedProperty fl true
  | 'a' => pure (.char '\x07')
  | 'f' => pure (.char '\x0c')
  | 't' => pure (.char '\t')
  | 'n' => pure (.char '\n')
  | 'r' => pure (.char '\r')
  | 'v' => pure (.char '\x0b')
  | 'd' => letter false digits asciiDigits
  | 'D' => letter true digits asciiDigits
  | 's' => letter false spaces asciiSpaces
  | 'S' => letter true spaces asciiSpaces
  | 'w' => letter false wordCharacters asciiWords
  | 'W' => letter true wordCharacters asciiWords
  | 'A' => pure (.assertion .startOfText)
  | 'z' => pure (.assertion .endOfText)
  | 'b' => edge <$> boundary fl
  | 'B' => pure (edge .noBoundary)
  | '<' => pure (edge .start)
  | '>' => pure (edge .stop)
  | c => if isEscapable c then pure (.char c) else throw .unknownEscape

end Pattern.Syntax

end AttrGrammar
