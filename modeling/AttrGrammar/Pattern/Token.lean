import AttrGrammar.Pattern.Class

/-!
The tokens of written patterns.

A pattern is read from its first character to its last, one token at a time. Flags hold from where
they are set to the end of their group, and they decide how characters are read; so the tokens are
found along with the flags of the groups that are open.
-/

namespace AttrGrammar

namespace Pattern.Syntax

open Reader (take blanks next taken accept upTo loop)

/-- A flag by its letter, switched on or off. -/
def Flags.set? (fl : Flags) (on : Bool) : Char → Option Flags
  | 'i' => some { fl with ignoreCase := on }
  | 'm' => some { fl with multiLine := on }
  | 's' => some { fl with dotAll := on }
  | 'U' => some { fl with swapGreed := on }
  | 'u' => some { fl with unicode := on }
  | 'R' => some { fl with crlf := on }
  | 'x' => some { fl with spaced := on }
  | _ => none

/-- What a group does with its match. -/
inductive Opening where
  | plain
  | captures
  | named (name : List Char)

inductive Token where
  /-- What can be repeated. -/
  | part (p : Piece Pattern)
  /-- Sets flags for the rest of a group. -/
  | flags (fl : Flags)
  /-- Opens a group, in which some flags hold. -/
  | opens (o : Opening) (fl : Flags)
  | closes
  | bar
  /-- Repeats what comes before it. -/
  | repeats (low : Nat) (high : Option Nat) (greedy : Bool)

/-- Flags that were read, with their letters in `seen`. -/
structure FlagState where
  flags : Flags
  seen : List Char := []
  negated : Bool := false
  /-- Whether the last character was the negation. -/
  dangling : Bool := false

/-- Reads the next flag. A colon or a closing parenthesis ends them; with the colon a group begins
in which they hold. -/
def flagStep (s : FlagState) : Reader (FlagState ⊕ Bool × Flags) := do
  let c ← take .unclosedGroup
  if c = ':' ∨ c = ')' then
    if s.dangling then throw .danglingNegation
    else if c = ')' ∧ s.seen.isEmpty then throw .nothingToRepeat
    else pure (.inr (c == ':', s.flags))
  else if s.seen.contains c then throw .repeatedFlag
  else if c = '-' then
    pure (.inl { s with seen := c :: s.seen, negated := true, dangling := true })
  else
    match s.flags.set? (!s.negated) c with
    | some flags => pure (.inl { s with flags, seen := c :: s.seen, dangling := false })
    | none => throw .unknownFlag

/-- Reads flags, for the rest of the group or for a group of their own. -/
def flagGroup (fl : Flags) : Reader Token := do
  let (opens, flags) ← loop flagStep { flags := fl }
  pure (if opens then .opens .plain flags else .flags flags)

/-- Reads the name of a group after its opening angle bracket. -/
def groupName (fl : Flags) : Reader Token := do
  let name ← upTo {} '>' .badGroupName
  match name with
  | '=' :: _ | '!' :: _ => throw .lookAround
  | _ => if isGroupName name then pure (.opens (.named name) fl) else throw .badGroupName

/-- Reads what comes behind the question mark of a group. -/
def specialGroup (fl : Flags) : Reader Token := do
  if ← accept '=' then throw .lookAround
  else if ← accept '!' then throw .lookAround
  else if ← accept '<' then groupName fl
  else if ← accept 'P' then
    if ← accept '<' then groupName fl else throw .unknownFlag
  else flagGroup fl

/-- Reads the start of a group after its opening parenthesis. -/
def group (fl : Flags) : Reader Token := fun text =>
  match skip fl text with
  | '?' :: rest => specialGroup fl rest
  | _ => .ok (.opens .captures fl, text)

/-- Leaves out the white space around a number, and comments where these do not count. -/
def margin (fl : Flags) : Reader Unit :=
  if fl.spaced then blanks fl else fun text => .ok ((), text.dropWhile Text.isSpace)

/-- Reads a decimal number that fits 32 bits, and the character behind it. -/
def number (fl : Flags) : Reader (Nat × Char) := do
  margin fl
  let digits ← taken fl Char.isDigit
  margin fl
  let c ← take .badCount
  let value := digits.foldl (fun n d => n * 10 + (d.toNat - '0'.toNat)) 0
  if digits.isEmpty || value ≥ 1 <<< 32 then throw .badCount
  else pure (value, c)

/-- Reads the greatest number of rounds, if there is one, and the closing brace. -/
def highBound (fl : Flags) (low : Nat) : Reader (Option Nat) := do
  blanks fl
  if ← accept '}' then pure none
  else do
    let (high, c) ← number fl
    if c = '}' ∧ low ≤ high then pure (some high) else throw .badCount

/-- Reads the bounds of a counted repetition after its opening brace: the least number of rounds,
and the greatest if there is one. -/
def bounds (fl : Flags) : Reader (Nat × Option Nat) := do
  let (low, c) ← number fl
  if c = '}' then pure (low, some low)
  else if c = ',' then return (low, ← highBound fl low)
  else throw .badCount

/-- A question mark behind a counted repetition makes it lazy. -/
def lazyBehind (fl : Flags) : Reader Bool := fun text =>
  match skip fl text with
  | '?' :: rest => .ok (true, rest)
  | _ => .ok (false, text)

/-- Reads a counted repetition after its opening brace. -/
def counted (fl : Flags) : Reader Token := do
  let (low, high) ← bounds fl
  let isLazy ← lazyBehind fl
  pure (.repeats low high (isLazy == fl.swapGreed))

/-- A character as it is written. -/
def literal (fl : Flags) (c : Char) : Pattern :=
  if fl.ignoreCase then
    let pairs := if fl.unicode then CharSet.foldings else CharSet.asciiFoldings
    .ofSet ((CharSet.single c).fold pairs)
  else .literal [c]

def Atom.pattern (fl : Flags) : Atom → Pattern
  | char c => literal fl c
  | set s => .ofSet s
  | assertion a => .assertion a

/-- The characters that a dot reads. -/
def dot (fl : Flags) : Except PatternError CharSet :=
  let ends := if fl.crlf then CharSet.union (.single '\r') (.single '\n') else .single '\n'
  if !fl.unicode then .error .notUtf8
  else .ok (if fl.dotAll then .all else ends.complement)

/-- Reads the token that begins with `c`. -/
def tokenOf (fl : Flags) (c : Char) : Reader Token := do
  let repeats (low : Nat) (high : Option Nat) (isLazy : Bool) : Token :=
    .repeats low high (isLazy == fl.swapGreed)
  let part (value : Pattern) : Token := .part { value }
  match c with
  | '(' => group fl
  | ')' => pure .closes
  | '|' => pure .bar
  | '*' => repeats 0 none <$> accept '?'
  | '+' => repeats 1 none <$> accept '?'
  | '?' => repeats 0 (some 1) <$> accept '?'
  | '{' => counted fl
  | '[' => do
    let s ← charClass fl
    pure (.part { s with value := .ofSet s.value })
  | '\\' => do return part ((← escape fl).pattern fl)
  | '.' => .ofExcept ((dot fl).map fun s => part (.ofSet s))
  | '^' => pure (part (.assertion (if fl.multiLine then .startOfLine fl.crlf else .startOfText)))
  | '$' => pure (part (.assertion (if fl.multiLine then .endOfLine fl.crlf else .endOfText)))
  | c => pure (part (literal fl c))

/-- The flags at a place of a pattern, and those of the groups around it. -/
structure Scope where
  flags : Flags := {}
  saved : List Flags := []

/-- The flags behind a token. -/
def Scope.after (sc : Scope) : Token → Scope
  | .flags flags => { sc with flags }
  | .opens _ flags => { flags, saved := sc.flags :: sc.saved }
  | .closes => { flags := sc.saved.headD {}, saved := sc.saved.tail }
  | .part _ | .bar | .repeats .. => sc

/-- The tokens of a text, the flags behind the last of them, and why there are no more: the text
ends, perhaps in a comment, or what comes next is no token. -/
structure Lexed where
  tokens : List Token
  scope : Scope
  stop : Except PatternError Bool

def Lexed.cons (t : Token) (l : Lexed) : Lexed := { l with tokens := t :: l.tokens }

/-- The first tokens of a text. -/
def lexFor : Nat → Scope → List Char → Lexed
  | 0, sc, _ => ⟨[], sc, .error .tooLarge⟩
  | fuel + 1, sc, text =>
    match skip sc.flags text with
    | [] => ⟨[], sc, .ok (isOpen sc.flags text)⟩
    | c :: rest =>
      match tokenOf sc.flags c rest with
      | .error e => ⟨[], sc, .error e⟩
      | .ok (t, rest) => (lexFor fuel (sc.after t) rest).cons t

/-- The tokens of a text. There are no more of them than characters. -/
def lex (sc : Scope) (text : List Char) : Lexed := lexFor (text.length + 1) sc text

end Pattern.Syntax

end AttrGrammar
