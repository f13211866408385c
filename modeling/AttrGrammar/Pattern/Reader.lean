import AttrGrammar.Text.Classes

/-!
Readers of written patterns.

A reader takes characters from the front of a text or tells why it cannot. In a pattern that does
not count its white space, blanks and comments may stand before each character; a comment goes to
the end of its line, or to the end of the text.
-/

namespace AttrGrammar

/-- Why a text is no pattern. -/
inductive PatternError where
  | unclosedGroup
  | unopenedGroup
  | nothingToRepeat
  | lookAround
  | badGroupName
  | duplicateName
  | unknownFlag
  | repeatedFlag
  | danglingNegation
  | unclosedClass
  | reversedRange
  | rangeOfSets
  | assertionInClass
  | unfinishedEscape
  | unknownEscape
  | unknownProperty
  | badCodePoint
  | badCount
  /-- A Unicode class where only ASCII is read. -/
  | unicodeOff
  /-- What only reads parts of characters. -/
  | notUtf8
  | tooDeep
  | tooLarge
  deriving DecidableEq, Repr, Inhabited

def PatternError.message : PatternError → String
  | unclosedGroup => "unclosed group"
  | unopenedGroup => "unopened group"
  | nothingToRepeat => "repetition operator without an expression"
  | lookAround => "look-around is not supported"
  | badGroupName => "malformed name of a group"
  | duplicateName => "two groups with one name"
  | unknownFlag => "unrecognized flag"
  | repeatedFlag => "repeated flag"
  | danglingNegation => "negation of no flags"
  | unclosedClass => "unclosed character class"
  | reversedRange => "the start of a character range comes after its end"
  | rangeOfSets => "a character range with an end that is no character"
  | assertionInClass => "assertion in a character class"
  | unfinishedEscape => "incomplete escape sequence"
  | unknownEscape => "unrecognized escape sequence"
  | unknownProperty => "Unicode property not found"
  | badCodePoint => "hexadecimal escape is not a code point"
  | badCount => "malformed repetition count"
  | unicodeOff => "Unicode is not allowed here"
  | notUtf8 => "pattern can match invalid UTF-8"
  | tooDeep => "pattern is nested too deeply"
  | tooLarge => "pattern is too large"

namespace Pattern.Syntax

/-- How a part of a pattern is read. -/
structure Flags where
  ignoreCase : Bool := false
  /-- Whether lines begin and end inside the text. -/
  multiLine : Bool := false
  /-- Whether a dot reads line feeds. -/
  dotAll : Bool := false
  /-- Whether repetitions are lazy, and greedy with a question mark. -/
  swapGreed : Bool := false
  unicode : Bool := true
  /-- Whether lines end with carriage returns too. -/
  crlf : Bool := false
  /-- Whether blanks and comments do not count. -/
  spaced : Bool := false
  deriving DecidableEq, Inhabited

/-- A text from its first character that is not blank and not in a comment. -/
def skipBlank (inComment : Bool) : List Char → List Char
  | [] => []
  | c :: rest =>
    if inComment then skipBlank (c != '\n') rest
    else if Text.isSpace c then skipBlank false rest
    else if c == '#' then skipBlank true rest
    else c :: rest

/-- Whether a text has blanks and comments only and ends in a comment. -/
def endsInComment (inComment : Bool) : List Char → Bool
  | [] => inComment
  | c :: rest =>
    if inComment then endsInComment (c != '\n') rest
    else if Text.isSpace c then endsInComment false rest
    else if c == '#' then endsInComment true rest
    else false

def skip (fl : Flags) (text : List Char) : List Char :=
  if fl.spaced then skipBlank false text else text

/-- Whether what comes behind a text, of which blanks are left, would stand in a comment. -/
def isOpen (fl : Flags) (text : List Char) : Bool := fl.spaced && endsInComment false text

/-- The characters up to the first one that is not wanted, and the text from there on. -/
def gather (fl : Flags) (wanted : Char → Bool) (inComment : Bool) :
    List Char → List Char × List Char
  | [] => ([], [])
  | c :: rest =>
    if inComment then gather fl wanted (c != '\n') rest
    else if fl.spaced && Text.isSpace c then gather fl wanted false rest
    else if fl.spaced && c == '#' then gather fl wanted true rest
    else if wanted c then
      let (taken, left) := gather fl wanted false rest
      (c :: taken, left)
    else ([], c :: rest)

/-- What comes behind the beginning of a text, if it begins so. -/
def behind? : List Char → List Char → Option (List Char)
  | [], text => some text
  | _ :: _, [] => none
  | c :: start, d :: text => if c = d then behind? start text else none

/-- Reads from the front of a text. -/
abbrev Reader := StateT (List Char) (Except PatternError)

namespace Reader

def ofExcept {α : Type} (x : Except PatternError α) : Reader α := fun text => x.map (·, text)

/-- The next character, whatever it is. -/
def take (e : PatternError) : Reader Char := fun text =>
  match text with
  | [] => .error e
  | c :: rest => .ok (c, rest)

/-- Leaves out blanks and comments. -/
def blanks (fl : Flags) : Reader Unit := fun text => .ok ((), skip fl text)

/-- The next character that counts. -/
def next (fl : Flags) (e : PatternError) : Reader Char := do
  blanks fl
  take e

/-- The characters up to the first one that is not wanted. -/
def taken (fl : Flags) (wanted : Char → Bool) : Reader (List Char) := fun text =>
  .ok (gather fl wanted false text)

/-- What stands before a character, which is read too. -/
def upTo (fl : Flags) (stop : Char) (e : PatternError) : Reader (List Char) := do
  let before ← taken fl (· != stop)
  let _ ← take e
  pure before

/-- Takes a character if it comes next. -/
def accept (c : Char) : Reader Bool := fun text =>
  match text with
  | d :: rest => if d = c then .ok (true, rest) else .ok (false, text)
  | [] => .ok (false, [])

/-- Steps from a state on until one ends with a result. -/
def loopFor {σ α : Type} (step : σ → Reader (σ ⊕ α)) : Nat → σ → Reader α
  | 0, _ => fun _ => .error .tooLarge
  | fuel + 1, s => do
    match ← step s with
    | .inl s => loopFor step fuel s
    | .inr a => pure a

/-- Steps that each take a character at least. -/
def loop {σ α : Type} (step : σ → Reader (σ ⊕ α)) (s : σ) : Reader α := fun text =>
  loopFor step (text.length + 1) s text

end Reader

end Pattern.Syntax

end AttrGrammar
