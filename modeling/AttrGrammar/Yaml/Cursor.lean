/-!
Characters of YAML texts, and places in a text.
-/

namespace AttrGrammar.Yaml

/-- Why a text is no YAML document. -/
inductive Fault where
  | unexpectedEnd
  | unexpectedContent
  | unprintable
  | badEscape
  | keyWithoutValue
  | misplacedEntry
  | misplacedKey
  | misplacedValue
  | misplacedTab
  | unsupported
  | secondDocument
  deriving DecidableEq, Repr, Inhabited

def Fault.message : Fault → String
  | unexpectedEnd => "unexpected end"
  | unexpectedContent => "unexpected content"
  | unprintable => "unprintable character"
  | badEscape => "unknown escape"
  | keyWithoutValue => "a key without a colon"
  | misplacedEntry => "an entry is not allowed here"
  | misplacedKey => "a key is not allowed here"
  | misplacedValue => "a value is not allowed here"
  | misplacedTab => "a tab instead of an indentation"
  | unsupported => "anchors, tags, directives and block scalars are not supported"
  | secondDocument => "more than one document"

def isBlank (c : Char) : Bool := c = ' ' || c = '\t'

def isBreak (c : Char) : Bool := c = '\n' || c = '\u2028' || c = '\u2029'

/-- Whether a text begins with a blank or a line break, or is empty. -/
def startsBlank : List Char → Bool
  | [] => true
  | c :: _ => isBlank c || isBreak c

def byteOrderMark : Char := '\ufeff'

/-- Whether a character may stand in a text. -/
def isAllowed (c : Char) : Bool :=
  c = '\t' || c = '\n' || c = '\r' || c = '\x85' || ' ' ≤ c && c ≤ '~' ||
    '\xa0' ≤ c && c ≤ '\ufffd' || 0x10000 ≤ c.toNat

/-- One line feed for each line break but the separators of lines and paragraphs. -/
def unifyBreaks : List Char → List Char
  | [] => []
  | '\r' :: '\n' :: rest => '\n' :: unifyBreaks rest
  | c :: rest => (if c = '\r' || c = '\x85' then '\n' else c) :: unifyBreaks rest

/-- The rest of a text, with the line and column of its first character. Both count from zero. -/
structure Cursor where
  rest : List Char
  line : Nat := 0
  column : Nat := 0
  deriving Inhabited

namespace Cursor

def advance (c : Cursor) : Nat → Cursor
  | 0 => c
  | n + 1 =>
    match c.rest with
    | [] => c
    | d :: rest =>
      if isBreak d then advance ⟨rest, c.line + 1, 0⟩ n else advance ⟨rest, c.line, c.column + 1⟩ n

/-- Whether three equal characters at the start of a line stand alone. -/
def isMarker (c : Cursor) (mark : Char) : Bool :=
  c.column == 0 && c.rest.take 3 == [mark, mark, mark] && startsBlank (c.rest.drop 3)

/-- Whether the mark of the start or of the end of a document stands here. -/
def isDocumentMarker (c : Cursor) : Bool := c.isMarker '-' || c.isMarker '.'

/-- Skips blanks, comments and line breaks, and a byte order mark at the start of a line. Says
whether a line break was among them. Tabs count as blanks inside brackets, and where no key may
stand; after a line break outside brackets a key may stand. -/
def skipFrom (inFlow tabs comment broken : Bool) (line column : Nat) :
    List Char → Bool × Cursor
  | [] => (broken, ⟨[], line, column⟩)
  | c :: rest =>
    if isBreak c then skipFrom inFlow inFlow false true (line + 1) 0 rest
    else if comment || c = ' ' || tabs && c = '\t' || column = 0 && c = byteOrderMark then
      skipFrom inFlow tabs comment broken line (column + 1) rest
    else if c = '#' then skipFrom inFlow tabs true broken line (column + 1) rest
    else (broken, ⟨c :: rest, line, column⟩)

end Cursor

end AttrGrammar.Yaml
