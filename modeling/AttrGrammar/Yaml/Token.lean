import AttrGrammar.Yaml.Scalar

/-!
The tokens of YAML texts.

Indentation shows as tokens: a collection in block style begins where a key or an entry stands
further to the right than what is around it, and ends before what stands further to the left.

What stands before a colon is known as a key only when the colon comes, so the place of each token
that may begin a key is kept until then. A key stands on one line with its colon, at most 1024
characters before it.
-/

namespace AttrGrammar.Yaml

inductive Token where
  | documentStart
  | documentEnd
  | sequenceStart
  | mappingStart
  /-- Ends a collection in block style. -/
  | blockEnd
  | flowSequenceStart
  | flowSequenceEnd
  | flowMappingStart
  | flowMappingEnd
  /-- Begins an entry of a sequence in block style. -/
  | entry
  | comma
  | key
  | value
  | scalar (text : String) (plain : Bool)
  deriving DecidableEq, Repr, Inhabited

namespace Token

/-- A token that may begin a key. -/
structure Candidate where
  /-- The number of tokens before it. -/
  place : Nat
  line : Nat
  column : Nat
  /-- Whether nothing but a key can stand there. -/
  required : Bool
  deriving Inhabited

/-- How far a text has been read. -/
structure Scan where
  cursor : Cursor
  tokens : Array Token := #[]
  /-- The columns of the open collections in block style, the innermost first. -/
  columns : List Nat := []
  /-- The candidates for a key, one at most for each open bracket and one outside of them. -/
  candidates : List (Option Candidate) := [none]
  /-- Whether a key may begin at the next token. -/
  keyAllowed : Bool := true
  deriving Inhabited

namespace Scan

/-- Whether the text has been read into brackets. -/
def inFlow (s : Scan) : Bool := s.candidates.length > 1

def add (s : Scan) (t : Token) : Scan := { s with tokens := s.tokens.push t }

def advance (s : Scan) (n : Nat) : Scan := { s with cursor := s.cursor.advance n }

/-- Skips blanks, comments and line breaks. -/
def skip (s : Scan) : Scan :=
  let c := s.cursor
  let (broken, cursor) :=
    Cursor.skipFrom s.inFlow (s.inFlow || !s.keyAllowed) false false c.line c.column c.rest
  { s with cursor, keyAllowed := s.keyAllowed || broken && !s.inFlow }

/-- Ends the collections in block style that stand further to the right than a column, or all of
them. -/
def outdent (column : Option Nat) (s : Scan) : Scan :=
  if s.inFlow then s
  else
    let ended := s.columns.takeWhile fun c => column.all (· < c)
    { s with
      columns := s.columns.drop ended.length
      tokens := s.tokens ++ (ended.map fun _ => Token.blockEnd).toArray }

/-- Begins a collection in block style at a place among the tokens, if its column is further to the
right than that of the collection around it. -/
def indent (t : Token) (place column : Nat) (s : Scan) : Scan :=
  if s.inFlow || s.columns.head?.any (column ≤ ·) then s
  else
    { s with
      columns := column :: s.columns
      tokens := s.tokens.extract 0 place ++ #[t] ++ s.tokens.extract place s.tokens.size }

/-- Gives up a candidate; one that had to be a key is a fault. -/
def giveUp : Option Candidate → Except Fault (Option Candidate)
  | some k => if k.required then .error .keyWithoutValue else .ok none
  | none => .ok none

/-- Gives up the candidates on earlier lines and too far to the left. -/
def expire (s : Scan) : Except Fault Scan := do
  let candidates ← s.candidates.mapM fun
    | some k =>
      if k.line < s.cursor.line || k.column + 1024 < s.cursor.column then giveUp (some k)
      else .ok (some k)
    | none => .ok none
  .ok { s with candidates }

/-- Gives up the innermost candidate. -/
def giveUpInner (s : Scan) : Except Fault Scan :=
  match s.candidates with
  | k :: outer => (giveUp k).map fun k => { s with candidates := k :: outer }
  | [] => .ok s

/-- Makes the next token a candidate for a key. -/
def offerKey (s : Scan) : Except Fault Scan :=
  if !s.keyAllowed then .ok s
  else do
    let s ← s.giveUpInner
    let c := s.cursor
    let k : Candidate :=
      { place := s.tokens.size, line := c.line, column := c.column
        required := !s.inFlow && s.columns.head? == some c.column }
    .ok { s with candidates := some k :: s.candidates.tail }

/-- Reads the mark of the start or of the end of a document. -/
def documentMarker (t : Token) (s : Scan) : Except Fault Scan := do
  let s ← (s.outdent none).giveUpInner
  .ok ({ s with keyAllowed := false }.add t |>.advance 3)

/-- Reads an opening bracket. -/
def opening (t : Token) (s : Scan) : Except Fault Scan := do
  let s ← s.offerKey
  .ok ({ s with candidates := none :: s.candidates, keyAllowed := true }.add t |>.advance 1)

/-- Reads a closing bracket. -/
def closing (t : Token) (s : Scan) : Except Fault Scan := do
  let s ← s.giveUpInner
  let candidates := if s.inFlow then s.candidates.tail else s.candidates
  .ok ({ s with candidates, keyAllowed := false }.add t |>.advance 1)

def comma (s : Scan) : Except Fault Scan := do
  let s ← s.giveUpInner
  .ok ({ s with keyAllowed := true }.add .comma |>.advance 1)

/-- Reads the hyphen of an entry. -/
def entry (s : Scan) : Except Fault Scan := do
  if !s.inFlow && !s.keyAllowed then .error .misplacedEntry
  else
    let s ← (s.indent .sequenceStart s.tokens.size s.cursor.column).giveUpInner
    .ok ({ s with keyAllowed := true }.add .entry |>.advance 1)

/-- Reads the question mark of a key. -/
def explicitKey (s : Scan) : Except Fault Scan := do
  if !s.inFlow && !s.keyAllowed then .error .misplacedKey
  else
    let s ← (s.indent .mappingStart s.tokens.size s.cursor.column).giveUpInner
    .ok ({ s with keyAllowed := !s.inFlow }.add .key |>.advance 1)

/-- Reads the colon of a value. If there is a candidate for a key, it is one. -/
def value (s : Scan) : Except Fault Scan :=
  match s.candidates with
  | some k :: outer =>
    let tokens := s.tokens.extract 0 k.place ++ #[.key] ++ s.tokens.extract k.place s.tokens.size
    let s := { s with tokens, candidates := none :: outer, keyAllowed := false }
    .ok ((s.indent .mappingStart k.place k.column).add .value |>.advance 1)
  | _ =>
    if !s.inFlow && !s.keyAllowed then .error .misplacedValue
    else
      let s := s.indent .mappingStart s.tokens.size s.cursor.column
      .ok ({ s with keyAllowed := !s.inFlow }.add .value |>.advance 1)

def quoted (quote : Char) (s : Scan) : Except Fault Scan := do
  let s ← s.offerKey
  let (text, cursor) ← readQuoted quote (s.cursor.rest.length + 1) (s.cursor.advance 1)
  .ok ({ s with cursor, keyAllowed := false }.add (.scalar (String.ofList text) false))

def plain (s : Scan) : Except Fault Scan := do
  let s ← s.offerKey
  let floor := (s.columns.head?.map (· + 1)).getD 0
  let (text, broken, cursor) ←
    readPlain s.inFlow floor (s.cursor.rest.length + 1) [] {} s.cursor
  .ok ({ s with cursor, keyAllowed := broken }.add (.scalar (String.ofList text) true))

/-- Reads the token that begins with a character. -/
def token (s : Scan) (first : Char) : Except Fault Scan :=
  let alone := startsBlank (s.cursor.rest.drop 1)
  if s.cursor.isMarker '-' then s.documentMarker .documentStart
  else if s.cursor.isMarker '.' then s.documentMarker .documentEnd
  else if first = '[' then s.opening .flowSequenceStart
  else if first = '{' then s.opening .flowMappingStart
  else if first = ']' then s.closing .flowSequenceEnd
  else if first = '}' then s.closing .flowMappingEnd
  else if first = ',' then s.comma
  else if first = '-' && alone then s.entry
  else if first = '?' && (s.inFlow || alone) then s.explicitKey
  else if first = ':' && (s.inFlow || alone) then s.value
  else if first = '\'' || first = '"' then s.quoted first
  else if startsPlain s.inFlow s.cursor.rest then s.plain
  else if ['&', '*', '!', '|', '>', '%'].contains first then .error .unsupported
  else .error .unexpectedContent

/-- Reads the tokens up to the end of the text. -/
def run : Nat → Scan → Except Fault Scan
  | 0, _ => .error .unexpectedEnd
  | fuel + 1, s => do
    let s ← s.skip.expire
    match s.cursor.rest with
    | [] => (s.outdent none).giveUpInner
    | first :: _ => run fuel (← (s.outdent (some s.cursor.column)).token first)

end Scan

/-- The tokens of a text. -/
def ofText (text : String) : Except Fault (List Token) :=
  if !text.toList.all isAllowed then .error .unprintable
  else
    let cursor : Cursor := { rest := unifyBreaks text.toList }
    (Scan.run (cursor.rest.length + 1) { cursor }).map (·.tokens.toList)

end Token

end AttrGrammar.Yaml
