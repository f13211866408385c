import AttrGrammar.Text.Hex
import AttrGrammar.Yaml.Cursor

/-!
The scalars of YAML texts.

A scalar may go on over several lines: blanks around a line break are dropped, one break counts as a
space, and of more breaks the first is dropped. The separators of lines and paragraphs are breaks
that are kept.
-/

namespace AttrGrammar.Yaml

/-- Blanks and line breaks inside a scalar. -/
structure Gap where
  /-- The blanks before the first break. -/
  blanks : List Char := []
  /-- Whether there is a break, which may have been written as an escape. -/
  broken : Bool := false
  first : List Char := []
  further : List Char := []
  deriving Inhabited

namespace Gap

/-- What a gap counts as. -/
def text (g : Gap) : List Char :=
  if !g.broken then g.blanks
  else if g.first = ['\n'] then if g.further.isEmpty then [' '] else g.further
  else g.first ++ g.further

def addBreak (g : Gap) (c : Char) : Gap :=
  if g.broken then { g with further := g.further ++ [c] }
  else { broken := true, first := [c] }

def addBlank (g : Gap) (c : Char) : Gap :=
  if g.broken then g else { g with blanks := g.blanks ++ [c] }

/-- Reads blanks and line breaks onto a gap. After a break no tab stands before column `floor`. -/
def read (floor : Nat) (g : Gap) (line column : Nat) : List Char → Except Fault (Gap × Cursor)
  | [] => .ok (g, ⟨[], line, column⟩)
  | c :: rest =>
    if isBreak c then read floor (g.addBreak c) (line + 1) 0 rest
    else if isBlank c then
      if g.broken && column < floor && c = '\t' then .error .misplacedTab
      else read floor (g.addBlank c) line (column + 1) rest
    else .ok (g, ⟨c :: rest, line, column⟩)

end Gap

def isFlowIndicator (c : Char) : Bool := c = ',' || c = '[' || c = ']' || c = '{' || c = '}'

/-- The characters that cannot begin a plain scalar. -/
def indicators : List Char := [
  '-', '?', ':', ',', '[', ']', '{', '}', '#', '&', '*', '!', '|', '>', '\'', '"', '%', '@',
  '\x60']

/-- Whether a plain scalar begins here. A hyphen, and outside brackets a question mark or a colon,
begins one when something follows it. -/
def startsPlain (inFlow : Bool) : List Char → Bool
  | [] => false
  | c :: rest =>
    !isBlank c && !isBreak c && !indicators.contains c
      || c = '-' && !startsBlank rest
      || !inFlow && (c = '?' || c = ':') && !startsBlank rest

/-- The characters up to a blank or the end of a plain scalar. Inside brackets a colon before
another indicator is not allowed. -/
def plainWord (inFlow : Bool) : List Char → Except Fault (List Char)
  | [] => .ok []
  | c :: rest =>
    if isBlank c || isBreak c then .ok []
    else if inFlow && c = ':' && (rest.head?.any fun d => d = '?' || isFlowIndicator d) then
      .error .unexpectedContent
    else if c = ':' && startsBlank rest || inFlow && isFlowIndicator c then .ok []
    else (plainWord inFlow rest).map (c :: ·)

/-- Reads a plain scalar onto `text` and the gap after it. Outside brackets its further lines begin
at column `floor` or later. The gap after the scalar is read too; the answer says whether a line
ends in it. -/
def readPlain (inFlow : Bool) (floor : Nat) :
    Nat → List Char → Gap → Cursor → Except Fault (List Char × Bool × Cursor)
  | 0, _, _, _ => .error .unexpectedEnd
  | fuel + 1, text, gap, c => do
    if c.isDocumentMarker || c.rest.head? = some '#' then return (text, gap.broken, c)
    let word ← plainWord inFlow c.rest
    if word.isEmpty then return (text, gap.broken, c)
    let text := text ++ gap.text ++ word
    let c := c.advance word.length
    let (gap, c) ← Gap.read floor {} c.line c.column c.rest
    if !inFlow && c.column < floor then return (text, gap.broken, c)
    readPlain inFlow floor fuel text gap c

/-- The characters that a letter after a backslash stands for. -/
def escapes : List (Char × Char) := [
  ('0', '\x00'), ('a', '\x07'), ('b', '\x08'), ('t', '\t'), ('\t', '\t'), ('n', '\n'),
  ('v', '\x0b'), ('f', '\x0c'), ('r', '\r'), ('e', '\x1b'), (' ', ' '), ('"', '"'), ('/', '/'),
  ('\\', '\\'), ('N', '\x85'), ('_', '\xa0'), ('L', '\u2028'), ('P', '\u2029')]

/-- The number of hexadecimal digits after a letter. -/
def hexDigits : List (Char × Nat) := [('x', 2), ('u', 4), ('U', 8)]

/-- The character that an escape after its backslash stands for, and the number of characters
read. -/
def escape? : List Char → Option (Char × Nat)
  | [] => none
  | c :: rest =>
    match escapes.lookup c with
    | some d => some (d, 1)
    | none => do
      let count ← hexDigits.lookup c
      let digits ← (rest.take count).mapM Text.hexDigit?
      let n := digits.foldl (fun n d => n * 16 + d) 0
      if digits.length = count ∧ n.isValidChar then some (Char.ofNat n, count + 1) else none

/-- Reads the rest of a scalar in quotes. In single quotes a quote inside is written twice, in
double quotes a backslash begins an escape. -/
def readQuoted (quote : Char) : Nat → Cursor → Except Fault (List Char × Cursor)
  | 0, _ => .error .unexpectedEnd
  | fuel + 1, c =>
    let goOn (text : List Char) (c : Cursor) : Except Fault (List Char × Cursor) :=
      (readQuoted quote fuel c).map fun (others, c) => (text ++ others, c)
    let fold (gap : Gap) (c : Cursor) : Except Fault (List Char × Cursor) := do
      let (gap, c) ← gap.read 0 c.line c.column c.rest
      goOn gap.text c
    if c.isDocumentMarker then .error .unexpectedContent
    else match c.rest with
    | [] => .error .unexpectedEnd
    | d :: rest =>
      if isBlank d || isBreak d then fold {} c
      else if d = quote then
        if quote = '\'' && rest.head? = some '\'' then goOn ['\''] (c.advance 2)
        else .ok ([], c.advance 1)
      else if d = '\\' && quote = '"' then
        if rest.head?.any isBreak then fold { broken := true } (c.advance 2)
        else match escape? rest with
        | some (e, n) => goOn [e] (c.advance (n + 1))
        | none => .error .badEscape
      else goOn [d] (c.advance 1)

end AttrGrammar.Yaml
