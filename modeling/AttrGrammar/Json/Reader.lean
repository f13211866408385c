import AttrGrammar.Json.Number
import AttrGrammar.Text.Hex

/-!
Reading JSON texts.

Each reading function takes the rest of the text and gives a value and what is left after it. An
error says how many bytes were left at the place it is reported for, which is either the place
reached or the byte after it; lines and columns, which count bytes, are worked out at the end.

Objects and arrays nest 127 deep at most. A member name that comes again keeps its first place and
takes the last value.
-/

namespace AttrGrammar.Json

inductive Fault where
  | eofInValue
  | eofInList
  | eofInObject
  | eofInString
  | expectedValue
  | expectedIdent
  | expectedListEnd
  | expectedObjectEnd
  | expectedColon
  | keyNotString
  | trailingComma
  | trailingCharacters
  | recursionLimit
  | controlCharacter
  | invalidEscape
  | loneSurrogate
  | unfinishedHexEscape
  | invalidNumber
  | numberOutOfRange
  deriving DecidableEq, Repr, Inhabited

def Fault.message : Fault → String
  | eofInValue => "EOF while parsing a value"
  | eofInList => "EOF while parsing a list"
  | eofInObject => "EOF while parsing an object"
  | eofInString => "EOF while parsing a string"
  | expectedValue => "expected value"
  | expectedIdent => "expected ident"
  | expectedListEnd => "expected `,` or `]`"
  | expectedObjectEnd => "expected `,` or `\x7d`"
  | expectedColon => "expected `:`"
  | keyNotString => "key must be a string"
  | trailingComma => "trailing comma"
  | trailingCharacters => "trailing characters"
  | recursionLimit => "recursion limit exceeded"
  | controlCharacter => "control character (\\u0000-\\u001F) found while parsing a string"
  | invalidEscape => "invalid escape"
  | loneSurrogate => "lone leading surrogate in hex escape"
  | unfinishedHexEscape => "unexpected end of hex escape"
  | invalidNumber => "invalid number"
  | numberOutOfRange => "number out of range"

/-- A fault, and the number of bytes left where it is reported. -/
structure Stop where
  fault : Fault
  left : Nat
  deriving DecidableEq, Repr, Inhabited

/-- The number of bytes of a text. -/
def byteCount (text : List Char) : Nat := text.foldl (fun n c => n + c.utf8Size) 0

/-- A fault at the place reached. -/
def stopHere {α : Type} (fault : Fault) (rest : List Char) : Except Stop α :=
  .error ⟨fault, byteCount rest⟩

/-- A fault at the byte after the place reached, if there is one. -/
def stopNext {α : Type} (fault : Fault) (rest : List Char) : Except Stop α :=
  .error ⟨fault, byteCount rest - 1⟩

def isBlank (c : Char) : Bool := c = ' ' || c = '\t' || c = '\n' || c = '\r'

def skipBlanks (text : List Char) : List Char := text.dropWhile isBlank

def digitValue (c : Char) : Nat := c.toNat - '0'.toNat

/-- Reads the remaining letters of a word. -/
def readWord (value : Json) : List Char → List Char → Except Stop (Json × List Char)
  | [], rest => .ok (value, rest)
  | _ :: _, [] => stopHere .eofInValue []
  | expected :: word, c :: rest =>
    if c = expected then readWord value word rest else stopNext .expectedIdent (c :: rest)

def finishParts (negative : Bool) (significand : Nat) (exponent : Int) (rest : List Char) :
    Except Stop (Json × List Char) :=
  match ofParts negative significand exponent with
  | some x => .ok (.float x, rest)
  | none => stopHere .numberOutOfRange rest

/-- Reads the digits of an exponent, after a first one, onto the number `value`. -/
def readExponentDigits (negative down : Bool) (significand : Nat) (start : Int) (value : Nat) :
    List Char → Except Stop (Json × List Char)
  | [] => finish []
  | c :: rest =>
    if c.isDigit then
      let next := value * 10 + digitValue c
      if next ≤ exponentLimit then readExponentDigits negative down significand start next rest
      else if significand ≠ 0 && !down then stopHere .numberOutOfRange rest
      else .ok (.float (if negative then -0.0 else 0.0), rest.dropWhile Char.isDigit)
    else finish (c :: rest)
where
  finish (rest : List Char) : Except Stop (Json × List Char) :=
    finishParts negative significand
      (clampExponent (if down then start - value else start + value)) rest

/-- Reads an exponent after its letter. -/
def readExponent (negative : Bool) (significand : Nat) (start : Int) (text : List Char) :
    Except Stop (Json × List Char) :=
  let (down, text) := match text with
    | '-' :: rest => (true, rest)
    | '+' :: rest => (false, rest)
    | _ => (false, text)
  match text with
  | [] => stopHere .eofInValue []
  | c :: rest =>
    if c.isDigit then readExponentDigits negative down significand start (digitValue c) rest
    else stopNext .invalidNumber (c :: rest)

/-- Reads the exponent of a number, if it has one. -/
def finishFloat (negative : Bool) (significand : Nat) (exponent : Int) (text : List Char) :
    Except Stop (Json × List Char) :=
  match text with
  | 'e' :: rest => readExponent negative significand exponent rest
  | 'E' :: rest => readExponent negative significand exponent rest
  | _ => finishParts negative significand exponent text

/-- Reads the digits after a point. `seen` tells whether there was one already. -/
def readFraction (negative : Bool) (significand : Nat) (exponent : Int) (seen : Bool) :
    List Char → Except Stop (Json × List Char)
  | [] => if seen then finishFloat negative significand exponent [] else stopNext .eofInValue []
  | c :: rest =>
    if c.isDigit then
      let next := significand * 10 + digitValue c
      if next < significandLimit then readFraction negative next (exponent - 1) true rest
      else finishFloat negative significand exponent (rest.dropWhile Char.isDigit)
    else if seen then finishFloat negative significand exponent (c :: rest)
    else stopNext .invalidNumber (c :: rest)

/-- Reads on after the digits of an integer too long for the significand, which are counted. -/
def finishLong (negative : Bool) (significand : Nat) (text : List Char) :
    Except Stop (Json × List Char) :=
  let dropped : Int := (text.takeWhile Char.isDigit).length
  match text.dropWhile Char.isDigit with
  | '.' :: rest => readFraction negative significand dropped false rest
  | rest => finishFloat negative significand dropped rest

/-- Reads on after the digits of an integer. -/
def finishInteger (negative : Bool) (significand : Nat) (text : List Char) :
    Except Stop (Json × List Char) :=
  match text with
  | '.' :: rest => readFraction negative significand 0 false rest
  | 'e' :: rest => readExponent negative significand 0 rest
  | 'E' :: rest => readExponent negative significand 0 rest
  | _ => .ok (ofInteger negative significand, text)

/-- Reads the digits of an integer onto the significand. -/
def readInteger (negative : Bool) (significand : Nat) : List Char → Except Stop (Json × List Char)
  | [] => finishInteger negative significand []
  | c :: rest =>
    if c.isDigit then
      let next := significand * 10 + digitValue c
      if next < significandLimit then readInteger negative next rest
      else finishLong negative significand (c :: rest)
    else finishInteger negative significand (c :: rest)

/-- Reads a number after its sign. A leading zero stands alone. -/
def readNumber (negative : Bool) : List Char → Except Stop (Json × List Char)
  | [] => stopHere .eofInValue []
  | c :: rest =>
    if c = '0' then
      match rest with
      | d :: _ =>
        if d.isDigit then stopNext .invalidNumber rest else finishInteger negative 0 rest
      | [] => finishInteger negative 0 []
    else if c.isDigit then readInteger negative (digitValue c) rest
    else stopNext .invalidNumber (c :: rest)

/-- The four hexadecimal digits of an escape. Four bytes belong to it whatever they are. -/
def readHex (text : List Char) : Except Stop (Nat × List Char) :=
  if byteCount text < 4 then stopHere .eofInString []
  else
    match (text.take 4).mapM Text.hexDigit? with
    | some digits => .ok (digits.foldl (fun n d => n * 16 + d) 0, text.drop 4)
    | none => .error ⟨.invalidEscape, byteCount text - 4⟩

def isLeadingSurrogate (n : Nat) : Bool := 0xd800 ≤ n && n ≤ 0xdbff

def isTrailingSurrogate (n : Nat) : Bool := 0xdc00 ≤ n && n ≤ 0xdfff

/-- Reads the second half of a pair of surrogates with its escape. -/
def readTrailing (leading : Nat) (text : List Char) : Except Stop (Char × List Char) :=
  match text with
  | [] => stopHere .eofInString []
  | '\\' :: [] => stopHere .eofInString []
  | '\\' :: 'u' :: rest => do
    let (n, rest) ← readHex rest
    if isTrailingSurrogate n then
      .ok (Char.ofNat ((leading - 0xd800) * 0x400 + (n - 0xdc00) + 0x10000), rest)
    else stopHere .loneSurrogate rest
  | '\\' :: rest => stopNext .unfinishedHexEscape rest
  | rest => stopNext .unfinishedHexEscape rest

/-- Reads a numeric escape after its letter. -/
def readUnicode (text : List Char) : Except Stop (Char × List Char) := do
  let (n, rest) ← readHex text
  if isTrailingSurrogate n then stopHere .loneSurrogate rest
  else if isLeadingSurrogate n then readTrailing n rest
  else .ok (Char.ofNat n, rest)

/-- Reads an escape after its backslash. -/
def readEscape : List Char → Except Stop (Char × List Char)
  | [] => stopHere .eofInString []
  | '"' :: rest => .ok ('"', rest)
  | '\\' :: rest => .ok ('\\', rest)
  | '/' :: rest => .ok ('/', rest)
  | 'b' :: rest => .ok ('\x08', rest)
  | 'f' :: rest => .ok ('\x0c', rest)
  | 'n' :: rest => .ok ('\n', rest)
  | 'r' :: rest => .ok ('\r', rest)
  | 't' :: rest => .ok ('\t', rest)
  | 'u' :: rest => readUnicode rest
  | text => stopNext .invalidEscape text

/-- Reads a string after its opening quote. Each step reads a character, so the length of the text
bounds their number. -/
def readStringFrom : Nat → List Char → Except Stop (List Char × List Char)
  | 0, _ => stopHere .eofInString []
  | _ + 1, [] => stopHere .eofInString []
  | _ + 1, '"' :: rest => .ok ([], rest)
  | fuel + 1, '\\' :: rest => do
    let (c, rest) ← readEscape rest
    let (others, rest) ← readStringFrom fuel rest
    .ok (c :: others, rest)
  | fuel + 1, c :: rest =>
    if c.toNat < 0x20 then stopHere .controlCharacter rest
    else do
      let (others, rest) ← readStringFrom fuel rest
      .ok (c :: others, rest)

def readString (text : List Char) : Except Stop (String × List Char) := do
  let (chars, rest) ← readStringFrom (text.length + 1) text
  .ok (String.ofList chars, rest)

/-- Reads the colon after a member's name. -/
def readColon (text : List Char) : Except Stop (Unit × List Char) :=
  match skipBlanks text with
  | ':' :: rest => .ok ((), rest)
  | [] => stopNext .eofInObject []
  | rest => stopNext .expectedColon rest

/-- The next item of an array, after blanks and a comma where one is needed, or its end. -/
def nextItem (first : Bool) (text : List Char) : Except Stop (Bool × List Char) :=
  match skipBlanks text with
  | [] => stopNext .eofInList []
  | ']' :: rest => .ok (false, rest)
  | ',' :: rest =>
    if first then .ok (true, ',' :: rest)
    else
      match skipBlanks rest with
      | [] => stopNext .eofInValue []
      | ']' :: rest => stopNext .trailingComma (']' :: rest)
      | rest => .ok (true, rest)
  | rest => if first then .ok (true, rest) else stopNext .expectedListEnd rest

/-- The next name of an object after its opening quote, or the object's end. -/
def nextKey (first : Bool) (text : List Char) : Except Stop (Bool × List Char) :=
  match skipBlanks text with
  | [] => stopNext .eofInObject []
  | '}' :: rest => .ok (false, rest)
  | '"' :: rest => if first then .ok (true, rest) else stopNext .expectedObjectEnd ('"' :: rest)
  | ',' :: rest =>
    if first then stopNext .keyNotString (',' :: rest)
    else
      match skipBlanks rest with
      | [] => stopNext .eofInValue []
      | '"' :: rest => .ok (true, rest)
      | '}' :: rest => stopNext .trailingComma ('}' :: rest)
      | rest => stopNext .keyNotString rest
  | rest => stopNext (if first then .keyNotString else .expectedObjectEnd) rest

mutual

/-- Reads a value that may hold fewer than `depth` arrays and objects inside one another. -/
def readValue : Nat → Nat → List Char → Except Stop (Json × List Char)
  | 0, _, _ => stopHere .eofInValue []
  | fuel + 1, depth, text =>
    match skipBlanks text with
    | [] => stopNext .eofInValue []
    | 'n' :: rest => readWord .null ['u', 'l', 'l'] rest
    | 't' :: rest => readWord (.bool true) ['r', 'u', 'e'] rest
    | 'f' :: rest => readWord (.bool false) ['a', 'l', 's', 'e'] rest
    | '-' :: rest => readNumber true rest
    | '"' :: rest => (readString rest).map fun (s, rest) => (.string s, rest)
    | '[' :: rest =>
      if depth ≤ 1 then stopNext .recursionLimit ('[' :: rest)
      else (readItems fuel (depth - 1) true rest).map fun (items, rest) => (.array items, rest)
    | '{' :: rest =>
      if depth ≤ 1 then stopNext .recursionLimit ('{' :: rest)
      else (readMembers fuel (depth - 1) true [] rest).map fun (members, rest) =>
        (.object members, rest)
    | c :: rest =>
      if c.isDigit then readNumber false (c :: rest) else stopNext .expectedValue (c :: rest)

/-- Reads the items of an array and its closing bracket. -/
def readItems : Nat → Nat → Bool → List Char → Except Stop (List Json × List Char)
  | 0, _, _, _ => stopHere .eofInValue []
  | fuel + 1, depth, first, text => do
    let (more, rest) ← nextItem first text
    if more then
      let (item, rest) ← readValue fuel depth rest
      let (others, rest) ← readItems fuel depth false rest
      .ok (item :: others, rest)
    else .ok ([], rest)

/-- Reads the members of an object and its closing brace, and puts them in after those before. -/
def readMembers : Nat → Nat → Bool → List (String × Json) → List Char →
    Except Stop (List (String × Json) × List Char)
  | 0, _, _, _, _ => stopHere .eofInValue []
  | fuel + 1, depth, first, before, text => do
    let (more, rest) ← nextKey first text
    if more then
      let (name, rest) ← readString rest
      let ((), rest) ← readColon rest
      let (value, rest) ← readValue fuel depth rest
      readMembers fuel depth false (putEntry name value before) rest
    else .ok (before, rest)

end

/-- One more than the greatest number of arrays and objects inside one another. -/
def depthLimit : Nat := 128

/-- Reads a text that is one value with blanks around it. -/
def readAll (text : List Char) : Except Stop Json := do
  let (value, rest) ← readValue (2 * text.length + 2) depthLimit text
  match skipBlanks rest with
  | [] => .ok value
  | rest => stopNext .trailingCharacters rest

/-- The line and column after a number of bytes, both counted from a given start. -/
def positionAfter : Nat → Nat → Nat → List Char → Nat × Nat
  | _, line, column, [] => (line, column)
  | bytes, line, column, c :: rest =>
    if bytes < c.utf8Size then (line, column + bytes)
    else if c = '\n' then positionAfter (bytes - 1) (line + 1) 0 rest
    else positionAfter (bytes - c.utf8Size) line (column + c.utf8Size) rest

/-- What is wrong with a text, and where. -/
structure SyntaxError where
  fault : Fault
  line : Nat
  column : Nat
  deriving DecidableEq, Repr, Inhabited

def SyntaxError.message (e : SyntaxError) : String :=
  e.fault.message ++ s!" at line {e.line} column {e.column}"

def read (text : String) : Except SyntaxError Json :=
  match readAll text.toList with
  | .ok value => .ok value
  | .error stop =>
    let (line, column) := positionAfter (byteCount text.toList - stop.left) 1 0 text.toList
    .error { fault := stop.fault, line, column }

/-- The text that a string literal spells. -/
def decodeString? (literal : String) : Option String :=
  match read literal with
  | .ok (.string s) => some s
  | _ => none

end AttrGrammar.Json
