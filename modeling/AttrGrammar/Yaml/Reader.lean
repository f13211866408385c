import AttrGrammar.Yaml.Token
import AttrGrammar.Yaml.Value

/-!
Reading YAML texts of one document, made of mappings and sequences in block or in flow style and of
plain or quoted scalars.

The readers take tokens and give a value and the tokens after it. A value that is left out counts as
an empty plain scalar.
-/

namespace AttrGrammar.Yaml

/-- A token that ends a value left out. -/
def endsAt (ends : List Token) (tokens : List Token) : Bool :=
  tokens.head?.any ends.contains

mutual

/-- Reads a value. Inside brackets collections are in flow style only; the value of a key may be a
sequence whose entries are not indented. -/
def readNode (block bare : Bool) : Nat → List Token → Except Fault (Yaml × List Token)
  | 0, _ => .error .unexpectedEnd
  | fuel + 1, tokens =>
    match tokens with
    | .scalar text plain :: rest => .ok (.scalar text plain, rest)
    | .flowSequenceStart :: rest =>
      (readItems true fuel rest).map fun (items, rest) => (.sequence items, rest)
    | .flowMappingStart :: rest =>
      (readMembers true fuel rest).map fun (members, rest) => (.mapping members, rest)
    | .entry :: _ =>
      if bare then (readBareEntries fuel tokens).map fun (items, rest) => (.sequence items, rest)
      else .error .unexpectedContent
    | .sequenceStart :: rest =>
      if block then (readEntries fuel rest).map fun (items, rest) => (.sequence items, rest)
      else .error .unexpectedContent
    | .mappingStart :: rest =>
      if block then (readPairs fuel rest).map fun (members, rest) => (.mapping members, rest)
      else .error .unexpectedContent
    | [] => .error .unexpectedEnd
    | _ => .error .unexpectedContent
termination_by structural fuel => fuel

/-- Reads a value that is left out if one of some tokens comes. -/
def readOptional (block bare : Bool) (ends : List Token) :
    Nat → List Token → Except Fault (Yaml × List Token)
  | 0, _ => .error .unexpectedEnd
  | fuel + 1, tokens =>
    if endsAt ends tokens then .ok (absent, tokens) else readNode block bare fuel tokens
termination_by structural fuel => fuel

/-- Reads the entries of a sequence up to its end. -/
def readEntries : Nat → List Token → Except Fault (List Yaml × List Token)
  | 0, _ => .error .unexpectedEnd
  | fuel + 1, tokens =>
    match tokens with
    | .entry :: rest => do
      let (item, rest) ← readOptional true false [.entry, .blockEnd] fuel rest
      let (others, rest) ← readEntries fuel rest
      .ok (item :: others, rest)
    | .blockEnd :: rest => .ok ([], rest)
    | _ => .error .unexpectedContent
termination_by structural fuel => fuel

/-- Reads the entries of a sequence that is not indented. -/
def readBareEntries : Nat → List Token → Except Fault (List Yaml × List Token)
  | 0, _ => .error .unexpectedEnd
  | fuel + 1, tokens =>
    match tokens with
    | .entry :: rest => do
      let (item, rest) ← readOptional true false [.entry, .key, .value, .blockEnd] fuel rest
      let (others, rest) ← readBareEntries fuel rest
      .ok (item :: others, rest)
    | _ => .ok ([], tokens)
termination_by structural fuel => fuel

/-- Reads the members of a mapping up to its end. -/
def readPairs : Nat → List Token → Except Fault (List (Yaml × Yaml) × List Token)
  | 0, _ => .error .unexpectedEnd
  | fuel + 1, tokens =>
    match tokens with
    | .key :: rest => do
      let ends := [Token.key, .value, .blockEnd]
      let (key, rest) ← readOptional true true ends fuel rest
      let (value, rest) ← match rest with
        | .value :: rest => readOptional true true ends fuel rest
        | _ => .ok (absent, rest)
      let (others, rest) ← readPairs fuel rest
      .ok ((key, value) :: others, rest)
    | .blockEnd :: rest => .ok ([], rest)
    | _ => .error .unexpectedContent
termination_by structural fuel => fuel

/-- Reads the value after a key in brackets. -/
def readFlowValue (closing : Token) : Nat → List Token → Except Fault (Yaml × List Token)
  | 0, _ => .error .unexpectedEnd
  | fuel + 1, tokens =>
    match tokens with
    | .value :: rest => readOptional false false [.comma, closing] fuel rest
    | _ => .ok (absent, tokens)
termination_by structural fuel => fuel

/-- Reads an item of a sequence in brackets. A pair counts as a mapping. Where the key of a pair is
left out, the token after it is passed over. -/
def readItem : Nat → List Token → Except Fault (Yaml × List Token)
  | 0, _ => .error .unexpectedEnd
  | fuel + 1, tokens =>
    match tokens with
    | .key :: rest => do
      let (key, rest) ←
        if endsAt [.value, .comma, .flowSequenceEnd] rest then .ok (absent, rest.drop 1)
        else readNode false false fuel rest
      let (value, rest) ← readFlowValue .flowSequenceEnd fuel rest
      .ok (.mapping [(key, value)], rest)
    | _ => readNode false false fuel tokens
termination_by structural fuel => fuel

/-- Reads the items of a sequence in brackets and its closing bracket. Before all items but the
first comes a comma. -/
def readItems (first : Bool) : Nat → List Token → Except Fault (List Yaml × List Token)
  | 0, _ => .error .unexpectedEnd
  | fuel + 1, tokens => do
    if tokens.head? = some .flowSequenceEnd then return ([], tokens.drop 1)
    if !first && tokens.head? ≠ some .comma then throw .unexpectedContent
    let tokens := if first then tokens else tokens.drop 1
    if tokens.head? = some .flowSequenceEnd then return ([], tokens.drop 1)
    let (item, rest) ← readItem fuel tokens
    let (others, rest) ← readItems false fuel rest
    return (item :: others, rest)
termination_by structural fuel => fuel

/-- Reads a member of a mapping in brackets. A value alone is a key. -/
def readMember : Nat → List Token → Except Fault ((Yaml × Yaml) × List Token)
  | 0, _ => .error .unexpectedEnd
  | fuel + 1, tokens =>
    match tokens with
    | .key :: rest => do
      let (key, rest) ← readOptional false false [.value, .comma, .flowMappingEnd] fuel rest
      let (value, rest) ← readFlowValue .flowMappingEnd fuel rest
      .ok ((key, value), rest)
    | _ => (readNode false false fuel tokens).map fun (key, rest) => ((key, absent), rest)
termination_by structural fuel => fuel

/-- Reads the members of a mapping in brackets and its closing brace. Before all members but the
first comes a comma. -/
def readMembers (first : Bool) : Nat → List Token → Except Fault (List (Yaml × Yaml) × List Token)
  | 0, _ => .error .unexpectedEnd
  | fuel + 1, tokens => do
    if tokens.head? = some .flowMappingEnd then return ([], tokens.drop 1)
    if !first && tokens.head? ≠ some .comma then throw .unexpectedContent
    let tokens := if first then tokens else tokens.drop 1
    if tokens.head? = some .flowMappingEnd then return ([], tokens.drop 1)
    let (member, rest) ← readMember fuel tokens
    let (others, rest) ← readMembers false fuel rest
    return (member :: others, rest)
termination_by structural fuel => fuel

end

/-- Reads a document. One with a mark at its start may be empty. -/
def readDocument (tokens : List Token) : Except Fault (Yaml × List Token) :=
  let fuel := 4 * tokens.length + 4
  match tokens with
  | [] => .ok (absent, [])
  | .documentStart :: rest =>
    if rest.isEmpty || endsAt [.documentStart, .documentEnd] rest then .ok (absent, rest)
    else readNode true false fuel rest
  | _ => readNode true false fuel tokens

/-- The value of a text. After its document come marks of the end of a document at most. -/
def read (text : String) : Except Fault Yaml := do
  let (value, rest) ← readDocument (← Token.ofText text)
  if rest.all (· == .documentEnd) then .ok value else .error .secondDocument

end AttrGrammar.Yaml
