import AttrGrammar.Pattern.Basic

/-!
The size of patterns.

A pattern counts as large as an automaton that reads the bytes of texts in UTF-8, forwards or
backwards. A state takes 32 bytes, a transition of a state with several of them 8 and a branch 4.
Counted repetitions are written out in full, so the size bounds the work of matching.
-/

namespace AttrGrammar

/-- The least and the greatest byte at each place of some texts in UTF-8 of one length. -/
abbrev ByteRanges := List (Nat × Nat)

namespace ByteRanges

/-- The bytes of a character in UTF-8. -/
def bytesOf (c : Char) : List Nat := (String.utf8EncodeChar c).map UInt8.toNat

/-- The code points whose texts have one length, without the surrogates. -/
def blocks : List (Nat × Nat) :=
  [(0, 0x7f), (0x80, 0x7ff), (0x800, 0xd7ff), (0xe000, 0xffff), (0x10000, 0x10ffff)]

/-- The parts of a range of code points in the blocks. -/
def inBlocks (range : Nat × Nat) : List (Nat × Nat) :=
  (blocks.map fun (first, last) => (max first range.1, min last range.2)).filter
    fun (first, last) => first ≤ last

/-- Cuts a range of code points of one block into parts in which each byte ranges freely. Each byte
after the first holds six bits; `place` counts them from the last one. -/
def cut : Nat → Nat → Nat → Nat → List ByteRanges
  | 0, _, _, _ => []
  | fuel + 1, place, first, last =>
    let unit := 1 <<< (6 * place)
    if place > 3 || last < 0x80 then [(bytesOf (Char.ofNat first)).zip (bytesOf (Char.ofNat last))]
    else if first / unit = last / unit then cut fuel (place + 1) first last
    else if first % unit ≠ 0 then
      let stop := (first / unit + 1) * unit
      cut fuel 1 first (stop - 1) ++ cut fuel 1 stop last
    else if last % unit ≠ unit - 1 then
      let stop := last / unit * unit
      cut fuel 1 first (stop - 1) ++ cut fuel 1 stop last
    else cut fuel (place + 1) first last

/-- The texts of the characters of a set. -/
def ofSet (s : CharSet) : List ByteRanges :=
  (s.ranges.flatMap inBlocks).flatMap fun (first, last) => cut 64 1 first last

/-- The length of what two lists begin with. -/
def commonLength (a b : ByteRanges) : Nat :=
  ((a.zip b).takeWhile fun (x, y) => x == y).length

/-- The number of places in a tree of ranges in order, where ranges share what they begin with. -/
def treeSize (all : List ByteRanges) : Nat :=
  ((([] : ByteRanges) :: all).zip all).foldl (fun n (a, b) => n + (b.length - commonLength a b)) 0

/-- Ranges in order by their first bytes. -/
def byFirst : List ByteRanges → List ((Nat × Nat) × List ByteRanges)
  | [] => []
  | [] :: others => byFirst others
  | (first :: rest) :: others =>
    match byFirst others with
    | (next, rests) :: more =>
      if first = next then (next, rest :: rests) :: more
      else (first, [rest]) :: (next, rests) :: more
    | [] => [(first, [rest])]

/-- The transitions of a state, each with the number of the state it leads to. -/
abbrev Transitions := List ((Nat × Nat) × Nat)

/-- Adds the states that read ranges in order, states with equal transitions only once. State 0 is
where reading ends. -/
def share : Nat → List ByteRanges → List Transitions → Nat × List Transitions
  | 0, _, states => (0, states)
  | fuel + 1, all, states =>
    if all.all List.isEmpty then (0, states)
    else
      let (transitions, states) := (byFirst all).foldl (fun (transitions, states) (bytes, rests) =>
        let (next, states) := share fuel rests states
        (transitions ++ [(bytes, next)], states)) ([], states)
      match states.idxOf? transitions with
      | some i => (i + 1, states)
      | none => (states.length + 1, states ++ [transitions])

end ByteRanges

/-- The size of a set of characters. Reading forwards, states are shared from the ends of the texts;
reading backwards, from their beginnings. -/
def CharSet.size (forwards : Bool) (s : CharSet) : Nat :=
  if s.ranges.all fun (_, last) => last < 0x80 then 64 + 8 * s.ranges.length
  else
    let all := ByteRanges.ofSet s
    if forwards then
      (ByteRanges.share 8 all []).2.foldl (fun n transitions => n + 32 + 8 * transitions.length) 32
    else 64 + 4 * all.length + 32 * ByteRanges.treeSize all

namespace Pattern

/-- Texts up to one that ends, which is preferred to those after it. -/
def untilEmpty : List (List Nat) → List (List (List Nat))
  | [] => [[]]
  | [] :: rest => [] :: untilEmpty rest
  | text :: rest =>
    match untilEmpty rest with
    | texts :: more => (text :: texts) :: more
    | [] => [[text]]

/-- Texts by their first bytes. -/
def byFirst (texts : List (List Nat)) : List (List (List Nat)) :=
  (texts.filterMap List.head?).eraseDups.map fun first =>
    texts.filterMap fun
      | b :: rest => if b = first then some rest else none
      | [] => none

/-- The size of the states that read one of some texts. A text that ends where others go on cuts the
transitions of its state into one list before it and one after. -/
def textsSize : Nat → List (List Nat) → Nat
  | 0, _ => 0
  | fuel + 1, texts =>
    if texts.all List.isEmpty then 0
    else
      let ends := texts.takeWhile List.isEmpty
      let texts := if ends.isEmpty then texts else [] :: texts.drop ends.length
      let lists := untilEmpty texts
      let read := lists.filter fun texts => !texts.isEmpty
      let each := read.map fun texts =>
        let groups := byFirst texts
        (if groups.length = 1 then 32 else 32 + 8 * groups.length) +
          groups.foldl (fun n texts => n + textsSize fuel texts) 0
      32 + 4 * (read.length + (lists.length - 1)) + each.foldl (· + ·) 0

/-- The bytes of a literal. -/
def literal? : Pattern → Option (List Nat)
  | literal text => some (text.flatMap ByteRanges.bytesOf)
  | _ => none

/-- The size of a choice between literals, if the branches are all literals. -/
def literalsSize? (forwards : Bool) (ps : List Pattern) : Option Nat := do
  let texts ← ps.mapM literal?
  let texts := if forwards then texts else texts.map List.reverse
  some (32 + textsSize (texts.foldl (fun n text => n + text.length) 1) texts)

/-- What is added to the size of the last branch of a choice. -/
def lastSize (last : Bool) : Nat := if last then 4 else 0

/-- The size of a pattern by itself, or as the last branches of a choice. -/
def automatonSize (forwards : Bool) : Pattern → Bool → Nat
  | empty, last | assertion _, last => 32 + lastSize last
  | literal text, last => 32 * (text.flatMap ByteRanges.bytesOf).length + lastSize last
  | set s, last => s.size forwards + lastSize last
  | group p, last =>
    p.automatonSize forwards false + (if forwards then 64 else 0) + lastSize last
  | seq a b, last =>
    a.automatonSize forwards false + b.automatonSize forwards false + lastSize last
  | alt a b, last =>
    let n := a.automatonSize forwards false + 4 + b.automatonSize forwards true
    if last then n else (literalsSize? forwards (alt a b).branches).getD (64 + n)
  | repeated p low high _, last =>
    let one := p.automatonSize forwards false
    let n := match high with
      | some high =>
        if low = high then low * one
        else if low = 0 ∧ high = 1 then one + 72
        else (if low = 0 then 32 else low * one) + 32 + (high - low) * (one + 40)
      | none => if low = 0 then (if p.nullable then one + 112 else one + 40) else low * one + 40
    n + lastSize last

/-- The size of a pattern together with what surrounds it. A search that may begin, or backwards
end, at any place also skips the bytes before that. -/
def totalSize (forwards : Bool) (p : Pattern) : Nat :=
  let fixed := if forwards then p.anchored else p.anchoredAtEnd
  p.automatonSize forwards false + (if fixed then 32 else 112) + if forwards then 96 else 32

/-- How large a pattern may be. -/
def sizeLimit : Nat := 10 * 1024 * 1024

/-- Whether a pattern is small enough to be matched. -/
def isSmall (p : Pattern) : Bool :=
  p.totalSize true ≤ sizeLimit && p.totalSize false ≤ sizeLimit

end Pattern

end AttrGrammar
