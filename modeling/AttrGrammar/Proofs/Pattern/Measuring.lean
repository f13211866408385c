import AttrGrammar.Proofs.Pattern.Eager
import AttrGrammar.Proofs.Pattern.Matching
import AttrGrammar.Proofs.Pattern.Preferred
import AttrGrammar.Proofs.Scanner

/-!
How far matchers measure.

A matcher without assertions measures nothing just if it accepts no prefix of the text, and otherwise
measures one that it accepts. Which one it is depends on how the pattern is written, because a branch
goes before those after it even if they lead further: the pattern has an order of preference, and the
first place in it is measured. For eager patterns that is the longest prefix, and the scanner, which
compares what its rules measure, takes the longest match in this sense.
-/

namespace AttrGrammar

namespace Matcher

/-- Whether a matcher is made of a pattern that is valid on its own and has no assertions. -/
def Plain (m : Matcher) : Prop :=
  ofPattern m.pattern = .ok m ∧ (Pattern.read m.pattern.toList).toOption.any Pattern.plain = true

instance (m : Matcher) : Decidable m.Plain :=
  inferInstanceAs (Decidable (_ ∧ _))

/-- Whether a text is a prefix of another one and accepted. -/
def Begins (m : Matcher) (text s : String) : Prop :=
  s.toList <+: text.toList ∧ m.accepts s = true

/-- The longest prefix that is accepted. -/
structure Longest (m : Matcher) (text s : String) : Prop where
  begins : m.Begins text s
  most : ∀ t, m.Begins text t → t.length ≤ s.length

/-- Whether a matcher is made of an eager pattern. -/
def Eager (m : Matcher) : Prop :=
  (Pattern.read m.pattern.toList).toOption.any Pattern.eager = true

instance (m : Matcher) : Decidable m.Eager :=
  inferInstanceAs (Decidable (_ = _))

/-- How a matcher measures the start of a text. -/
structure Measures (m : Matcher) (text : String) : Prop where
  none_iff : m.byteLength? text = none ↔ ∀ s, ¬ m.Begins text s
  accepted : ∀ n, m.byteLength? text = some n → ∃ s, m.Begins text s ∧ s.utf8ByteSize = n
  preferred : ∀ p, Pattern.read m.pattern.toList = .ok p → p.steady = true →
    m.length? text.toList = (p.ranking ⟨none, text.toList⟩).head?.map fun y =>
      text.toList.length - y.rest.length
  longest : m.Eager → ∀ n, m.byteLength? text = some n ↔
    ∃ s, m.Longest text s ∧ s.utf8ByteSize = n

variable {m : Matcher} {text s : String}

/-- The prefixes of a text. -/
def prefixes (text : String) : List String := text.toList.inits.map String.ofList

theorem mem_prefixes_iff : s ∈ prefixes text ↔ s.toList <+: text.toList := by
  rw [prefixes, List.mem_map]
  constructor
  · rintro ⟨start, listed, rfl⟩
    rw [String.toList_ofList]
    exact (List.mem_inits _ _).1 listed
  · exact fun start => ⟨_, (List.mem_inits _ _).2 start, String.ofList_toList⟩

theorem begins_iff : m.Begins text s ↔ s ∈ (prefixes text).filter m.accepts := by
  rw [List.mem_filter, mem_prefixes_iff]
  rfl

instance : Decidable (m.Begins text s) := decidable_of_iff _ begins_iff.symm

instance : Decidable (m.Longest text s) :=
  decidable_of_iff (m.Begins text s ∧ ∀ t ∈ (prefixes text).filter m.accepts, t.length ≤ s.length) <|
    by simp only [← begins_iff]; exact ⟨fun h => ⟨h.1, h.2⟩, fun h => ⟨h.1, h.2⟩⟩

/-- There is one longest prefix. -/
theorem Longest.unique {t : String} (first : m.Longest text s) (second : m.Longest text t) :
    s = t := by
  have same : s.length = t.length :=
    Nat.le_antisymm (second.most s first.begins) (first.most t second.begins)
  have left := List.prefix_iff_eq_take.1 first.begins.1
  have right := List.prefix_iff_eq_take.1 second.begins.1
  rw [String.length_toList] at left right
  rw [← String.toList_inj, left, right, same]

/-- A matcher of a steady pattern measures the way the pattern prefers. -/
theorem length?_eq_head {text : String} {p : Pattern} (made : ofPattern text = .ok m)
    (read : Pattern.read text.toList = .ok p) (steady : p.steady = true) (rest : List Char) :
    m.length? rest = (p.ranking ⟨none, rest⟩).head?.map fun y => rest.length - y.rest.length := by
  obtain ⟨compiled, anchored⟩ := start_of_read made read
  have ranking : m.start.pattern.ranking ⟨none, rest⟩ = p.ranking ⟨none, rest⟩ := by
    rw [anchored, Pattern.sequential_ranking.sequence, List.map_cons, List.map_singleton,
      List.prod_cons, List.prod_singleton]
    change [(⟨none, rest⟩ : Spot)].flatMap p.ranking = _
    rw [List.flatMap_singleton]
  have steady' : m.start.pattern.steady = true := by
    rw [anchored, Pattern.sequential_steady.sequence, List.map_cons, List.map_singleton,
      List.prod_cons, List.prod_singleton, steady]
    rfl
  have spec := (Reads.of_read made read).start_spec
  rw [length?, Finder.search_eq_run spec.1 spec.2, compiled, Automaton.run_ofPattern steady', ranking]

namespace Plain

theorem reads (plain : m.Plain) : ∃ L, m.Reads (.ofLanguage L) := by
  obtain ⟨made, valid⟩ := plain
  obtain ⟨p, read, free⟩ := exists_ok_of_any valid
  exact ⟨p.language, Pattern.reads_of_plain free ▸ .of_read made read⟩

/-- A measured prefix is accepted. -/
theorem begins_of_length? (plain : m.Plain) {n : Nat} (found : m.length? text.toList = some n) :
    m.Begins text (String.ofList (text.toList.take n)) ∧ n ≤ text.toList.length := by
  obtain ⟨L, reads⟩ := plain.reads
  obtain ⟨inside, member⟩ := reads.take_mem found
  rw [Begins, reads.accepts_iff_mem, String.toList_ofList]
  exact ⟨⟨List.take_prefix _ _, member⟩, inside⟩

/-- Where a prefix is accepted, one is measured. -/
theorem length?_isSome_iff (plain : m.Plain) :
    (m.length? text.toList).isSome = true ↔ ∃ s, m.Begins text s := by
  obtain ⟨L, reads⟩ := plain.reads
  rw [reads.length?_isSome_iff_mem]
  constructor
  · rintro ⟨s, member, start⟩
    refine ⟨String.ofList s, ?_⟩
    rw [Begins, reads.accepts_iff_mem, String.toList_ofList]
    exact ⟨start, member⟩
  · rintro ⟨s, start, accepted⟩
    exact ⟨s.toList, reads.accepts_iff_mem.1 accepted, start⟩

/-- An eager pattern leads no further than what is measured. -/
theorem longest_of_length? (plain : m.Plain) (eager : m.Eager) {n : Nat}
    (found : m.length? text.toList = some n) :
    m.Longest text (String.ofList (text.toList.take n)) := by
  obtain ⟨begins, inside⟩ := plain.begins_of_length? found
  obtain ⟨made, valid⟩ := plain
  obtain ⟨p, read, eager⟩ := exists_ok_of_any eager
  obtain ⟨_, read', free⟩ := exists_ok_of_any valid
  cases read.symm.trans read'
  have steady := Pattern.steady_of_eager eager
  rw [length?_eq_head made read steady] at found
  obtain ⟨y, hd, rfl⟩ := Option.map_eq_some_iff.1 found
  refine ⟨begins, fun t ⟨⟨rest, whole⟩, accepted⟩ => ?_⟩
  have means : m.Reads (.ofLanguage p.language) :=
    Pattern.reads_of_plain free ▸ .of_read made read
  have way : p.ranking.ways ⟨none, text.toList⟩ ⟨t.toList.getLast?.or none, rest⟩ := by
    rw [Pattern.ways_ranking steady, Pattern.reads_of_plain free]
    exact ⟨t.toList, means.accepts_iff_mem.1 accepted, whole.symm, rfl⟩
  have near : y.rest.length ≤ rest.length := (Pattern.sharp_ranking eager).head_le hd way
  have size := congrArg List.length whole
  rw [List.length_append, String.length_toList] at size
  rw [String.length_ofList, List.length_take]
  omega

theorem length?_of_eager (plain : m.Plain) (eager : m.Eager) (longest : m.Longest text s) :
    m.length? text.toList = some s.length := by
  obtain ⟨n, found⟩ := Option.isSome_iff_exists.1 (plain.length?_isSome_iff.2 ⟨s, longest.begins⟩)
  have inside := (plain.begins_of_length? found).2
  rw [found, longest.unique (plain.longest_of_length? eager found), String.length_ofList,
    List.length_take, Nat.min_eq_left inside]

/-- What an eager pattern accepts is no longer than what is measured. -/
theorem exists_length_le (plain : m.Plain) (eager : m.Eager) (begins : m.Begins text s) :
    ∃ n, m.length? text.toList = some n ∧ s.length ≤ n := by
  obtain ⟨n, found⟩ := Option.isSome_iff_exists.1 (plain.length?_isSome_iff.2 ⟨s, begins⟩)
  have most := (plain.longest_of_length? eager found).most s begins
  rw [String.length_ofList, List.length_take] at most
  exact ⟨n, found, most.trans (Nat.min_le_left _ _)⟩

theorem measures (plain : m.Plain) (text : String) : m.Measures text where
  none_iff := by
    rw [byteLength?, Option.map_eq_none_iff, ← Option.not_isSome_iff_eq_none,
      plain.length?_isSome_iff, not_exists]
  accepted n measured := by
    obtain ⟨k, found, rfl⟩ := Option.map_eq_some_iff.1 measured
    exact ⟨_, (plain.begins_of_length? found).1, rfl⟩
  preferred p read steady := length?_eq_head plain.1 read steady text.toList
  longest eager n := by
    constructor
    · intro measured
      obtain ⟨k, found, rfl⟩ := Option.map_eq_some_iff.1 measured
      exact ⟨_, plain.longest_of_length? eager found, rfl⟩
    · rintro ⟨s, longest, rfl⟩
      rw [byteLength?, plain.length?_of_eager eager longest, Option.map_some,
        ← String.length_toList, List.prefix_iff_eq_take.1 longest.begins.1 |>.symm,
        String.ofList_toList]

end Plain

end Matcher

namespace Scanner

/-- What a scanner takes at the start of a text: a prefix that the rule accepts, as long as any that
is measured, and as long as any that an eager rule accepts. -/
structure Takes (rules : List ScanRule) (text : String) (n : Nat) (rule : ScanRule) : Prop where
  listed : rule ∈ rules
  accepted : ∃ s, rule.matcher.Begins text s ∧ s.length = n ∧ s ≠ ""
  most : ∀ other ∈ rules, ∀ k, other.matcher.length? text.toList = some k → k ≤ n
  longest : ∀ other ∈ rules, other.matcher.Eager → ∀ s, other.matcher.Begins text s → s.length ≤ n

/-- Rules whose patterns have no assertions measure prefixes that they accept, the longest ones where
the patterns are eager, and the scanner takes the longest of what they measure. -/
theorem takes_of_plain {rules : List ScanRule} (plain : ∀ rule ∈ rules, rule.matcher.Plain)
    (text : String) :
    (∀ rule ∈ rules, rule.matcher.Measures text) ∧
    (∀ n rule, longestFrom text.toList 0 rules = some (n, rule) → Takes rules text n rule) ∧
    (longestFrom text.toList 0 rules = none → ∀ rule ∈ rules, rule.matcher.Eager →
      ∀ s, rule.matcher.Begins text s → s = "") := by
  refine ⟨fun rule listed => (plain rule listed).measures text, fun n rule found => ?_,
    fun nothing rule listed eager s begins => ?_⟩
  · obtain ⟨positive, i, here, measured, best⟩ := longestFrom_chosen.1 found
    have listed := List.mem_of_getElem? here
    have most : ∀ other ∈ rules, ∀ k, other.matcher.length? text.toList = some k → k ≤ n := by
      intro other member k fits
      obtain ⟨j, there⟩ := List.mem_iff_getElem?.1 member
      exact (best j other k there fits).1
    obtain ⟨begins, inside⟩ := (plain rule listed).begins_of_length? measured
    have length : (String.ofList (text.toList.take n)).length = n := by
      rw [String.length_ofList, List.length_take, Nat.min_eq_left inside]
    refine ⟨listed, ⟨_, begins, length, fun empty => ?_⟩, most, fun other member eager s begins => ?_⟩
    · rw [empty] at length
      exact positive.ne length
    · obtain ⟨k, fits, within⟩ := (plain other member).exists_length_le eager begins
      exact within.trans (most other member k fits)
  · obtain ⟨k, fits, within⟩ := (plain rule listed).exists_length_le eager begins
    rw [longestFrom_unmatched.1 nothing rule listed k fits] at within
    exact String.length_eq_zero_iff.1 (Nat.le_zero.1 within)

/-- Rules for a word, a number and a number with its unit, given by their patterns. -/
def unitRules : List ScanRule :=
  [("word", "[a-z][a-z0-9]*"), ("number", "-?[0-9]+(?:\\.[0-9]+)?"),
    ("amount", "[0-9]+(?:\\.[0-9]+)?(?:mm|m|s)")].filterMap fun (terminal, pattern) =>
      (Matcher.ofPattern pattern).toOption.map fun matcher => { terminal, matcher, action := .emit }

/-- The rules for words and numbers accept several prefixes, and the longest one is measured. -/
theorem takes_of_plain_units : (∀ rule ∈ unitRules, rule.matcher.Plain ∧ rule.matcher.Eager) ∧
    ∃ rule, Takes unitRules "12.75mm;" 7 rule ∧ rule.terminal = "amount" ∧
      ∃ number ∈ unitRules, number.terminal = "number" ∧ number.matcher.Begins "12.75mm;" "1" ∧
        number.matcher.Begins "12.75mm;" "12" ∧
        ∃ s, number.matcher.Longest "12.75mm;" s ∧ s.utf8ByteSize = 5 := by
  have plain : ∀ rule ∈ unitRules, rule.matcher.Plain ∧ rule.matcher.Eager := by decide +kernel
  obtain ⟨measures, takes, _⟩ := takes_of_plain (fun rule listed => (plain rule listed).1) "12.75mm;"
  have found : ∃ rule ∈ unitRules, longestFrom "12.75mm;".toList 0 unitRules = some (7, rule) ∧
      rule.terminal = "amount" := by decide +kernel
  have several : ∃ number ∈ unitRules, number.terminal = "number" ∧
      number.matcher.Begins "12.75mm;" "1" ∧ number.matcher.Begins "12.75mm;" "12" ∧
      number.matcher.byteLength? "12.75mm;" = some 5 := by decide +kernel
  obtain ⟨rule, _, chosen, named⟩ := found
  obtain ⟨number, listed, word, one, two, measured⟩ := several
  exact ⟨plain, rule, takes 7 rule chosen, named, number, listed, word, one, two,
    ((measures number listed).longest (plain number listed).2 5).1 measured⟩

/-- A branch that comes first is measured, though a later one leads further. -/
theorem shorter_measured :
    (∃ m, Matcher.ofPattern "a|ab" = .ok m ∧ m.Plain ∧ m.Longest "ab" "ab" ∧
      m.byteLength? "ab" = some 1) ∧
    ∃ m other, Matcher.ofPattern "a|abc" = .ok m ∧ Matcher.ofPattern "ab" = .ok other ∧
      longestFrom "abc".toList 0 [⟨"first", m, .emit⟩, ⟨"second", other, .emit⟩] =
        some (2, ⟨"second", other, .emit⟩) ∧
      m.Longest "abc" "abc" ∧ other.accepts "abc" = false := by
  have alone : (Matcher.ofPattern "a|ab").toOption.any (fun m => decide (m.Plain ∧
      m.Longest "ab" "ab" ∧ m.byteLength? "ab" = some 1)) = true := by decide +kernel
  have beside : (Matcher.ofPattern "a|abc").toOption.any (fun m =>
      (Matcher.ofPattern "ab").toOption.any fun other => decide (
        longestFrom "abc".toList 0 [⟨"first", m, .emit⟩, ⟨"second", other, .emit⟩] =
          some (2, ⟨"second", other, .emit⟩) ∧
        m.Longest "abc" "abc" ∧ other.accepts "abc" = false)) = true := by decide +kernel
  obtain ⟨m, made, facts⟩ := exists_ok_of_any alone
  obtain ⟨first, made', second⟩ := exists_ok_of_any beside
  obtain ⟨other, made'', facts'⟩ := exists_ok_of_any second
  exact ⟨⟨m, made, of_decide_eq_true facts⟩, first, other, made', made'', of_decide_eq_true facts'⟩

end Scanner

end AttrGrammar
