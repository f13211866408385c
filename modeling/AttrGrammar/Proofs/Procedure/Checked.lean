import AttrGrammar.Procedure.Input
import AttrGrammar.Proofs.Json.Reading
import AttrGrammar.Proofs.Procedure.Scanning

/-!
What the check of the input lets through, and what the scanner makes of it.

The check looks at the value that a text spells, where a repeated key has its last value only; the
scanner reads the text. They agree on texts in which no object repeats a key. In general the scanner
stops at an accepted text if an array in it holds an object under a key that is repeated later.
-/

namespace AttrGrammar

/-- A value that is put in under a new name comes last. -/
theorem putEntry_of_not_mem {α : Type} {name : String} {value : α} {entries : List (String × α)}
    (fresh : name ∉ entries.map Prod.fst) :
    putEntry name value entries = entries ++ [(name, value)] := by
  induction entries with
  | nil => rfl
  | cons entry rest ih =>
    rw [List.map_cons, List.mem_cons, not_or] at fresh
    rw [putEntry, if_neg (Ne.symm fresh.1), ih fresh.2, List.cons_append]

theorem mem_putEntry {α : Type} {name : String} {value : α} {entries : List (String × α)}
    {entry : String × α} (member : entry ∈ putEntry name value entries) :
    entry = (name, value) ∨ entry ∈ entries := by
  induction entries with
  | nil => exact Or.inl (List.mem_singleton.1 member)
  | cons first rest ih =>
    obtain ⟨other, old⟩ := first
    unfold putEntry at member
    split at member
    · next same =>
      rcases List.mem_cons.1 member with rfl | later
      · exact Or.inl (same ▸ rfl)
      · exact Or.inr (List.mem_cons_of_mem _ later)
    · rcases List.mem_cons.1 member with rfl | later
      · exact Or.inr List.mem_cons_self
      · exact (ih later).imp_right (List.mem_cons_of_mem _)

namespace Json

def Members.keys : Members → List String
  | .nil => []
  | .cons _ key _ _ _ _ others => key.value :: others.keys

mutual

/-- No object repeats a key. -/
def Written.Distinct : Written → Prop
  | .array _ items => items.Distinct
  | .object _ members => members.keys.Nodup ∧ members.Distinct
  | _ => True

def Items.Distinct : Items → Prop
  | .nil => True
  | .cons _ item _ others => item.Distinct ∧ others.Distinct

def Members.Distinct : Members → Prop
  | .nil => True
  | .cons _ _ _ _ value _ others => value.Distinct ∧ others.Distinct

end

/-- The members in the order of the text. -/
def Members.listing : Members → List (String × Json)
  | .nil => []
  | .cons _ key _ _ value _ others => (key.value, value.json) :: others.listing

/-- Without repeated keys an object has its members as they are written. -/
theorem Members.entries_of_nodup : ∀ (members : Members) {before : List (String × Json)},
    (before.map Prod.fst ++ members.keys).Nodup →
      members.entries before = before ++ members.listing
  | .nil, before, _ => by rw [entries, listing, List.append_nil]
  | .cons _ key _ _ value _ others, before, distinct => by
    rw [keys] at distinct
    have fresh : key.value ∉ before.map Prod.fst := fun member =>
      (List.nodup_append.1 distinct).2.2 _ member _ List.mem_cons_self rfl
    have later : ((before ++ [(key.value, value.json)]).map Prod.fst ++ others.keys).Nodup := by
      rw [List.map_append, List.append_assoc]
      exact distinct
    rw [entries, putEntry_of_not_mem fresh, others.entries_of_nodup later, List.append_assoc]
    rfl

theorem Members.entries_eq_listing {members : Members} (distinct : members.keys.Nodup) :
    members.entries [] = members.listing := members.entries_of_nodup  distinct

/-- An object has no members but those that are written. -/
theorem Members.mem_entries : ∀ (members : Members) {before : List (String × Json)}
    {entry : String × Json}, entry ∈ members.entries before →
      entry ∈ before ∨ entry ∈ members.listing
  | .nil, _, _, member => Or.inl member
  | .cons _ key _ _ value _ others, before, entry, member => by
    rcases others.mem_entries member with known | later
    · rcases mem_putEntry known with rfl | old
      · exact Or.inr List.mem_cons_self
      · exact Or.inl old
    · exact Or.inr (List.mem_cons_of_mem _ later)

end Json

namespace Procedure

open Json (Blanks Numeral Written Items Members)

theorem checkInput_eq_ok {source : String} {kind : InputKind} (checked : checkInput source = .ok kind) :
    ∃ members, Json.read source = .ok (.object members) ∧ objectInMembers? "" members = none ∧
      kind = if members.isEmpty then .empty else .program := by
  unfold checkInput at checked
  obtain ⟨members, read, rest⟩ := except_bind_eq_ok.1 checked
  refine ⟨members, ?_, ?_⟩
  · unfold membersOf at read
    split at read
    · cases read
    · next done =>
      cases read
      exact done
    · cases read
  · split at rest
    · cases rest
    · next inside =>
      cases rest
      exact ⟨inside, rfl⟩

theorem objectInMembers?_eq_none {lead : String} {members : List (String × Json)} :
    objectInMembers? lead members = none ↔
      ∀ entry ∈ members, objectInArray? (lead ++ entry.1) false entry.2 = none := by
  induction members with
  | nil => simp [objectInMembers?]
  | cons entry rest ih =>
    obtain ⟨name, value⟩ := entry
    rw [objectInMembers?, List.forall_mem_cons, ← ih]
    cases objectInArray? (lead ++ name) false value <;> simp

/-- Whether a value stands in an array. -/
def Region.inArray : Region → Bool
  | .member => false
  | .item => true

theorem objectInItems?_cons {path : String} {index : Nat} {item : Json} {rest : List Json}
    (clean : objectInItems? path index (item :: rest) = Option.none) :
    objectInArray? (path ++ s!"[{index}]") true item = Option.none ∧
      objectInItems? path (index + 1) rest = Option.none := by
  rw [objectInItems?] at clean
  cases here : objectInArray? (path ++ s!"[{index}]") true item with
  | some found =>
    rw [here] at clean
    cases clean
  | none =>
    rw [here] at clean
    exact ⟨rfl, clean⟩

mutual

/-- Where no key is repeated, a text that passes has no objects in arrays. -/
theorem Written.plain_of_none : ∀ (w : Written) {r : Region} {path : String}, w.Distinct →
    objectInArray? path r.inArray w.json = none → w.plain r = true
  | .null, _, _, _, _ => rfl
  | .bool _, _, _, _, _ => rfl
  | .number _, _, _, _, _ => rfl
  | .string _, _, _, _, _ => rfl
  | .array _ items, _, _, distinct, passes => Items.plain_of_none items distinct passes
  | .object _ members, .member, path, distinct, passes => by
    have inside : objectInMembers? (path ++ ".") (members.entries []) = Option.none := passes
    rw [Members.entries_eq_listing distinct.1] at inside
    exact Members.plain_of_none members distinct.2 (objectInMembers?_eq_none.1 inside)
  | .object _ _, .item, _, _, passes => by cases passes

theorem Items.plain_of_none : ∀ (items : Items) {path : String} {index : Nat}, items.Distinct →
    objectInItems? path index items.json = none → items.plain = true
  | .nil, _, _, _, _ => rfl
  | .cons _ item _ others, _, _, distinct, passes => by
    obtain ⟨here, later⟩ := objectInItems?_cons passes
    rw [Items.plain, Written.plain_of_none item (r := .item) distinct.1 here,
      Items.plain_of_none others distinct.2 later]
    rfl

theorem Members.plain_of_none : ∀ (members : Members) {lead : String}, members.Distinct →
    (∀ entry ∈ members.listing, objectInArray? (lead ++ entry.1) false entry.2 = none) →
      members.plain = true
  | .nil, _, _, _ => rfl
  | .cons _ _ _ _ value _ others, _, distinct, passes => by
    have here := passes _ List.mem_cons_self
    have later := fun entry member => passes entry (List.mem_cons_of_mem _ member)
    rw [Members.plain, Written.plain_of_none value (r := .member) distinct.1 here,
      Members.plain_of_none others distinct.2 later]
    rfl

end

theorem putEntry_isEmpty {α : Type} (name : String) (value : α) (entries : List (String × α)) :
    (putEntry name value entries).isEmpty = false := by
  cases entries with
  | nil => rfl
  | cons entry rest =>
    obtain ⟨other, old⟩ := entry
    rw [putEntry]
    split <;> rfl

theorem isEmpty_entries (members : Members) (before : List (String × Json)) :
    (members.entries before).isEmpty = (before.isEmpty && members.isNil) := by
  cases members with
  | nil => exact (Bool.and_true _).symm
  | cons lead key blanks after value trail others =>
    rw [Members.entries, isEmpty_entries others, putEntry_isEmpty]
    exact (Bool.and_false _).symm

/-- An accepted text is an object as it is written, with blanks around it. -/
theorem written_of_checkInput {source : String} {kind : InputKind}
    (checked : checkInput source = .ok kind) :
    ∃ (lead trail gap : Blanks) (members : Members),
      source.toList = lead.1 ++ ((Written.object gap members).text ++ trail.1) ∧
        objectInMembers? "" (members.entries []) = none ∧
          (Written.object gap members).depth < Json.depthLimit ∧
            kind = if members.isNil then .empty else .program := by
  obtain ⟨entries, read, passes, known⟩ := checkInput_eq_ok checked
  obtain ⟨lead, trail, w, same, value, shallow⟩ := Json.exists_of_read read
  cases w with
  | object gap members =>
    rw [Written.json, Json.object.injEq] at value
    subst value
    rw [isEmpty_entries] at known
    exact ⟨lead, trail, gap, members, same, passes, shallow, known⟩
  | number n =>
    have number := n.value_isNumber
    rw [show n.value = .object entries from value] at number
    cases number
  | _ => cases value

/-- An accepted text is scanned just if none of its arrays holds an object, as is the case where no
object repeats a key. -/
theorem scan_of_checkInput {l : Language} (built : language = .ok l) {source : String}
    {kind : InputKind} (checked : checkInput source = .ok kind) :
    ∃ (lead trail gap : Blanks) (members : Members),
      source.toList = lead.1 ++ ((Written.object gap members).text ++ trail.1) ∧
        (∀ hooks, (∃ tokens, l.scan hooks source = .ok tokens) ↔ members.plain = true) ∧
          ((Written.object gap members).Distinct → members.plain = true) := by
  obtain ⟨lead, trail, gap, members, same, passes, _⟩ := written_of_checkInput checked
  have standard := (isStandard_of_language built).scanner
  have scanned : (Written.object gap members).plain .member = members.plain := rfl
  refine ⟨lead, trail, gap, members, same, fun hooks => ⟨?_, fun plain => ?_⟩, fun distinct => ?_⟩
  · rintro ⟨tokens, done⟩
    cases plain : members.plain with
    | true => rfl
    | false =>
      obtain ⟨e, stops⟩ := standard.scan_fails same (scanned.trans plain)
      cases done.symm.trans stops
  · exact ⟨_, standard.scan_text same (scanned.trans plain)⟩
  · rw [Members.entries_eq_listing distinct.1] at passes
    exact Members.plain_of_none members distinct.2 (objectInMembers?_eq_none.1 passes)

instance (source : String) (kind : InputKind) : Decidable (checkInput source = .ok kind) :=
  match equal : checkInput source with
  | .ok found => decidable_of_iff (found = kind) (by simp)
  | .error _ => isFalse nofun

theorem scan_of_checkInput_letters : ∃ l, language = .ok l ∧
    checkInput "\x7b\"a\":[\"b\"]\x7d" = .ok .program ∧
      ∃ (lead trail gap : Blanks) (members : Members),
        "\x7b\"a\":[\"b\"]\x7d".toList = lead.1 ++ ((Written.object gap members).text ++ trail.1) ∧
          (∀ hooks, (∃ tokens, l.scan hooks "\x7b\"a\":[\"b\"]\x7d" = .ok tokens) ↔
            members.plain = true) ∧
            ((Written.object gap members).Distinct → members.plain = true) := by
  obtain ⟨l, built⟩ := exists_language
  have checked : checkInput "\x7b\"a\":[\"b\"]\x7d" = .ok .program := by decide +kernel
  exact ⟨l, built, checked, scan_of_checkInput built checked⟩

/-- The last value of a repeated key hides the others from the check, but not from the scanner. -/
theorem scan_fails_of_repeatedKey : ∃ l, language = .ok l ∧
    checkInput "\x7b\"a\":[\x7b\x7d],\"a\":null\x7d" = .ok .program ∧
      ∀ hooks, ∃ e, l.scan hooks "\x7b\"a\":[\x7b\x7d],\"a\":null\x7d" = .error e := by
  obtain ⟨l, built⟩ := exists_language
  let gap : Blanks := ⟨[], List.forall_mem_nil _⟩
  let key : Json.Literal := ⟨[.plain 'a'], ['a'], rfl⟩
  let w : Written := .object gap
    (.cons gap key gap gap (.array gap (.cons gap (.object gap .nil) gap .nil)) gap
      (.cons gap key gap gap .null gap .nil))
  have same : "\x7b\"a\":[\x7b\x7d],\"a\":null\x7d".toList = gap.1 ++ (w.text ++ gap.1) := by
    decide +kernel
  exact ⟨l, built, by decide +kernel, fun hooks =>
    (isStandard_of_language built).scanner.scan_fails same rfl⟩

end Procedure

end AttrGrammar
