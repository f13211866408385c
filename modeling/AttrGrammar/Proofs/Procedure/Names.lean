import AttrGrammar.Proofs.Procedure.Acceptance
import AttrGrammar.Proofs.Procedure.Pipelines

/-!
The names of a symbol table.

They are those that the members of the source have, one after the other, each at its first place. The
object that the check of the input reads has the last value of a repeated key only, while the table
keeps the names that came with the others. So flattening this object gives the names of the table
where all values of a repeated key have the same names, and otherwise some of them.
-/

namespace AttrGrammar

open Procedure (join isForm)

section FirstPlace

variable {α : Type} [BEq α] [LawfulBEq α] {xs xs' ys ys' : List α}

/-- Filtering may come first or last. -/
theorem eraseDups_filter (p : α → Bool) : ∀ xs : List α,
    (xs.filter p).eraseDups = xs.eraseDups.filter p
  | [] => rfl
  | x :: rest => by
    have shorter : (rest.filter fun y => !y == x).length < rest.length + 1 :=
      Nat.lt_succ_of_le (List.length_filter_le _ _)
    rw [List.eraseDups_cons, List.filter_cons, List.filter_cons,
      ← eraseDups_filter p (rest.filter fun y => !y == x), List.filter_filter]
    cases kept : p x with
    | true =>
      rw [if_pos rfl, if_pos rfl, List.eraseDups_cons, List.filter_filter]
      simp only [Bool.and_comm]
    | false =>
      have other : ∀ y, (p y && !y == x) = p y := by
        intro y
        by_cases same : y = x
        · rw [same, kept, Bool.false_and]
        · rw [beq_eq_false_iff_ne.2 same, Bool.not_false, Bool.and_true]
      rw [if_neg Bool.false_ne_true, if_neg Bool.false_ne_true, funext other]
termination_by xs => xs.length

theorem mem_congr_of_eraseDups (same : xs.eraseDups = ys.eraseDups) (x : α) : x ∈ xs ↔ x ∈ ys := by
  rw [← List.mem_eraseDups, same, List.mem_eraseDups]

theorem eraseDups_append_congr (left : xs.eraseDups = xs'.eraseDups)
    (right : ys.eraseDups = ys'.eraseDups) :
    (xs ++ ys).eraseDups = (xs' ++ ys').eraseDups := by
  have known : (fun y => !xs.elem y) = fun y => !xs'.elem y := by
    funext y
    rw [Bool.eq_iff_iff]
    simp [mem_congr_of_eraseDups left y]
  rw [List.eraseDups_append, List.eraseDups_append, left, List.removeAll, List.removeAll,
    eraseDups_filter, eraseDups_filter, right, known]

theorem eraseDups_cons_congr (x : α) (same : xs.eraseDups = ys.eraseDups) :
    (x :: xs).eraseDups = (x :: ys).eraseDups :=
  @eraseDups_append_congr _ _ _ [x] _ _ _ rfl same

/-- What occurs before adds nothing. -/
theorem eraseDups_append_of_subset (known : ys ⊆ xs) : (xs ++ ys).eraseDups = xs.eraseDups := by
  have nothing : ys.removeAll xs = [] := by
    rw [List.removeAll, List.filter_eq_nil_iff]
    intro y member
    simp [known member]
  rw [List.eraseDups_append, nothing, List.eraseDups_nil, List.append_nil]

/-- A table of the names of a list has those of a longer list when the next is put in. -/
theorem Table.names_insert_of_eraseDups {β : Type} {t : Table β} {seen : List String}
    (names : t.names = seen.eraseDups) (name : String) (value : β) :
    (t.insert name value).names = (seen ++ [name]).eraseDups := by
  rw [Table.names_insert, names]
  by_cases known : name ∈ seen
  · rw [if_pos (List.mem_eraseDups.2 known),
      eraseDups_append_of_subset (List.cons_subset.2 ⟨known, List.nil_subset _⟩)]
  · have fresh : [name].removeAll seen = [name] := by
      rw [List.removeAll, List.filter_eq_self]
      intro other member
      rw [List.mem_singleton.1 member]
      simp [known]
    rw [if_neg (mt List.mem_eraseDups.1 known), List.eraseDups_append, fresh]
    rfl

end FirstPlace

namespace Json

mutual

/-- The names in a value at a scope: its members are flattened if it is an object. -/
def names (scope : String) : Json → List String
  | .object members => namesOf scope members
  | _ => []

/-- The names of members in a scope: that of each key, followed by those in its value. -/
def namesOf (scope : String) : List (String × Json) → List String
  | [] => []
  | (key, value) :: rest => join scope key :: (value.names (join scope key) ++ namesOf scope rest)

end

mutual

/-- The names in a value as it is written, with those of all members that repeat a key. -/
def Written.names (scope : String) : Written → List String
  | .object _ members => members.names scope
  | .array _ _ | .string _ | .number _ | .bool _ | .null => []

def Members.names (scope : String) : Members → List String
  | .nil => []
  | .cons _ key _ _ value _ others =>
    join scope key.value :: (value.names (join scope key.value) ++ others.names scope)

end

/-- The values that a key has in an object, in the order of the text. -/
def Members.valuesAt (name : String) : Members → List Written
  | .nil => []
  | .cons _ key _ _ value _ others =>
    if key.value = name then value :: others.valuesAt name else others.valuesAt name

mutual

/-- In every object, the values of a repeated key have the same names. -/
def Written.Steady (scope : String) : Written → Prop
  | .object _ members => members.Steady scope
  | .array _ _ | .string _ | .number _ | .bool _ | .null => True

def Members.Steady (scope : String) : Members → Prop
  | .nil => True
  | .cons _ key _ _ value _ others =>
    value.Steady (join scope key.value) ∧
      (∀ later ∈ others.valuesAt key.value, (later.names (join scope key.value)).eraseDups =
        (value.names (join scope key.value)).eraseDups) ∧
      others.Steady scope

end

/-- No key is a special form. -/
def Members.FormFree (members : Members) : Prop :=
  ∀ e ∈ members.listed true, isForm e.key.body = false

instance (members : Members) : Decidable members.FormFree :=
  inferInstanceAs (Decidable (∀ e ∈ members.listed true, isForm e.key.body = false))

theorem mem_namesOf {scope name : String} {members : List (String × Json)} :
    name ∈ namesOf scope members ↔
      ∃ entry ∈ members, name = join scope entry.1 ∨ name ∈ entry.2.names (join scope entry.1) := by
  induction members with
  | nil => simp [namesOf]
  | cons entry rest ih =>
    obtain ⟨key, value⟩ := entry
    rw [namesOf, List.mem_cons, List.mem_append, ih]
    simp only [List.mem_cons, exists_eq_or_imp, or_assoc]

theorem Numeral.names_value (n : Numeral) (scope : String) : n.value.names scope = [] := by
  have number := n.value_isNumber
  cases value : n.value with
  | int _ => rfl
  | float _ => rfl
  | _ =>
    rw [value] at number
    cases number

mutual

/-- A value that is read has no names but those that are written. -/
theorem Written.names_json_subset : ∀ (w : Written) (scope : String),
    w.json.names scope ⊆ w.names scope
  | .object _ members, scope => by
    intro name member
    obtain ⟨entry, listed, named⟩ := mem_namesOf.1 member
    have written := (members.mem_entries listed).resolve_left List.not_mem_nil
    exact members.names_listing_subset scope (mem_namesOf.2 ⟨entry, written, named⟩)
  | .number n, scope => by
    rw [Written.json, n.names_value]
    exact List.nil_subset _
  | .array _ _, _ | .string _, _ | .bool _, _ | .null, _ => List.nil_subset _

theorem Members.names_listing_subset : ∀ (members : Members) (scope : String),
    namesOf scope members.listing ⊆ members.names scope
  | .nil, _ => List.nil_subset _
  | .cons _ key _ _ value _ others, scope =>
    List.cons_subset_cons _ (List.append_subset.2
      ⟨List.subset_append_of_subset_left _ (value.names_json_subset (join scope key.value)),
        List.subset_append_of_subset_right _ (others.names_listing_subset scope)⟩)

end

/-- Putting a value in under a key comes to flattening it at the end, if the value that it takes the
place of has the same names. -/
theorem eraseDups_namesOf_putEntry (scope key : String) (value : Json)
    {entries : List (String × Json)}
    (same : ∀ old, (key, old) ∈ entries → (value.names (join scope key)).eraseDups =
      (old.names (join scope key)).eraseDups) :
    (namesOf scope (putEntry key value entries)).eraseDups =
      (namesOf scope entries ++ join scope key :: value.names (join scope key)).eraseDups := by
  induction entries with
  | nil => simp [putEntry, namesOf]
  | cons entry rest ih =>
    obtain ⟨other, old⟩ := entry
    rw [putEntry]
    by_cases named : other = key
    · subst named
      have replaced := same old List.mem_cons_self
      have head := eraseDups_cons_congr (join scope other) replaced
      have known : join scope other :: value.names (join scope other) ⊆
          join scope other :: (old.names (join scope other) ++ namesOf scope rest) :=
        List.cons_subset_cons _ fun name member =>
          List.mem_append_left _ ((mem_congr_of_eraseDups replaced name).1 member)
      rw [if_pos rfl, namesOf, namesOf, eraseDups_append_of_subset known, ← List.cons_append,
        ← List.cons_append]
      exact eraseDups_append_congr head rfl
    · have later := ih fun old member => same old (List.mem_cons_of_mem _ member)
      rw [if_neg named, namesOf, namesOf, ← List.cons_append, ← List.cons_append, List.append_assoc]
      exact eraseDups_append_congr rfl later

mutual

theorem Written.eraseDups_names_json : ∀ (w : Written) {scope : String}, w.Steady scope →
    (w.json.names scope).eraseDups = (w.names scope).eraseDups
  | .object _ members, _, steady =>
    members.eraseDups_names_entries steady fun _ member => (List.not_mem_nil member).elim
  | .number n, scope, _ => by
    rw [Written.json, n.names_value]
    rfl
  | .array _ _, _, _ | .string _, _, _ | .bool _, _, _ | .null, _, _ => rfl

/-- The members that are put in after others have their names after them, where the values of a
repeated key have the same names. -/
theorem Members.eraseDups_names_entries : ∀ (members : Members) {scope : String}
    {before : List (String × Json)}, members.Steady scope →
    (∀ entry ∈ before, ∀ later ∈ members.valuesAt entry.1,
      (later.names (join scope entry.1)).eraseDups =
        (entry.2.names (join scope entry.1)).eraseDups) →
      (namesOf scope (members.entries before)).eraseDups =
        (namesOf scope before ++ members.names scope).eraseDups
  | .nil, _, _, _, _ => by rw [Members.entries, Members.names, List.append_nil]
  | .cons lead key gap after value trail others, scope, before, ⟨inside, repeats, steady⟩, agree => by
    have here := value.eraseDups_names_json inside
    have first : value ∈
        (Members.cons lead key gap after value trail others).valuesAt key.value := by
      rw [Members.valuesAt, if_pos rfl]
      exact List.mem_cons_self
    have put := eraseDups_namesOf_putEntry scope key.value value.json fun old member =>
      here.trans (agree _ member _ first)
    have still : ∀ entry ∈ putEntry key.value value.json before, ∀ later ∈ others.valuesAt entry.1,
        (later.names (join scope entry.1)).eraseDups =
          (entry.2.names (join scope entry.1)).eraseDups := by
      intro entry member later among
      rcases mem_putEntry member with rfl | old
      · exact (repeats later among).trans here.symm
      · refine agree entry old later ?_
        rw [Members.valuesAt]
        split
        · exact List.mem_cons_of_mem _ among
        · exact among
    have flattened := eraseDups_cons_congr (join scope key.value) here
    rw [Members.entries, others.eraseDups_names_entries steady still, eraseDups_append_congr put rfl,
      List.append_assoc, Members.names]
    exact eraseDups_append_congr rfl (eraseDups_append_congr flattened rfl)

end

end Json

namespace Procedure

open Scanner (advance)
open Json (Blanks Written Items Members Literal Lines Entry namesOf pairStatement?)

mutual

/-- The names that a member brings in, in the order in which they are put in. -/
def Statement.names (scope : String) : Statement → List String
  | .bind key _ => [join scope key]
  | .within key body => join scope key :: namesIn (join scope key) body
  | .parameters _ items => items.filterMap fun item => item.string?.map (join scope)
  | .documentation _ => [join scope "&doc"]
  | .reference .. => []

def namesIn (scope : String) : List Statement → List String
  | [] => []
  | statement :: rest => statement.names scope ++ namesIn scope rest

end

variable {table table' : SymbolTable} {seen : List String}

/-- Registering a name does the same to the names of a table as binding it. -/
theorem names_addParameters {scope : String} {line : Option Nat} {items : List Value}
    (done : addParameters scope line table items = .ok table')
    (names : table.names = seen.eraseDups) : table'.names =
      (seen ++ items.filterMap fun item => item.string?.map (join scope)).eraseDups := by
  induction items generalizing table seen with
  | nil =>
    cases done
    simpa using names
  | cons item rest ih =>
    cases item with
    | string name =>
      rw [addParameters] at done
      have grown : (if table.contains (join scope name) then table
          else table.insert (join scope name) .unbound).names =
            (seen ++ [join scope name]).eraseDups := by
        split
        · next known =>
          have old : join scope name ∈ seen :=
            List.mem_eraseDups.1 (names ▸ List.contains_iff_mem.1 known)
          rw [names, eraseDups_append_of_subset (List.cons_subset.2 ⟨old, List.nil_subset _⟩)]
        · exact Table.names_insert_of_eraseDups names _ _
      have later := ih done grown
      rwa [List.append_assoc] at later
    | _ => cases done

mutual

/-- A member adds its names to those of the table. -/
theorem Statement.names_run : ∀ (statement : Statement) {top : Bool} {scope : String}
    {table table' : SymbolTable} {seen : List String},
    statement.run top scope table = .ok table' → table.names = seen.eraseDups →
      table'.names = (seen ++ statement.names scope).eraseDups
  | .bind _ _, _, _, _, _, _, done, names => by
    cases done
    exact Table.names_insert_of_eraseDups names _ _
  | .within _ body, _, _, _, _, _, done, names => by
    have inside := names_runBody body done (Table.names_insert_of_eraseDups names _ _)
    rwa [List.append_assoc] at inside
  | .parameters _ _, _, _, _, _, _, done, names => names_addParameters done names
  | .documentation _, _, _, _, _, _, done, names => by
    cases done
    exact Table.names_insert_of_eraseDups names _ _
  | .reference _ _, top, _, _, _, _, done, names => by
    cases top with
    | true => cases done
    | false =>
      cases done
      rwa [Statement.names, List.append_nil]

/-- Members that are processed add their names in their order. -/
theorem names_runBody : ∀ (body : List Statement) {top : Bool} {scope : String}
    {table table' : SymbolTable} {seen : List String},
    runBody top scope table body = .ok table' → table.names = seen.eraseDups →
      table'.names = (seen ++ namesIn scope body).eraseDups
  | [], _, _, _, _, _, done, names => by
    cases done
    rwa [namesIn, List.append_nil]
  | statement :: rest, _, _, _, _, _, done, names => by
    rw [runBody] at done
    obtain ⟨table, first, done⟩ := except_bind_eq_ok.1 done
    have later := names_runBody rest done (statement.names_run first names)
    rwa [List.append_assoc] at later

end

/-- The names of the table that a program means. -/
theorem names_meaning {body : List Statement} (meant : meaning body = .ok table) :
    table.names = (namesIn "" body).eraseDups := @names_runBody body true "" ∅ table [] meant rfl

theorem names_pairStatement? {w : Written} {line : Option Nat} {key : Literal} {statement : Statement}
    (free : isForm key.body = false) (decoded : pairStatement? line key w = some statement)
    (scope : String) : statement.names scope = [join scope key.value] := by
  rw [pairStatement?, free, if_neg Bool.false_ne_true] at decoded
  obtain ⟨value, -, rfl⟩ := Option.map_eq_some_iff.1 decoded
  rfl

mutual

theorem names_statement? : ∀ (w : Written) {lines : Lines} {depth : Nat} {place : Nat × Nat}
    {line : Option Nat} {key : Literal} {statement : Statement},
    w.statement? lines depth place line key = some statement → isForm key.body = false →
      (∀ e ∈ w.entries, isForm e.key.body = false) → ∀ scope : String,
        statement.names scope = join scope key.value :: w.names (join scope key.value)
  | .object gap (.cons lead key' before after value trail others), lines, depth, place, _, key,
      statement, decoded, free, inside, scope => by
    change (if isForm key.body = true then none
      else ((Members.cons lead key' before after value trail others).statements? lines true depth
        (advance place ('{' :: gap.1))).map _) = some statement at decoded
    rw [free, if_neg Bool.false_ne_true] at decoded
    obtain ⟨body, members, rfl⟩ := Option.map_eq_some_iff.1 decoded
    rw [Statement.names, names_statements? _ members inside]
    rfl
  | .object _ .nil, _, _, _, _, _, _, decoded, free, _, scope =>
    names_pairStatement? free decoded scope
  | .array _ _, _, _, _, _, _, _, decoded, free, _, scope
  | .string _, _, _, _, _, _, _, decoded, free, _, scope
  | .number _, _, _, _, _, _, _, decoded, free, _, scope
  | .bool _, _, _, _, _, _, _, decoded, free, _, scope
  | .null, _, _, _, _, _, _, decoded, free, _, scope => names_pairStatement? free decoded scope

/-- Members without special forms bring in the names that they are flattened to. -/
theorem names_statements? : ∀ (members : Members) {lines : Lines} {first top : Bool} {depth : Nat}
    {place : Nat × Nat} {body : List Statement},
    members.statements? lines first depth place = some body →
      (∀ e ∈ members.listed top, isForm e.key.body = false) → ∀ scope : String,
        namesIn scope body = members.names scope
  | .nil, _, _, _, _, _, _, decoded, _, _ => by
    cases decoded
    rfl
  | .cons _ key _ _ value _ others, _, _, top, _, _, _, decoded, free, scope => by
    obtain ⟨⟨plainKey, inside⟩, later⟩ := (forall_listed top _ key _ _ value _ others).1 free
    rw [Members.statements?] at decoded
    obtain ⟨statement, first, decoded⟩ := Option.bind_eq_some_iff.1 decoded
    obtain ⟨rest, behind, decoded⟩ := Option.bind_eq_some_iff.1 decoded
    cases decoded
    rw [namesIn, names_statement? value first plainKey inside, names_statements? others behind later]
    rfl

end

variable {g : Attribution} {l : Language} {source : String} {outcome : Option Environment}

/-- The symbols that compiling comes to; an object without members has none. -/
def symbolsIn (outcome : Option Environment) : SymbolTable :=
  (outcome.map Environment.symbols).getD ∅

/-- A source that is compiled is spelled by members. -/
theorem spelled_of_compile (standard : IsStandard g.language)
    (done : compile source g = .ok outcome) :
    ∃ lead gap members trail, Spelled source lead gap members trail := by
  cases checked : checkInput source with
  | error e =>
    rw [compile, checked] at done
    cases done
  | ok kind =>
    cases kind with
    | empty =>
      obtain ⟨lead, trail, gap, members, same, clear, shallow, known⟩ := written_of_checkInput checked
      cases members with
      | nil => exact ⟨lead, gap, .nil, trail, same, rfl, shallow, clear, rfl⟩
      | cons => cases known
    | program =>
      rw [compile_eq_analyzed checked] at done
      cases steps : analyzed (withScope g) source with
      | error e =>
        rw [steps] at done
        cases done
      | ok result =>
        rw [analyzed] at steps
        obtain ⟨tokens, tokenized, steps⟩ := except_bind_eq_ok.1 steps
        obtain ⟨tree, parsed, -⟩ := except_bind_eq_ok.1 steps
        exact spelled_of_parse (g := withScope g) ((language_withScope g).symm ▸ standard) checked
          tokenized parsed

/-- The table of a compiled source is what its members mean. -/
theorem Spelled.meaning_eq {lead gap trail : Blanks} {members : Members}
    (spelled : Spelled source lead gap members trail) (standard : IsStandard g.language)
    (scopes : StandardScope g) (done : compile source g = .ok outcome) {body : List Statement}
    (decoded : bodyOf members = some body) : meaning body = .ok (symbolsIn outcome) := by
  have same := spelled.compile_eq standard scopes decoded
  rw [done] at same
  cases nothing : members.isNil with
  | true =>
    rw [nothing, if_pos rfl] at same
    cases members with
    | nil =>
      cases decoded
      cases outcome with
      | none => rfl
      | some env => cases same
    | cons => cases nothing
  | false =>
    rw [nothing, if_neg Bool.false_ne_true] at same
    cases meant : meaning body with
    | error e =>
      rw [meant] at same
      cases same
    | ok table =>
      rw [meant] at same
      cases outcome with
      | none => cases same
      | some env =>
        cases same
        rfl

/-- The table of a compiled source has the names that its members are flattened to. -/
theorem Spelled.names_eq {lead gap trail : Blanks} {members : Members}
    (spelled : Spelled source lead gap members trail) (standard : IsStandard g.language)
    (scopes : StandardScope g) (done : compile source g = .ok outcome) (free : members.FormFree) :
    (symbolsIn outcome).names = (members.names "").eraseDups := by
  obtain ⟨body, decoded⟩ := Option.isSome_iff_exists.1 spelled.decoded
  rw [← names_statements? members decoded free ""]
  exact names_meaning (spelled.meaning_eq standard scopes done decoded)

theorem Spelled.exists_outcome {lead gap trail : Blanks} {members : Members}
    (spelled : Spelled source lead gap members trail) (standard : IsStandard g.language)
    (scopes : StandardScope g) {body : List Statement} (decoded : bodyOf members = some body)
    (sound : Sounds true body) : ∃ outcome, compile source g = .ok outcome := by
  have same := spelled.compile_eq standard scopes decoded
  cases compiled : compile source g with
  | ok outcome => exact ⟨outcome, rfl⟩
  | error e =>
    rw [compiled] at same
    rcases runBody_cases body true "" ∅ with ⟨⟨table, meant⟩, -⟩ | ⟨-, unsound⟩
    · rw [meaning, meant] at same
      split at same <;> cases same
    · exact absurd sound unsound

/-- Names that are those of members, each at its first place. The object that is read from the members
has no others, and it has the same in the same order where all values of a repeated key have the same
names. -/
structure Flattens (members : Members) (names : List String) : Prop where
  written : names = (members.names "").eraseDups
  read : namesOf "" (members.entries []) ⊆ names
  same : members.Steady "" → names = (namesOf "" (members.entries [])).eraseDups

theorem flattens_members (members : Members) : Flattens members (members.names "").eraseDups where
  written := rfl
  read _ member :=
    List.mem_eraseDups.2 ((Written.object Json.noBlanks members).names_json_subset "" member)
  same steady := ((Written.object Json.noBlanks members).eraseDups_names_json steady).symm

/-- The table of a compiled source without special forms has the names of its members. -/
theorem names_of_compile (built : language = .ok l) (speaks : g.language = l)
    (scopes : StandardScope g) (done : compile source g = .ok outcome) :
    ∃ (lead trail gap : Blanks) (members : Members),
      source.toList = lead.1 ++ ((Written.object gap members).text ++ trail.1) ∧
        membersOf source = .ok (members.entries []) ∧
          (members.FormFree → Flattens members (symbolsIn outcome).names) := by
  have standard : IsStandard g.language := speaks ▸ isStandard_of_language built
  obtain ⟨lead, gap, members, trail, spelled⟩ := spelled_of_compile standard done
  refine ⟨lead, trail, gap, members, spelled.text, spelled.membersOf_eq, fun free => ?_⟩
  rw [spelled.names_eq standard scopes done free]
  exact flattens_members members

/-- A key that is spelled in two ways. -/
theorem names_of_compile_escaped : ∃ l outcome, language = .ok l ∧
    (tokenizerOf l).language = l ∧ StandardScope (tokenizerOf l) ∧
      compile "\x7b\"a\":\x7b\"b\":null\x7d,\"\\u0061\":\x7b\"b\":true\x7d\x7d" (tokenizerOf l) =
        .ok outcome ∧
      ∃ (lead trail gap : Blanks) (members : Members),
        "\x7b\"a\":\x7b\"b\":null\x7d,\"\\u0061\":\x7b\"b\":true\x7d\x7d".toList =
            lead.1 ++ ((Written.object gap members).text ++ trail.1) ∧
          membersOf "\x7b\"a\":\x7b\"b\":null\x7d,\"\\u0061\":\x7b\"b\":true\x7d\x7d" =
              .ok (members.entries []) ∧
            (members.FormFree → Flattens members (symbolsIn outcome).names) := by
  obtain ⟨l, built⟩ := exists_language
  have standard : IsStandard (tokenizerOf l).language := isStandard_of_language built
  have scopes := standardScope_tokenizerOf l
  let gap : Blanks := Json.noBlanks
  let a : Literal := ⟨[.plain 'a'], ['a'], rfl⟩
  let a' : Literal := ⟨[.unicode ['0', '0', '6', '1']], ['a'], by decide +kernel⟩
  let b : Literal := ⟨[.plain 'b'], ['b'], rfl⟩
  let members : Members := .cons gap a gap gap
    (.object gap (.cons gap b gap gap .null gap .nil)) gap
    (.cons gap a' gap gap (.object gap (.cons gap b gap gap (.bool true) gap .nil)) gap .nil)
  have spelled : Spelled "\x7b\"a\":\x7b\"b\":null\x7d,\"\\u0061\":\x7b\"b\":true\x7d\x7d" gap gap
      members gap := ⟨by decide +kernel, rfl, by decide, by decide +kernel, rfl⟩
  obtain ⟨outcome, done⟩ := spelled.exists_outcome standard scopes rfl
    ⟨⟨trivial, trivial⟩, ⟨trivial, trivial⟩, trivial⟩
  exact ⟨l, outcome, built, rfl, scopes, done, names_of_compile built rfl scopes done⟩

/-- The names under a value that is replaced stay in the table, but the object that is read does not
have them. -/
theorem names_of_repeatedKey : ∃ l outcome members, language = .ok l ∧
    '&' ∉ "\x7b\"a\":\x7b\"x\":null\x7d,\"a\":null\x7d".toList ∧
    compile "\x7b\"a\":\x7b\"x\":null\x7d,\"a\":null\x7d" (tokenizerOf l) = .ok outcome ∧
    membersOf "\x7b\"a\":\x7b\"x\":null\x7d,\"a\":null\x7d" = .ok members ∧
    (symbolsIn outcome).names = ["a", "a.x"] ∧ (namesOf "" members).eraseDups = ["a"] := by
  obtain ⟨l, built⟩ := exists_language
  have standard : IsStandard (tokenizerOf l).language := isStandard_of_language built
  have scopes := standardScope_tokenizerOf l
  let gap : Blanks := Json.noBlanks
  let a : Literal := ⟨[.plain 'a'], ['a'], rfl⟩
  let x : Literal := ⟨[.plain 'x'], ['x'], rfl⟩
  let members : Members := .cons gap a gap gap
    (.object gap (.cons gap x gap gap .null gap .nil)) gap
    (.cons gap a gap gap .null gap .nil)
  have spelled : Spelled "\x7b\"a\":\x7b\"x\":null\x7d,\"a\":null\x7d" gap gap members gap :=
    ⟨by decide +kernel, rfl, by decide, by decide +kernel, rfl⟩
  obtain ⟨outcome, done⟩ := spelled.exists_outcome standard scopes rfl
    ⟨⟨trivial, trivial⟩, trivial, trivial⟩
  refine ⟨l, outcome, _, built, by decide +kernel, done, spelled.membersOf_eq, ?_, by decide +kernel⟩
  have free : members.FormFree := by decide
  rw [spelled.names_eq standard scopes done free]
  decide +kernel

end Procedure

end AttrGrammar
