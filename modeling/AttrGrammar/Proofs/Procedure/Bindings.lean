import Mathlib.Data.List.Induction
import Mathlib.Data.List.Nodup
import AttrGrammar.Proofs.Procedure.Names

/-!
What is stored under which name.

Each bind has a path, the keys on the way to it, and is stored under the name that joins them. Where
no key has a dot, names tell paths apart up to empty keys at their front: the scope that an empty key
of the outermost object opens has the name of the outermost scope. What shares its name with nothing
else is found there when all members are processed.
-/

namespace AttrGrammar

/-- No key of a text has a dot. -/
def Json.Members.Dotless (members : Members) : Prop :=
  ∀ e ∈ members.listed true, '.' ∉ e.key.value.toList

namespace Procedure

open Scanner (advance)
open Json (Blanks Written Members Literal Lines pairStatement?)

/-- A list is cut at the last place of an element in one way only. -/
theorem cut_inj {α : Type} {x : α} {front front' back back' : List α}
    (same : front ++ x :: back = front' ++ x :: back') (last : x ∉ back) (last' : x ∉ back') :
    front = front' ∧ back = back' := by
  rcases List.append_eq_append_iff.1 same with ⟨more, rfl, split⟩ | ⟨more, rfl, split⟩
  all_goals
    cases more with
    | nil =>
      rw [List.nil_append] at split
      rw [List.append_nil]
      exact ⟨rfl, by cases split; rfl⟩
    | cons _ more =>
      obtain ⟨_, rfl⟩ := List.cons.inj split
      simp at last last'

theorem toList_join {scope : String} (inner : scope ≠ "") (key : String) :
    (join scope key).toList = scope.toList ++ '.' :: key.toList := by
  rw [join, if_neg (by simpa using inner)]
  simp

theorem join_empty (key : String) : join "" key = key := rfl

/-- A name tells a key without dots from the scope that it is joined to. -/
theorem join_inj {scope scope' key key' : String} (plain : '.' ∉ key.toList)
    (plain' : '.' ∉ key'.toList) :
    join scope key = join scope' key' ↔ scope = scope' ∧ key = key' := by
  refine ⟨fun same => ?_, fun ⟨scopes, keys⟩ => scopes ▸ keys ▸ rfl⟩
  by_cases outer : scope = "" <;> by_cases outer' : scope' = ""
  · subst outer outer'
    exact ⟨rfl, same⟩
  · rw [outer, join_empty] at same
    rw [same, toList_join outer'] at plain
    simp at plain
  · rw [outer', join_empty] at same
    rw [← same, toList_join outer] at plain'
    simp at plain'
  · have cut := congrArg String.toList same
    rw [toList_join outer, toList_join outer'] at cut
    obtain ⟨scopes, keys⟩ := cut_inj cut plain plain'
    exact ⟨String.toList_inj.1 scopes, String.toList_inj.1 keys⟩

/-- The name of a path of keys. -/
def nameOf (path : List String) : String := path.foldl join ""

/-- The part of a path that its name shows: all but the empty keys at its front. -/
def visiblePart (path : List String) : List String := path.dropWhile (·.isEmpty)

theorem nameOf_concat (path : List String) (key : String) :
    nameOf (path ++ [key]) = join (nameOf path) key := by
  rw [nameOf, List.foldl_append]
  rfl

/-- Empty keys at the front of a path are not seen in its name. -/
theorem nameOf_visiblePart (path : List String) : nameOf (visiblePart path) = nameOf path := by
  induction path with
  | nil => rfl
  | cons key rest ih =>
    by_cases empty : key = ""
    · subst empty
      exact ih
    · rw [visiblePart, List.dropWhile_cons_of_neg (by simpa using empty)]

theorem visiblePart_concat_congr {path path' : List String}
    (same : visiblePart path = visiblePart path') (key : String) :
    visiblePart (path ++ [key]) = visiblePart (path' ++ [key]) := by
  rw [visiblePart, visiblePart, List.dropWhile_append, List.dropWhile_append]
  rw [visiblePart, visiblePart] at same
  rw [same]

/-- Only paths of empty keys have the name of the outermost scope. -/
theorem visiblePart_of_nameOf_eq_empty {path : List String} (plain : ∀ key ∈ path, '.' ∉ key.toList)
    (unnamed : nameOf path = "") : visiblePart path = [] := by
  induction path using List.reverseRecOn with
  | nil => rfl
  | append_singleton path key ih =>
    simp only [List.forall_mem_append, List.forall_mem_singleton] at plain
    rw [nameOf_concat, ← join_empty "", join_inj plain.2 (by simp)] at unnamed
    obtain ⟨scope, rfl⟩ := unnamed
    have inside : visiblePart path = visiblePart [] := ih plain.1 scope
    exact visiblePart_concat_congr inside ""

/-- Names tell paths without dots apart, up to empty keys at the front, by induction from the last
key. -/
theorem nameOf_inj {path path' : List String} (plain : ∀ key ∈ path, '.' ∉ key.toList)
    (plain' : ∀ key ∈ path', '.' ∉ key.toList) :
    nameOf path = nameOf path' ↔ visiblePart path = visiblePart path' := by
  refine ⟨fun same => ?_, fun same => by rw [← nameOf_visiblePart path, same, nameOf_visiblePart]⟩
  induction path using List.reverseRecOn generalizing path' with
  | nil => exact (visiblePart_of_nameOf_eq_empty plain' same.symm).symm
  | append_singleton path key ih =>
    cases path' using List.reverseRecOn with
    | nil => exact visiblePart_of_nameOf_eq_empty plain same
    | append_singleton path' key' =>
      simp only [List.forall_mem_append, List.forall_mem_singleton] at plain plain'
      rw [nameOf_concat, nameOf_concat, join_inj plain.2 plain'.2] at same
      obtain ⟨scopes, rfl⟩ := same
      exact visiblePart_concat_congr (ih plain.1 plain'.1 scopes) key

/-- The key of a member as it is decoded. -/
def Statement.key : Statement → String
  | .bind key _ | .within key _ => key
  | .parameters .. => "&let"
  | .reference .. => "&ref"
  | .documentation _ => "&doc"

mutual

/-- What a member of the object at a path stores, each with its own path: binds, and documentation. -/
def Statement.stores (path : List String) : Statement → List (List String × Value)
  | .bind key value => [(path ++ [key], value)]
  | .within key body => (path ++ [key], valueOfBody body) :: storesIn (path ++ [key]) body
  | .documentation text => [(path ++ ["&doc"], .procedure .docForm [.string text])]
  | .parameters .. | .reference .. => []

def storesIn (path : List String) : List Statement → List (List String × Value)
  | [] => []
  | statement :: rest => statement.stores path ++ storesIn path rest

end

/-- The value that is stored last under a name. -/
def latest (name : String) (stores : List (List String × Value)) : Option Value :=
  (stores.reverse.find? fun s => nameOf s.1 == name).map Prod.snd

theorem latest_append (name : String) (first later : List (List String × Value)) :
    latest name (first ++ later) = (latest name later).or (latest name first) := by
  rw [latest, List.reverse_append, List.find?_append, Option.map_or]
  rfl

theorem latest_single (name : String) (path : List String) (value : Value) :
    latest name [(path, value)] = if name = nameOf path then some value else none := by
  rw [latest, List.reverse_singleton, List.find?_singleton]
  by_cases same : name = nameOf path
  · rw [if_pos same, if_pos (beq_iff_eq.2 same.symm)]
    rfl
  · rw [if_neg same, if_neg (by simpa using Ne.symm same)]
    rfl

/-- Putting a value in stores it under its name. -/
theorem find?_insert_nameOf (table : SymbolTable) (name : String) (path : List String) (value : Value) :
    (table.insert (nameOf path) value).find? name =
      (latest name [(path, value)]).or (table.find? name) := by
  rw [latest_single, Table.find?_insert]
  split <;> rfl

variable {table table' : SymbolTable}

/-- Parameters take no value away. -/
theorem find?_addParameters {scope : String} {line : Option Nat} {items : List Value}
    (done : addParameters scope line table items = .ok table') {name : String} {value : Value}
    (found : table.find? name = some value) : table'.find? name = some value := by
  induction items generalizing table with
  | nil =>
    cases done
    exact found
  | cons item rest ih =>
    cases item with
    | string parameter =>
      rw [addParameters] at done
      refine ih done ?_
      split
      · exact found
      · next fresh =>
        have other : name ≠ join scope parameter := by
          rintro rfl
          have known := (table.isSome_find?_iff _).1 (by rw [found]; rfl)
          exact fresh (List.contains_iff_mem.2 known)
        rw [Table.find?_insert, if_neg other, found]
    | _ => cases done

mutual

/-- A member leaves under a name what it stores there last, or else what was there before. -/
theorem Statement.find?_run : ∀ (statement : Statement) {top : Bool} {path : List String}
    {table table' : SymbolTable} {name : String} {value : Value},
    statement.run top (nameOf path) table = .ok table' →
      (latest name (statement.stores path)).or (table.find? name) = some value →
        table'.find? name = some value
  | .bind _ _, _, _, _, _, _, _, done, last => by
    cases done
    rw [← nameOf_concat, find?_insert_nameOf]
    exact last
  | .within _ body, _, _, _, _, _, _, done, last => by
    rw [Statement.run, ← nameOf_concat] at done
    rw [Statement.stores, ← List.singleton_append, latest_append, Option.or_assoc,
      ← find?_insert_nameOf] at last
    exact find?_runBody body done last
  | .parameters _ _, _, _, _, _, _, _, done, last => find?_addParameters done last
  | .documentation _, _, _, _, _, _, _, done, last => by
    cases done
    rw [← nameOf_concat, find?_insert_nameOf]
    exact last
  | .reference _ _, top, _, _, _, _, _, done, last => by
    cases top with
    | true => cases done
    | false =>
      cases done
      exact last

theorem find?_runBody : ∀ (body : List Statement) {top : Bool} {path : List String}
    {table table' : SymbolTable} {name : String} {value : Value},
    runBody top (nameOf path) table body = .ok table' →
      (latest name (storesIn path body)).or (table.find? name) = some value →
        table'.find? name = some value
  | [], _, _, _, _, _, _, done, last => by
    cases done
    exact last
  | statement :: rest, _, path, table, _, name, value, done, last => by
    rw [runBody] at done
    obtain ⟨between, first, done⟩ := except_bind_eq_ok.1 done
    rw [storesIn, latest_append, Option.or_assoc] at last
    refine find?_runBody rest done ?_
    cases here : latest name (storesIn path rest) with
    | some later =>
      rw [here] at last
      exact last
    | none =>
      rw [here, Option.none_or] at last
      exact statement.find?_run first last

end

/-- The table of a program has under each name what is stored there last. -/
theorem find?_meaning {body : List Statement} (meant : meaning body = .ok table) {name : String}
    {value : Value} (last : latest name (storesIn [] body) = some value) :
    table.find? name = some value := by
  have start : runBody true (nameOf []) ∅ body = .ok table := meant
  refine find?_runBody body start ?_
  rw [last]
  rfl

/-- What alone has its name is what is stored there last. -/
theorem latest_of_alone {stores : List (List String × Value)} {s : List String × Value}
    (member : s ∈ stores) (alone : ∀ other ∈ stores, nameOf other.1 = nameOf s.1 → other = s) :
    latest (nameOf s.1) stores = some s.2 := by
  have isSome : (stores.reverse.find? fun other => nameOf other.1 == nameOf s.1).isSome = true :=
    List.find?_isSome.2 ⟨s, List.mem_reverse.2 member, beq_self_eq_true _⟩
  obtain ⟨other, found⟩ := Option.isSome_iff_exists.1 isSome
  have named := List.find?_some found
  have listed := List.mem_reverse.1 (List.mem_of_find?_eq_some found)
  rw [latest, found, alone other listed (by simpa using named)]
  rfl

/-- The paths of what is stored. -/
def pathsIn (body : List Statement) : List (List String) := (storesIn [] body).map Prod.fst

mutual

/-- No key below a member has a dot, and no object there repeats a key. -/
def Statement.Neat : Statement → Prop
  | .bind key _ => '.' ∉ key.toList
  | .within key body => '.' ∉ key.toList ∧ (body.map Statement.key).Nodup ∧ Neats body
  | .parameters .. | .reference .. | .documentation _ => True

def Neats : List Statement → Prop
  | [] => True
  | statement :: rest => statement.Neat ∧ Neats rest

end

theorem mem_storesIn {body : List Statement} {path : List String} {s : List String × Value} :
    s ∈ storesIn path body ↔ ∃ statement ∈ body, s ∈ statement.stores path := by
  induction body with
  | nil => exact iff_of_false List.not_mem_nil nofun
  | cons statement rest ih => rw [storesIn, List.mem_append, ih, List.exists_mem_cons_iff]

mutual

theorem Statement.path_stores : ∀ (statement : Statement) {path : List String}
    {s : List String × Value}, s ∈ statement.stores path →
      ∃ more, s.1 = path ++ statement.key :: more
  | .bind key value, path, s, member => by
    cases List.mem_singleton.1 member
    exact ⟨[], rfl⟩
  | .within key body, path, s, member => by
    rcases List.mem_cons.1 member with rfl | inside
    · exact ⟨[], rfl⟩
    · obtain ⟨inner, _, more, at_⟩ := path_storesIn body inside
      exact ⟨inner.key :: more, by rw [at_, List.append_assoc]; rfl⟩
  | .documentation text, path, s, member => by
    cases List.mem_singleton.1 member
    exact ⟨[], rfl⟩
  | .parameters .., _, _, member | .reference .., _, _, member => (List.not_mem_nil member).elim

/-- The path of what members store leads through the key of one of them. -/
theorem path_storesIn : ∀ (body : List Statement) {path : List String} {s : List String × Value},
    s ∈ storesIn path body → ∃ statement ∈ body, ∃ more, s.1 = path ++ statement.key :: more
  | [], _, _, member => (List.not_mem_nil member).elim
  | statement :: rest, path, s, member => by
    rcases List.mem_append.1 member with here | later
    · exact ⟨statement, List.mem_cons_self, statement.path_stores here⟩
    · obtain ⟨other, among, more, at_⟩ := path_storesIn rest later
      exact ⟨other, List.mem_cons_of_mem _ among, more, at_⟩

end

mutual

theorem Statement.nodup_stores : ∀ (statement : Statement) (path : List String), statement.Neat →
    ((statement.stores path).map Prod.fst).Nodup
  | .bind .., _, _ | .documentation _, _, _ => List.nodup_singleton _
  | .parameters .., _, _ | .reference .., _, _ => List.nodup_nil
  | .within key body, path, ⟨_, distinct, neats⟩ => by
    rw [Statement.stores, List.map_cons, List.nodup_cons]
    refine ⟨fun member => ?_, nodup_storesIn body (path ++ [key]) distinct neats⟩
    obtain ⟨s, inside, same⟩ := List.mem_map.1 member
    obtain ⟨_, _, more, at_⟩ := path_storesIn body inside
    rw [same] at at_
    simp at at_

/-- Different members store under different paths, and each of them does. -/
theorem nodup_storesIn : ∀ (body : List Statement) (path : List String),
    (body.map Statement.key).Nodup → Neats body → ((storesIn path body).map Prod.fst).Nodup
  | [], _, _, _ => List.nodup_nil
  | statement :: rest, path, distinct, ⟨neat, neats⟩ => by
    rw [List.map_cons, List.nodup_cons] at distinct
    rw [storesIn, List.map_append, List.nodup_append]
    refine ⟨statement.nodup_stores path neat, nodup_storesIn rest path distinct.2 neats, ?_⟩
    rintro _ here _ later rfl
    obtain ⟨s, stored, rfl⟩ := List.mem_map.1 here
    obtain ⟨s', stored', same⟩ := List.mem_map.1 later
    obtain ⟨more, first⟩ := statement.path_stores stored
    obtain ⟨other, among, more', second⟩ := path_storesIn rest stored'
    rw [same, first, List.append_cancel_left_eq, List.cons.injEq] at second
    exact distinct.1 (second.1 ▸ List.mem_map_of_mem among)

end

mutual

theorem Statement.plain_stores : ∀ (statement : Statement) {path : List String}, statement.Neat →
    (∀ key ∈ path, '.' ∉ key.toList) → ∀ s ∈ statement.stores path, ∀ key ∈ s.1, '.' ∉ key.toList
  | .bind key _, path, neat, plain, s, member => by
    cases List.mem_singleton.1 member
    exact List.forall_mem_append.2 ⟨plain, List.forall_mem_singleton.2 neat⟩
  | .within key body, path, ⟨neat, _, neats⟩, plain, s, member => by
    have here : ∀ key' ∈ path ++ [key], '.' ∉ key'.toList :=
      List.forall_mem_append.2 ⟨plain, List.forall_mem_singleton.2 neat⟩
    rcases List.mem_cons.1 member with rfl | inside
    · exact here
    · exact plain_storesIn body neats here s inside
  | .documentation _, path, _, plain, s, member => by
    cases List.mem_singleton.1 member
    exact List.forall_mem_append.2 ⟨plain, List.forall_mem_singleton.2 (by decide)⟩
  | .parameters .., _, _, _, _, member | .reference .., _, _, _, _, member =>
    (List.not_mem_nil member).elim

theorem plain_storesIn : ∀ (body : List Statement) {path : List String}, Neats body →
    (∀ key ∈ path, '.' ∉ key.toList) → ∀ s ∈ storesIn path body, ∀ key ∈ s.1, '.' ∉ key.toList
  | [], _, _, _, _, member => (List.not_mem_nil member).elim
  | statement :: rest, _, ⟨neat, neats⟩, plain, s, member => by
    rcases List.mem_append.1 member with here | later
    · exact statement.plain_stores neat plain s here
    · exact plain_storesIn rest neats plain s later

end

/-- An empty key at the front of a path is known if no key comes after it. -/
theorem cons_eq_of_visiblePart {key : String} {more : List String} (last : key = "" → more = []) :
    key :: more =
      if visiblePart (key :: more) = [] then [""] else visiblePart (key :: more) := by
  by_cases empty : key = ""
  · cases last empty
    rw [empty]
    rfl
  · rw [visiblePart, List.dropWhile_cons_of_neg (by simpa using empty), if_neg (List.cons_ne_nil _ _)]

/-- A path is known by the part that its name shows, unless an empty key of the outermost object opens
a scope. -/
theorem path_eq_of_visiblePart {body : List Statement}
    (closed : ∀ inner, Statement.within "" inner ∉ body) {s : List String × Value}
    (member : s ∈ storesIn [] body) :
    s.1 = if visiblePart s.1 = [] then [""] else visiblePart s.1 := by
  obtain ⟨statement, among, stored⟩ := mem_storesIn.1 member
  cases statement with
  | bind | documentation =>
    cases List.mem_singleton.1 stored
    exact cons_eq_of_visiblePart fun _ => rfl
  | within key inner =>
    obtain ⟨more, at_⟩ := (Statement.within key inner).path_stores stored
    have visible : key ≠ "" := by
      rintro rfl
      exact closed inner among
    rw [at_]
    exact cons_eq_of_visiblePart fun empty => absurd empty visible
  | parameters | reference => cases stored

/-- What a table holds for members without dots in their keys and without repeated keys. Names clash
just if paths differ by empty keys at their front, and what shares its name with nothing is there. So
nothing is lost unless an empty key of the outermost object has an object with members for a value. -/
structure Holds (body : List Statement) (table : SymbolTable) : Prop where
  paths : (pathsIn body).Nodup
  names : ∀ path ∈ pathsIn body, ∀ path' ∈ pathsIn body,
    nameOf path = nameOf path' ↔ visiblePart path = visiblePart path'
  alone : ∀ s ∈ storesIn [] body, (∀ path ∈ pathsIn body, nameOf path = nameOf s.1 → path = s.1) →
    table.find? (nameOf s.1) = some s.2
  all : (∀ inner, Statement.within "" inner ∉ body) → ((pathsIn body).map nameOf).Nodup ∧
    ∀ s ∈ storesIn [] body, table.find? (nameOf s.1) = some s.2

theorem holds_of_meaning {body : List Statement} (distinct : (body.map Statement.key).Nodup)
    (neats : Neats body) (meant : meaning body = .ok table) : Holds body table := by
  have paths : (pathsIn body).Nodup := nodup_storesIn body [] distinct neats
  have names : ∀ path ∈ pathsIn body, ∀ path' ∈ pathsIn body,
      nameOf path = nameOf path' ↔ visiblePart path = visiblePart path' := by
    intro path member path' member'
    obtain ⟨s, stored, rfl⟩ := List.mem_map.1 member
    obtain ⟨s', stored', rfl⟩ := List.mem_map.1 member'
    exact nameOf_inj (plain_storesIn body neats (List.forall_mem_nil _) s stored)
      (plain_storesIn body neats (List.forall_mem_nil _) s' stored')
  have alone : ∀ s ∈ storesIn [] body,
      (∀ path ∈ pathsIn body, nameOf path = nameOf s.1 → path = s.1) →
        table.find? (nameOf s.1) = some s.2 := by
    intro s stored only
    refine find?_meaning meant (latest_of_alone stored fun other listed named => ?_)
    exact List.inj_on_of_nodup_map paths listed stored (only _ (List.mem_map_of_mem listed) named)
  have apart : (∀ inner, Statement.within "" inner ∉ body) → ∀ path ∈ pathsIn body,
      ∀ path' ∈ pathsIn body, nameOf path = nameOf path' → path = path' := by
    intro closed path member path' member' same
    have same := (names path member path' member').1 same
    obtain ⟨s, stored, rfl⟩ := List.mem_map.1 member
    obtain ⟨s', stored', rfl⟩ := List.mem_map.1 member'
    rw [path_eq_of_visiblePart closed stored, same]
    exact (path_eq_of_visiblePart closed stored').symm
  exact ⟨paths, names, alone, fun closed => ⟨paths.map_on (apart closed), fun s stored =>
    alone s stored fun path member => apart closed path member _ (List.mem_map_of_mem stored)⟩⟩

theorem value_of_form? {l : Literal} {form : SpecialForm} (named : l.form? = some form) :
    l.value = "&" ++ form.name := by
  have spelled : ∀ {body name}, l.body = body → Json.readString (body ++ ['"']) = .ok (name, []) →
      l.value = name := by
    intro body name same read
    have own := l.readString_body []
    rw [same, read] at own
    cases own
    rfl
  unfold Literal.form? at named
  split at named
  · next body =>
    cases named
    exact spelled body (by decide +kernel)
  · split at named
    · next body =>
      cases named
      exact spelled body (by decide +kernel)
    · split at named
      · next body =>
        cases named
        exact spelled body (by decide +kernel)
      · cases named

theorem neat_pairStatement? {line : Option Nat} {key : Literal} {w : Written} {statement : Statement}
    (decoded : pairStatement? line key w = some statement) (plain : '.' ∉ key.value.toList) :
    statement.key = key.value ∧ statement.Neat := by
  unfold pairStatement? at decoded
  split at decoded
  · cases named : key.form? with
    | none =>
      rw [named] at decoded
      cases decoded
    | some form =>
      rw [named] at decoded
      rw [value_of_form? named]
      cases form
      all_goals
        obtain ⟨_, -, rfl⟩ := Option.map_eq_some_iff.1 decoded
        exact ⟨rfl, trivial⟩
  · obtain ⟨value, -, rfl⟩ := Option.map_eq_some_iff.1 decoded
    exact ⟨rfl, plain⟩

mutual

theorem neat_statement? : ∀ (w : Written) {lines : Lines} {depth : Nat} {place : Nat × Nat}
    {line : Option Nat} {key : Literal} {statement : Statement},
    w.statement? lines depth place line key = some statement → w.Distinct →
      '.' ∉ key.value.toList → (∀ e ∈ w.entries, '.' ∉ e.key.value.toList) →
        statement.key = key.value ∧ statement.Neat
  | .object gap (.cons lead key' before after value trail others), lines, depth, place, _, key,
      statement, decoded, distinct, plain, inside => by
    change (if isForm key.body = true then none
      else ((Members.cons lead key' before after value trail others).statements? lines true depth
        (advance place ('{' :: gap.1))).map _) = some statement at decoded
    split at decoded
    · cases decoded
    · obtain ⟨body, members, rfl⟩ := Option.map_eq_some_iff.1 decoded
      obtain ⟨keys, neats⟩ := neats_statements? _ members distinct.2 inside
      exact ⟨rfl, plain, keys ▸ distinct.1, neats⟩
  | .object _ .nil, _, _, _, _, _, _, decoded, _, plain, _
  | .array _ _, _, _, _, _, _, _, decoded, _, plain, _
  | .string _, _, _, _, _, _, _, decoded, _, plain, _
  | .number _, _, _, _, _, _, _, decoded, _, plain, _
  | .bool _, _, _, _, _, _, _, decoded, _, plain, _
  | .null, _, _, _, _, _, _, decoded, _, plain, _ => neat_pairStatement? decoded plain

/-- The statements of a text have its keys. -/
theorem neats_statements? : ∀ (members : Members) {lines : Lines} {first top : Bool} {depth : Nat}
    {place : Nat × Nat} {body : List Statement},
    members.statements? lines first depth place = some body → members.Distinct →
      (∀ e ∈ members.listed top, '.' ∉ e.key.value.toList) →
        body.map Statement.key = members.keys ∧ Neats body
  | .nil, _, _, _, _, _, _, decoded, _, _ => by
    cases decoded
    exact ⟨rfl, trivial⟩
  | .cons _ key _ _ value _ others, _, _, top, _, _, _, decoded, distinct, plain => by
    obtain ⟨⟨plainKey, inside⟩, later⟩ := (forall_listed top _ key _ _ value _ others).1 plain
    rw [Members.statements?] at decoded
    obtain ⟨statement, first, decoded⟩ := Option.bind_eq_some_iff.1 decoded
    obtain ⟨rest, behind, decoded⟩ := Option.bind_eq_some_iff.1 decoded
    cases decoded
    obtain ⟨here, neat⟩ := neat_statement? value first distinct.1 plainKey inside
    obtain ⟨keys, neats⟩ := neats_statements? others behind distinct.2 later
    exact ⟨by rw [List.map_cons, here, keys]; rfl, neat, neats⟩

end

variable {g : Attribution} {l : Language} {source : String} {outcome : Option Environment}

/-- The table of a compiled source holds what its members store. -/
theorem holds_of_compile (built : language = .ok l) (speaks : g.language = l)
    (scopes : StandardScope g) (done : compile source g = .ok outcome) :
    ∃ (lead trail gap : Blanks) (members : Members) (body : List Statement),
      source.toList = lead.1 ++ ((Written.object gap members).text ++ trail.1) ∧
        bodyOf members = some body ∧
          ((Written.object gap members).Distinct → members.Dotless →
            Holds body (symbolsIn outcome)) := by
  have standard : IsStandard g.language := speaks ▸ isStandard_of_language built
  obtain ⟨lead, gap, members, trail, spelled⟩ := spelled_of_compile standard done
  obtain ⟨body, decoded⟩ := Option.isSome_iff_exists.1 spelled.decoded
  refine ⟨lead, trail, gap, members, body, spelled.text, decoded, fun distinct plain => ?_⟩
  obtain ⟨keys, neats⟩ := neats_statements? members decoded distinct.2 plain
  exact holds_of_meaning (keys ▸ distinct.1) neats
    (spelled.meaning_eq standard scopes done decoded)

/-- An empty key inside another object opens a scope of its own. -/
theorem holds_of_compile_nested : ∃ l outcome, language = .ok l ∧ (tokenizerOf l).language = l ∧
    StandardScope (tokenizerOf l) ∧
      compile "\x7b\"a\":\x7b\"\":\x7b\"b\":true\x7d\x7d,\"\":false\x7d" (tokenizerOf l) = .ok outcome ∧
      ∃ (lead trail gap : Blanks) (members : Members) (body : List Statement),
        "\x7b\"a\":\x7b\"\":\x7b\"b\":true\x7d\x7d,\"\":false\x7d".toList =
            lead.1 ++ ((Written.object gap members).text ++ trail.1) ∧
          bodyOf members = some body ∧
            ((Written.object gap members).Distinct → members.Dotless →
              Holds body (symbolsIn outcome)) := by
  obtain ⟨l, built⟩ := exists_language
  have standard : IsStandard (tokenizerOf l).language := isStandard_of_language built
  have scopes := standardScope_tokenizerOf l
  let gap : Blanks := Json.noBlanks
  let a : Literal := ⟨[.plain 'a'], ['a'], rfl⟩
  let b : Literal := ⟨[.plain 'b'], ['b'], rfl⟩
  let empty : Literal := ⟨[], [], rfl⟩
  let members : Members := .cons gap a gap gap
    (.object gap (.cons gap empty gap gap
      (.object gap (.cons gap b gap gap (.bool true) gap .nil)) gap .nil)) gap
    (.cons gap empty gap gap (.bool false) gap .nil)
  have spelled : Spelled "\x7b\"a\":\x7b\"\":\x7b\"b\":true\x7d\x7d,\"\":false\x7d" gap gap members
      gap := ⟨by decide +kernel, rfl, by decide, by decide +kernel, rfl⟩
  obtain ⟨outcome, done⟩ := spelled.exists_outcome standard scopes rfl
    ⟨⟨⟨trivial, trivial⟩, trivial⟩, trivial, trivial⟩
  exact ⟨l, outcome, built, rfl, scopes, done, holds_of_compile built rfl scopes done⟩

/-- Under an empty key of the outermost object a bind takes the name of another one, and its value is
lost. -/
theorem clash_of_emptyKey : ∃ l outcome members body, language = .ok l ∧
    compile "\x7b\"\":\x7b\"a\":true\x7d,\"a\":false\x7d" (tokenizerOf l) = .ok outcome ∧
    "\x7b\"\":\x7b\"a\":true\x7d,\"a\":false\x7d".toList =
      (Written.object Json.noBlanks members).text ∧
    (Written.object Json.noBlanks members).Distinct ∧ members.Dotless ∧ bodyOf members = some body ∧
    storesIn [] body =
      [([""], .scope), (["", "a"], .boolean true), (["a"], .boolean false)] ∧
    nameOf ["", "a"] = nameOf ["a"] ∧ (symbolsIn outcome).names = ["", "a"] ∧
    (symbolsIn outcome).find? "a" = some (.boolean false) := by
  obtain ⟨l, built⟩ := exists_language
  have standard : IsStandard (tokenizerOf l).language := isStandard_of_language built
  have scopes := standardScope_tokenizerOf l
  let gap : Blanks := Json.noBlanks
  let a : Literal := ⟨[.plain 'a'], ['a'], rfl⟩
  let empty : Literal := ⟨[], [], rfl⟩
  let members : Members := .cons gap empty gap gap
    (.object gap (.cons gap a gap gap (.bool true) gap .nil)) gap
    (.cons gap a gap gap (.bool false) gap .nil)
  let body : List Statement := [.within "" [.bind "a" (.boolean true)], .bind "a" (.boolean false)]
  have spelled : Spelled "\x7b\"\":\x7b\"a\":true\x7d,\"a\":false\x7d" gap gap members gap :=
    ⟨by decide +kernel, rfl, by decide, by decide +kernel, rfl⟩
  have decoded : bodyOf members = some body := rfl
  obtain ⟨outcome, done⟩ := spelled.exists_outcome standard scopes decoded
    ⟨⟨trivial, trivial⟩, trivial, trivial⟩
  have meant := spelled.meaning_eq standard scopes done decoded
  have table : symbolsIn outcome =
      ((Table.insert ∅ "" .scope).insert "a" (.boolean true)).insert "a" (.boolean false) :=
    Except.ok.inj (meant.symm.trans rfl)
  have distinct : (Written.object gap members).Distinct :=
    ⟨by decide, ⟨by decide, trivial, trivial⟩, trivial, trivial⟩
  have dotless : members.Dotless := by
    rw [Json.Members.Dotless]
    decide
  refine ⟨l, outcome, members, body, built, done, by decide +kernel, distinct, dotless, decoded, rfl,
    by decide, ?_, ?_⟩
  · rw [table]
    decide
  · rw [table]
    rfl

end Procedure

end AttrGrammar
