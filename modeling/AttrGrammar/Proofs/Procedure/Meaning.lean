import AttrGrammar.Procedure.Symbols

/-!
What a program means: one recursion over its members in the order of the source.

A statement is a member that has been decoded. A bind puts its value in under its name; if the value
is an object with members, these come next, one scope further in. The passes over trees come to the
same table, and stop at the same fault.
-/

namespace AttrGrammar.Procedure

/-- A decoded member. -/
inductive Statement where
  /-- A bind to a value without members. -/
  | bind (key : String) (value : Value)
  /-- A bind to an object with members. -/
  | within (key : String) (body : List Statement)
  /-- `&let` at a line, with the items of its list. -/
  | parameters (line : Option Nat) (items : List Value)
  | reference (line : Option Nat) (target : String)
  | documentation (text : String)
  deriving Inhabited

/-- The target of a reference. -/
def Statement.target? : Statement → Option String
  | .reference _ target => some target
  | _ => none

/-- What an object with members is bound as: its first reference decides. -/
def valueOfBody (body : List Statement) : Value :=
  match body.findSome? Statement.target? with
  | some target => .variableRef target
  | none => .scope

/-- Adds parameters that the table does not have yet. -/
def addParameters (scope : String) (line : Option Nat) (table : SymbolTable) :
    List Value → Except SemanticError SymbolTable
  | [] => .ok table
  | .string name :: rest =>
    let table := if table.contains (join scope name) then table
      else table.insert (join scope name) .unbound
    addParameters scope line table rest
  | other :: _ => .error (.invalidParameter other.kindName line)

mutual

/-- Processes one member in a scope. `top` tells whether it is a member of the outermost object. -/
def Statement.run (top : Bool) (scope : String) (table : SymbolTable) :
    Statement → Except SemanticError SymbolTable
  | .bind key value => .ok (table.insert (join scope key) value)
  | .within key body =>
    runBody false (join scope key) (table.insert (join scope key) (valueOfBody body)) body
  | .parameters line items => addParameters scope line table items
  | .documentation text => .ok (table.insert (join scope "&doc") (.procedure .docForm [.string text]))
  | .reference line _ =>
    if top then .error (.misplacedSpecialForm .refForm line) else .ok table

/-- Processes members one after the other. -/
def runBody (top : Bool) (scope : String) (table : SymbolTable) :
    List Statement → Except SemanticError SymbolTable
  | [] => .ok table
  | statement :: rest => do runBody top scope (← statement.run top scope table) rest

end

/-- What a program means. -/
def meaning (body : List Statement) : Except SemanticError SymbolTable := runBody true "" ∅ body

theorem runBody_append (top : Bool) (scope : String) (table : SymbolTable)
    (first second : List Statement) :
    runBody top scope table (first ++ second) =
      runBody top scope table first >>= fun table => runBody top scope table second := by
  induction first generalizing table with
  | nil => rfl
  | cons statement rest ih =>
    rw [List.cons_append, runBody, runBody]
    cases statement.run top scope table with
    | error e => rfl
    | ok table => exact ih table

theorem runBody_single (top : Bool) (scope : String) (table : SymbolTable) (statement : Statement) :
    runBody top scope table [statement] = statement.run top scope table := by
  rw [runBody]
  cases statement.run top scope table <;> rfl

theorem registerParams_eq (scope : String) (line : Option Nat) (items : List Value)
    (table : SymbolTable) :
    registerParams scope line items table = addParameters scope line table items := by
  induction items generalizing table with
  | nil => rfl
  | cons item rest ih =>
    cases item with
    | string name => rw [registerParams, addParameters, ih]; rfl
    | _ => rfl

/-- Names with their values, in the order in which the names were first met. -/
abbrev Bound := List (String × Value)

/-- Gives a name a value: where it stands if it is known, else at the end. -/
def Bound.bind (name : String) (value : Value) (bound : Bound) : Bound :=
  if bound.any (·.1 = name) then bound.map fun e => if e.1 = name then (name, value) else e
  else bound ++ [(name, value)]

/-- Adds parameters in their order; a name that is known keeps its value. -/
def bindParameters (scope : String) (line : Option Nat) (bound : Bound) :
    List Value → Except SemanticError Bound
  | [] => .ok bound
  | .string name :: rest =>
    bindParameters scope line
      (if bound.any (·.1 = join scope name) then bound else bound.bind (join scope name) .unbound)
      rest
  | other :: _ => .error (.invalidParameter other.kindName line)

mutual

/-- What is bound after a member in a scope. `top` tells whether it is a member of the outermost
object. -/
def Statement.binds (top : Bool) (scope : String) (bound : Bound) :
    Statement → Except SemanticError Bound
  | .bind key value => .ok (bound.bind (join scope key) value)
  | .within key body =>
    bindsAll false (join scope key) (bound.bind (join scope key) (valueOfBody body)) body
  | .parameters line items => bindParameters scope line bound items
  | .documentation text => .ok (bound.bind (join scope "&doc") (.procedure .docForm [.string text]))
  | .reference line _ =>
    if top then .error (.misplacedSpecialForm .refForm line) else .ok bound

def bindsAll (top : Bool) (scope : String) (bound : Bound) :
    List Statement → Except SemanticError Bound
  | [] => .ok bound
  | statement :: rest => do bindsAll top scope (← statement.binds top scope bound) rest

end

theorem putEntry_eq_bind {name : String} {value : Value} : ∀ {bound : Bound},
    (bound.map Prod.fst).Nodup → putEntry name value bound = bound.bind name value
  | [], _ => rfl
  | (other, old) :: rest, distinct => by
    obtain ⟨new, distinct⟩ := List.nodup_cons.1 distinct
    unfold putEntry Bound.bind
    by_cases same : other = name
    · subst same
      -- No later entry has the name, so only the first one is changed.
      have kept : rest.map (fun e => if e.1 = other then (other, value) else e) = rest :=
        (List.map_congr_left fun e member =>
          if_neg fun named => new (List.mem_map.2 ⟨e, member, named⟩)).trans
          (List.map_id' rest)
      simp [kept]
    · rw [putEntry_eq_bind distinct, Bound.bind]
      simp only [List.any_cons, same, decide_false, Bool.false_or, List.map_cons, if_false]
      split <;> rfl

theorem entries_insert (table : SymbolTable) (name : String) (value : Value) :
    (table.insert name value).entries = Bound.bind name value table.entries :=
  putEntry_eq_bind table.distinct

theorem contains_eq_any (table : SymbolTable) (name : String) :
    table.contains name = table.entries.any (·.1 = name) := by
  rw [Bool.eq_iff_iff, Table.contains, Table.names, List.contains_iff_mem, List.mem_map,
    List.any_eq_true]
  simp only [decide_eq_true_eq]

/-- The table of the parameters of a list has what they bind. -/
theorem entries_addParameters (scope : String) (line : Option Nat) (items : List Value)
    (table : SymbolTable) :
    (addParameters scope line table items).map Table.entries =
      bindParameters scope line table.entries items := by
  induction items generalizing table with
  | nil => rfl
  | cons item rest ih =>
    cases item with
    | string name =>
      rw [addParameters, bindParameters, ih, ← contains_eq_any]
      split
      · rfl
      · rw [entries_insert]
    | _ => rfl

mutual

/-- Processing a member puts into the table what the member binds. -/
theorem Statement.entries_run : ∀ (statement : Statement) (top : Bool) (scope : String)
    (table : SymbolTable),
    (statement.run top scope table).map Table.entries = statement.binds top scope table.entries
  | .bind key value, _, scope, table => congrArg Except.ok (entries_insert table (join scope key) value)
  | .within key body, _, scope, table => by
    rw [Statement.run, Statement.binds, entries_runBody body, entries_insert]
  | .parameters line items, _, scope, table => entries_addParameters scope line items table
  | .documentation _, _, scope, table => congrArg Except.ok (entries_insert table (join scope "&doc") _)
  | .reference line _, top, _, table => by cases top <;> rfl

theorem entries_runBody : ∀ (body : List Statement) (top : Bool) (scope : String)
    (table : SymbolTable),
    (runBody top scope table body).map Table.entries = bindsAll top scope table.entries body
  | [], _, _, _ => rfl
  | statement :: rest, top, scope, table => by
    rw [runBody, bindsAll, ← statement.entries_run]
    cases statement.run top scope table with
    | error e => rfl
    | ok table' => exact entries_runBody rest top scope table'

end

mutual

/-- What a member must be like: parameters are strings, and there is no reference at the top. -/
def Statement.Sound (top : Bool) : Statement → Prop
  | .bind .. | .documentation _ => True
  | .within _ body => Sounds false body
  | .parameters _ items => ∀ item ∈ items, item.string?.isSome = true
  | .reference .. => top = false

def Sounds (top : Bool) : List Statement → Prop
  | [] => True
  | statement :: rest => statement.Sound top ∧ Sounds top rest

end

/-- The faults that processing members can stop at. -/
def SemanticError.IsMisuse : SemanticError → Prop
  | .invalidParameter .. | .misplacedSpecialForm .. => True
  | _ => False

theorem addParameters_cases (scope : String) (line : Option Nat) (table : SymbolTable)
    (items : List Value) :
    (∃ table', addParameters scope line table items = .ok table') ∧
        (∀ item ∈ items, item.string?.isSome = true) ∨
      (∃ e, addParameters scope line table items = .error e ∧ e.IsMisuse) ∧
        ¬ ∀ item ∈ items, item.string?.isSome = true := by
  induction items generalizing table with
  | nil => exact Or.inl ⟨⟨table, rfl⟩, nofun⟩
  | cons item rest ih =>
    by_cases text : ∃ name, item = .string name
    · obtain ⟨name, rfl⟩ := text
      simp only [addParameters, List.mem_cons, forall_eq_or_imp]
      rcases ih (if table.contains (join scope name) then table
        else table.insert (join scope name) .unbound) with ⟨done, strings⟩ | ⟨stopped, other⟩
      · exact Or.inl ⟨done, rfl, strings⟩
      · exact Or.inr ⟨stopped, fun both => other both.2⟩
    · refine Or.inr ⟨⟨.invalidParameter item.kindName line, ?_, trivial⟩, fun strings => ?_⟩
      · cases item with
        | string name => exact absurd ⟨name, rfl⟩ text
        | _ => rfl
      · have first := strings item List.mem_cons_self
        cases item with
        | string name => exact text ⟨name, rfl⟩
        | _ => cases first

mutual

/-- A member is processed, or it is misused. -/
theorem Statement.run_cases : ∀ (statement : Statement) (top : Bool) (scope : String)
    (table : SymbolTable),
    (∃ table', statement.run top scope table = .ok table') ∧ statement.Sound top ∨
      (∃ e, statement.run top scope table = .error e ∧ e.IsMisuse) ∧ ¬ statement.Sound top
  | .bind .., _, _, _ => Or.inl ⟨⟨_, rfl⟩, trivial⟩
  | .documentation _, _, _, _ => Or.inl ⟨⟨_, rfl⟩, trivial⟩
  | .within key body, top, scope, table => by
    rw [Statement.run, Statement.Sound]
    exact runBody_cases body false _ _
  | .parameters line items, _, scope, table => addParameters_cases scope line table items
  | .reference line _, top, _, table => by
    cases top with
    | false => exact Or.inl ⟨⟨table, rfl⟩, rfl⟩
    | true => exact Or.inr ⟨⟨_, rfl, trivial⟩, nofun⟩

theorem runBody_cases : ∀ (body : List Statement) (top : Bool) (scope : String)
    (table : SymbolTable),
    (∃ table', runBody top scope table body = .ok table') ∧ Sounds top body ∨
      (∃ e, runBody top scope table body = .error e ∧ e.IsMisuse) ∧ ¬ Sounds top body
  | [], _, _, table => Or.inl ⟨⟨table, rfl⟩, trivial⟩
  | statement :: rest, top, scope, table => by
    rw [runBody, Sounds]
    rcases statement.run_cases top scope table with ⟨⟨table', done⟩, sound⟩ | ⟨⟨e, stopped, misuse⟩, not⟩
    · rw [done]
      rcases runBody_cases rest top scope table' with ⟨all, sounds⟩ | ⟨fault, not⟩
      · exact Or.inl ⟨all, sound, sounds⟩
      · exact Or.inr ⟨fault, fun both => not both.2⟩
    · rw [stopped]
      exact Or.inr ⟨⟨e, rfl, misuse⟩, fun both => not both.1⟩

end

end AttrGrammar.Procedure
