import AttrGrammar.Procedure.Language
import AttrGrammar.Procedure.SyntaxTree
import AttrGrammar.Proofs.Parsing.Derivation

/-!
Programs as the tokens that they are parsed from.

A program is an object without members, or members in braces; a member is a first token, which is
its key or its form, a colon, and a value, which is one token or members in braces again. The tokens
of a program determine it.
-/

namespace AttrGrammar.Procedure

mutual

/-- A member of an object. -/
inductive Member where
  /-- A member whose value is one token. -/
  | plain (head colon value : Token)
  /-- A member whose value is an object with members. -/
  | nested (head colon opening : Token) (first : Member) (others : MemberTail) (closing : Token)

/-- The members after the first, each behind its divider. -/
inductive MemberTail where
  | nil
  | cons (divider : Token) (member : Member) (others : MemberTail)

end

inductive Program where
  | empty (token : Token)
  | members (opening : Token) (first : Member) (others : MemberTail) (closing : Token)

mutual

def Member.tokens : Member → List Token
  | .plain head colon value => [head, colon, value]
  | .nested head colon opening first others closing =>
    head :: colon :: opening :: (first.tokens ++ (others.tokens ++ [closing]))

def MemberTail.tokens : MemberTail → List Token
  | .nil => []
  | .cons divider member others => divider :: (member.tokens ++ others.tokens)

end

def Program.tokens : Program → List Token
  | .empty token => [token]
  | .members opening first others closing =>
    opening :: (first.tokens ++ (others.tokens ++ [closing]))

def isKey (name : String) : Bool :=
  [Construct.string.name, Construct.emptyString.name].contains name

def isLiteral (name : String) : Bool :=
  [Construct.string.name, Construct.emptyString.name, Construct.number.name,
    Construct.boolean.name, Construct.null.name].contains name

def isContainer (name : String) : Bool :=
  [Construct.array.name, Construct.emptyArray.name, Construct.emptyObject.name].contains name

def isArray (name : String) : Bool :=
  [Construct.array.name, Construct.emptyArray.name].contains name

/-- What kind of member a first token and a value of one token make, if any. -/
def pairOf? (head value : String) : Option Construct :=
  if isKey head then if isLiteral value || isContainer value then some .bind else none
  else if head = Construct.letForm.name then if isArray value then some .letMember else none
  else if value = Construct.string.name then
    if head = Construct.refForm.name then some .refMember
    else if head = Construct.docForm.name then some .docMember
    else none
  else none

mutual

/-- The names of the tokens are such that the parser accepts them. -/
def Member.WellFormed : Member → Prop
  | .plain head colon value =>
    colon.name = Construct.colon.name ∧ (pairOf? head.name value.name).isSome = true
  | .nested head colon opening first others closing =>
    isKey head.name = true ∧ colon.name = Construct.colon.name ∧
      opening.name = Construct.lbrace.name ∧ first.WellFormed ∧ others.WellFormed ∧
      closing.name = Construct.rbrace.name

def MemberTail.WellFormed : MemberTail → Prop
  | .nil => True
  | .cons divider member others =>
    divider.name = Construct.memberDivider.name ∧ member.WellFormed ∧ others.WellFormed

end

def Program.WellFormed : Program → Prop
  | .empty token => token.name = Construct.emptyObject.name
  | .members opening first others closing =>
    opening.name = Construct.lbrace.name ∧ first.WellFormed ∧ others.WellFormed ∧
      closing.name = Construct.rbrace.name

/-- The tokens that hold a program together. -/
def isPunctuation (name : String) : Bool := punctuation.contains name

mutual

/-- Punctuation stands where a program has it, and nowhere else. -/
def Member.Framed : Member → Prop
  | .plain head colon value =>
    isPunctuation head.name = false ∧ colon.name = Construct.colon.name ∧
      isPunctuation value.name = false
  | .nested head colon opening first others closing =>
    isPunctuation head.name = false ∧ colon.name = Construct.colon.name ∧
      opening.name = Construct.lbrace.name ∧ first.Framed ∧ others.Framed ∧
      closing.name = Construct.rbrace.name

def MemberTail.Framed : MemberTail → Prop
  | .nil => True
  | .cons divider member others =>
    divider.name = Construct.memberDivider.name ∧ member.Framed ∧ others.Framed

end

def Program.Framed : Program → Prop
  | .empty token => isPunctuation token.name = false
  | .members opening first others closing =>
    opening.name = Construct.lbrace.name ∧ first.Framed ∧ others.Framed ∧
      closing.name = Construct.rbrace.name

/-- Some tokens do not go on with another member. -/
def Ends (rest : List Token) : Prop :=
  ∀ token, rest.head? = some token → token.name ≠ Construct.memberDivider.name

theorem ends_closing {closing : Token} (named : closing.name = Construct.rbrace.name)
    (rest : List Token) : Ends ([closing] ++ rest) := by
  intro token head
  cases head
  rw [named]
  decide

mutual

/-- The tokens of a member tell what it is and where it ends. -/
theorem Member.eq_of_tokens : ∀ {m m' : Member} {xs ys : List Token}, m.Framed → m'.Framed →
    m.tokens ++ xs = m'.tokens ++ ys → m = m' ∧ xs = ys
  | .plain .., .plain .., _, _, _, _, same => by
    simp only [Member.tokens, List.cons_append, List.nil_append, List.cons.injEq] at same
    obtain ⟨rfl, rfl, rfl, rfl⟩ := same
    exact ⟨rfl, rfl⟩
  | .plain _ _ value, .nested _ _ opening .., _, _, framed, framed', same => by
    simp only [Member.tokens, List.cons_append, List.cons.injEq] at same
    obtain ⟨_, _, rfl, _⟩ := same
    have outside := framed.2.2
    rw [framed'.2.2.1] at outside
    exact absurd outside (by decide)
  | .nested _ _ opening .., .plain _ _ value, _, _, framed, framed', same => by
    simp only [Member.tokens, List.cons_append, List.cons.injEq] at same
    obtain ⟨_, _, rfl, _⟩ := same
    have outside := framed'.2.2
    rw [framed.2.2.1] at outside
    exact absurd outside (by decide)
  | .nested _ _ _ first others closing, .nested _ _ _ first' others' closing', xs, ys, framed,
      framed', same => by
    simp only [Member.tokens, List.cons_append, List.cons.injEq, List.append_assoc] at same
    obtain ⟨rfl, rfl, rfl, inside⟩ := same
    obtain ⟨_, _, _, framedFirst, framedOthers, closes⟩ := framed
    obtain ⟨_, _, _, framedFirst', framedOthers', closes'⟩ := framed'
    obtain ⟨rfl, after⟩ := Member.eq_of_tokens framedFirst framedFirst' inside
    obtain ⟨rfl, last⟩ := MemberTail.eq_of_tokens framedOthers framedOthers'
      (ends_closing closes xs) (ends_closing closes' ys) after
    obtain ⟨rfl, rfl⟩ := List.cons.inj last
    exact ⟨rfl, rfl⟩

/-- So do the tokens of the members after the first. -/
theorem MemberTail.eq_of_tokens : ∀ {t t' : MemberTail} {xs ys : List Token}, t.Framed →
    t'.Framed → Ends xs → Ends ys → t.tokens ++ xs = t'.tokens ++ ys → t = t' ∧ xs = ys
  | .nil, .nil, _, _, _, _, _, _, same => ⟨rfl, same⟩
  | .nil, .cons divider .., _, _, _, framed', ends, _, same => by
    simp only [MemberTail.tokens, List.nil_append, List.cons_append] at same
    subst same
    exact absurd framed'.1 (ends divider rfl)
  | .cons divider .., .nil, _, _, framed, _, _, ends', same => by
    simp only [MemberTail.tokens, List.nil_append, List.cons_append] at same
    subst same
    exact absurd framed.1 (ends' divider rfl)
  | .cons _ m others, .cons _ m' others', _, _, framed, framed', ends, ends', same => by
    simp only [MemberTail.tokens, List.cons_append, List.cons.injEq, List.append_assoc] at same
    obtain ⟨rfl, inside⟩ := same
    obtain ⟨rfl, after⟩ := Member.eq_of_tokens framed.2.1 framed'.2.1 inside
    obtain ⟨rfl, rfl⟩ := MemberTail.eq_of_tokens framed.2.2 framed'.2.2 ends ends' after
    exact ⟨rfl, rfl⟩

end

/-- The tokens of a program determine it. -/
theorem Program.eq_of_tokens {o o' : Program} (framed : o.Framed) (framed' : o'.Framed)
    (same : o.tokens = o'.tokens) : o = o' := by
  cases o with
  | empty token =>
    cases o' with
    | empty token' =>
      cases same
      rfl
    | members opening first others closing =>
      obtain ⟨rfl, rest⟩ := List.cons.inj same
      have ends := congrArg List.length rest
      simp at ends
  | members opening first others closing =>
    cases o' with
    | empty token' =>
      obtain ⟨rfl, rest⟩ := List.cons.inj same
      have ends := congrArg List.length rest
      simp at ends
    | members opening' first' others' closing' =>
      obtain ⟨rfl, inside⟩ := List.cons.inj same
      obtain ⟨_, framedFirst, framedOthers, closes⟩ := framed
      obtain ⟨_, framedFirst', framedOthers', closes'⟩ := framed'
      obtain ⟨rfl, after⟩ := Member.eq_of_tokens framedFirst framedFirst' inside
      obtain ⟨rfl, last⟩ := MemberTail.eq_of_tokens framedOthers framedOthers'
        (ends_closing closes []) (ends_closing closes' []) after
      cases last
      rfl

/-- The kind of a leaf: tokens that folding makes are known by their names only. -/
def leafKind (name : String) : RuleKind :=
  if (folded.map Construct.name).contains name then .attrTerminal else .terminal

def leaf (token : Token) : Forest Label := .tree (.ofToken token (leafKind token.name)) .nil

/-- A node with one child for an alternation. -/
def choiceOf (name : String) (child : Forest Label) : Forest Label :=
  .tree (.inner name .alternation) child

/-- The first part of a member. -/
def headForest (pair : Construct) (head : Token) : Forest Label :=
  if pair = .bind then choiceOf "key" (leaf head) else leaf head

/-- The value of a member, when it is one token. -/
def valueForest (pair : Construct) (value : Token) : Forest Label :=
  match pair with
  | .bind =>
    choiceOf "value" (if isLiteral value.name then choiceOf "literal" (leaf value) else leaf value)
  | .letMember => choiceOf "params" (leaf value)
  | _ => leaf value

/-- A member in its two nodes, from its parts. -/
def pairForest (pair : Construct) (head : Forest Label) (colon : Token) (value : Forest Label) :
    Forest Label :=
  choiceOf Construct.member.name
    (.tree (.inner pair.name .attrProduction) (head ++ (leaf colon ++ value)))

/-- Members in braces. -/
def bracedForest (c : Construct) (opening : Token) (members : Forest Label) (closing : Token) :
    Forest Label :=
  .tree (.inner c.name .attrProduction)
    (leaf opening ++ (.tree (.inner Construct.members.name .concatenation) members ++ leaf closing))

mutual

def Member.forest : Member → Forest Label
  | .plain head colon value =>
    let pair := (pairOf? head.name value.name).getD .bind
    pairForest pair (headForest pair head) colon (valueForest pair value)
  | .nested head colon opening first others closing =>
    pairForest .bind (headForest .bind head) colon
      (choiceOf "value" (bracedForest .object opening
        (first.forest ++ .tree (.inner Construct.memberTail.name .repetition) others.forest)
        closing))

def MemberTail.forest : MemberTail → Forest Label
  | .nil => .nil
  | .cons divider member others =>
    .node (.inner Construct.nextMember.name .concatenation) (leaf divider ++ member.forest)
      others.forest

end

/-- All members of an object, under its node for them. -/
def membersForest (first : Member) (others : MemberTail) : Forest Label :=
  first.forest ++ .tree (.inner Construct.memberTail.name .repetition) others.forest

def Program.forest : Program → Forest Label
  | .empty token => choiceOf Construct.document.name (leaf token)
  | .members opening first others closing =>
    choiceOf Construct.document.name
      (bracedForest .program opening (membersForest first others) closing)

end AttrGrammar.Procedure
