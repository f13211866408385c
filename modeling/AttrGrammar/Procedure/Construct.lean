/-! The rules of the procedure language that passes over its trees ask for by name. -/

namespace AttrGrammar.Procedure

inductive Construct where
  | document
  | program
  | object
  | members
  | memberTail
  | nextMember
  | member
  | bind
  | letMember
  | refMember
  | docMember
  | lbrace
  | rbrace
  | colon
  | memberDivider
  | itemDivider
  | string
  | emptyString
  | number
  | boolean
  | null
  | array
  | emptyArray
  | emptyObject
  | letForm
  | refForm
  | docForm
  | unknownForm
  deriving DecidableEq, Repr, Inhabited

namespace Construct

def all : List Construct := [
  document, program, object, members, memberTail, nextMember, member, bind, letMember, refMember,
  docMember, lbrace, rbrace, colon, memberDivider, itemDivider, string, emptyString, number,
  boolean, null, array, emptyArray, emptyObject, letForm, refForm, docForm, unknownForm]

def name : Construct → String
  | document => "document"
  | program => "program"
  | object => "object"
  | members => "members"
  | memberTail => "member_tail"
  | nextMember => "next_member"
  | member => "member"
  | bind => "bind"
  | letMember => "let_member"
  | refMember => "ref_member"
  | docMember => "doc_member"
  | lbrace => "lbrace"
  | rbrace => "rbrace"
  | colon => "colon"
  | memberDivider => "member_divider"
  | itemDivider => "item_divider"
  | string => "string"
  | emptyString => "empty_string"
  | number => "number"
  | boolean => "boolean"
  | null => "null"
  | array => "array"
  | emptyArray => "empty_array"
  | emptyObject => "empty_object"
  | letForm => "let_form"
  | refForm => "ref_form"
  | docForm => "doc_form"
  | unknownForm => "unknown_form"

def ofName? (name : String) : Option Construct := all.find? (·.name == name)

theorem mem_all (s : Construct) : s ∈ all := by cases s <;> decide

theorem ofName?_name (s : Construct) : ofName? s.name = some s := by cases s <;> decide

end Construct

end AttrGrammar.Procedure
