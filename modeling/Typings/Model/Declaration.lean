import Typings.Model.Type

namespace Typings

inductive MemberKind
  | field | method
deriving DecidableEq, Repr, Inhabited

inductive Arity
  /-- A field, or the only match. -/
  | single
  | list
  /-- The match at an index. -/
  | indexed
deriving DecidableEq, Repr, Inhabited

structure Parameter where
  name : String
  ty : TypeRef
  optional : Bool := false
deriving DecidableEq, Repr, Inhabited

/-- `name extends bound` -/
structure TypeParam where
  name : String
  bound : String
deriving DecidableEq, Repr, Inhabited

/-- A member as it was found; a field may have no type yet. -/
structure RawMember where
  name : String
  kind : MemberKind := .field
  arity : Arity := .single
  params : List Parameter := []
  ty : Option TypeRef := none
  typeParam : Option TypeParam := none
  isStatic : Bool := false
deriving DecidableEq, Repr, Inhabited

structure Member where
  name : String
  kind : MemberKind
  arity : Arity
  params : List Parameter
  ty : TypeRef
  typeParam : Option TypeParam
  isStatic : Bool
deriving DecidableEq, Repr, Inhabited

inductive DeclarationKind
  | lexer | parser
  | context
  | label
  | listener | visitor
deriving DecidableEq, Repr, Inhabited

/-- All about a class but its members. -/
structure ClassHeader where
  name : String
  superclass : Option String := none
  kind : DeclarationKind := .context
  rule : Option String := none
  /-- Whether labels extend this class. -/
  polymorphic : Bool := false
deriving DecidableEq, Repr, Inhabited

/-- A class as it was looked at, its members in the order they were found. -/
structure FoundClass extends ClassHeader where
  members : List RawMember
deriving DecidableEq, Repr, Inhabited

structure Declaration extends ClassHeader where
  /-- Fields first, then methods. -/
  members : List Member
deriving DecidableEq, Repr, Inhabited

structure Unresolved where
  className : String
  field : String
deriving DecidableEq, Repr, Inhabited

namespace Declaration

def fields (d : Declaration) : List Member := d.members.filter (·.kind = .field)

def methods (d : Declaration) : List Member := d.members.filter (·.kind = .method)

def membersNamed (d : Declaration) (name : String) : List Member := d.members.filter (·.name = name)

end Declaration

namespace RawMember

def staticNumber (name : String) : RawMember := { name, ty := some .number, isStatic := true }

def method (name : String) (params : List Parameter) (ty : TypeRef) : RawMember :=
  { name, kind := .method, params, ty := some ty }

/-- A member whose type was not found out has the type `unknown`. -/
def toMember (m : RawMember) : Member :=
  { name := m.name, kind := m.kind, arity := m.arity, params := m.params
    ty := m.ty.getD .unknown, typeParam := m.typeParam, isStatic := m.isStatic }

/-- What is reported of a member: a field that has no type, and parameters of unknown types. -/
def unresolved (className : String) (m : RawMember) : List Unresolved :=
  (if m.kind = .field ∧ m.toMember.ty.isUnknown then [⟨className, m.name⟩] else []) ++
    (m.params.filter (·.ty.isUnknown)).map fun p => ⟨className, m.name ++ "(" ++ p.name ++ ")"⟩

/-- Whether a member may stand before another: a field before all, a method before methods. -/
def mayPrecede (a b : RawMember) : Bool := a.kind = .field || b.kind = .method

end RawMember

/-- The declaration of a class, and its places whose types were not found out. -/
def FoundClass.assemble (c : FoundClass) : Declaration × List Unresolved :=
  let members := c.members.mergeSort RawMember.mayPrecede
  ({ c with members := members.map (·.toMember) }, members.flatMap (·.unresolved c.name))

/-- The parser class and all context classes, those of rules before labels. -/
structure ParserModel where
  parser : Declaration
  contexts : List Declaration
deriving DecidableEq, Repr, Inhabited

def ParserModel.context? (p : ParserModel) (name : String) : Option Declaration :=
  p.contexts.find? (·.name = name)

structure GrammarModel where
  grammar : String
  ruleNames : List String := []
  symbolicNames : List String := []
  lexer : Option Declaration := none
  parser : Option ParserModel := none
  listener : Option Declaration := none
  visitor : Option Declaration := none
  unresolved : List Unresolved := []
deriving DecidableEq, Repr, Inhabited

/-- Lexer, parser, contexts, listener, visitor. -/
def GrammarModel.declarations (g : GrammarModel) : List Declaration :=
  g.lexer.toList ++ (g.parser.toList.flatMap fun p => p.parser :: p.contexts) ++
    g.listener.toList ++ g.visitor.toList

end Typings
