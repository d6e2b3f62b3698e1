import Typings.Syntax.Operator

namespace Typings

mutual

inductive Expr
  | number (value : Float) (span : Span)
  | string (value : String) (span : Span)
  | template (parts : List TemplateElement) (span : Span)
  | boolean (value : Bool) (span : Span)
  | null (span : Span)
  | identifier (name : String) (span : Span)
  | this (span : Span)
  | array (elements : List ArrayElement) (span : Span)
  | object (properties : List ObjectProperty) (span : Span)
  | function (body : FunctionDef)
  | classOf (body : ClassDef)
  | member (object : Expr) (property : String) (optional : Bool) (span : Span)
  | index (object : Expr) (index : Expr) (optional : Bool) (span : Span)
  | call (callee : Expr) (arguments : List Argument) (optional : Bool) (span : Span)
  | new (callee : Expr) (arguments : List Argument) (span : Span)
  | superCall (arguments : List Argument) (span : Span)
  | superMember (property : String) (span : Span)
  | unary (op : UnaryOp) (operand : Expr) (span : Span)
  /-- `before` tells whether the operator stands before its target. -/
  | update (op : UpdateOp) (before : Bool) (target : Expr) (span : Span)
  | binary (op : BinaryOp) (left right : Expr) (span : Span)
  | logical (op : LogicalOp) (left right : Expr) (span : Span)
  | conditional (test consequent alternate : Expr) (span : Span)
  | assign (op : AssignOp) (target value : Expr) (span : Span)
  | sequence (expressions : List Expr) (span : Span)

inductive TemplateElement
  | text (cooked : String)
  | value (e : Expr)

inductive ArrayElement
  | value (e : Expr)
  | spread (e : Expr)
  | hole

inductive PropertyKey
  | named (name : String)
  | computed (e : Expr)

inductive ObjectProperty
  | value (key : PropertyKey) (e : Expr)
  | getter (key : PropertyKey) (body : FunctionDef)
  | setter (key : PropertyKey) (body : FunctionDef)
  | spread (e : Expr)

inductive Argument
  | value (e : Expr)
  | spread (e : Expr)

/-- A parameter: a name, perhaps with a default, or the rest of the arguments. -/
structure Param where
  name : String
  default? : Option Expr
  rest : Bool

inductive FunctionBody
  /-- The tokens between the braces, and the index of the opening one in the list that was read. -/
  | block (tokens : List (Token × Span)) (opening : Nat)
  | concise (e : Expr)

structure FunctionDef where
  name : Option String
  params : List Param
  body : FunctionBody
  isArrow : Bool
  span : Span

structure ClassDef where
  name : Option String
  superclass : Option Expr
  constructor? : Option FunctionDef
  members : List ClassMember
  span : Span

structure ClassMember where
  name : String
  isStatic : Bool
  kind : MemberForm

inductive MemberForm
  | method (body : FunctionDef)
  | getter (body : FunctionDef)
  | setter (body : FunctionDef)
  | field (init : Option Expr)

end

instance : Inhabited Expr := ⟨.null default⟩

instance : Inhabited ClassDef := ⟨⟨none, none, none, [], default⟩⟩

namespace Expr

def span : Expr → Span
  | number _ s | string _ s | template _ s | boolean _ s | null s | identifier _ s | this s
  | array _ s | object _ s | member _ _ _ s | index _ _ _ s | call _ _ _ s | new _ _ s
  | superCall _ s | superMember _ s | unary _ _ s | update _ _ _ s | binary _ _ _ s
  | logical _ _ _ s | conditional _ _ _ s | assign _ _ _ s | sequence _ s => s
  | function f => f.span
  | classOf c => c.span

def isAssignable : Expr → Bool
  | identifier .. => true
  | member _ _ optional _ => !optional
  | index _ _ optional _ => !optional
  | superMember .. => true
  | _ => false

end Expr

/-- Parameters before the first that has a default or takes the rest. -/
def FunctionDef.arity (f : FunctionDef) : Nat :=
  (f.params.takeWhile fun p => p.default?.isNone && !p.rest).length

def PropertyKey.name? : PropertyKey → Option String
  | named n => some n
  | computed _ => none

inductive VariableKind
  | var | lexical | constant
deriving DecidableEq, Repr, Inhabited

inductive Statement
  | declaration (kind : VariableKind) (declarations : List (String × Option Expr)) (span : Span)
  | function (body : FunctionDef)
  | classOf (body : ClassDef)
  | expression (e : Expr) (span : Span)
  | returns (value : Option Expr) (span : Span)
  | branch (condition : Expr) (consequent : Statement) (alternate : Option Statement) (span : Span)
  | block (statements : List Statement) (span : Span)
  | throws (value : Expr) (span : Span)
  | empty (span : Span)
  /-- A construct that is read over and cannot be run. -/
  | unsupported (construct : String) (span : Span)

instance : Inhabited Statement := ⟨.empty default⟩

def Statement.span : Statement → Span
  | declaration _ _ s | expression _ s | returns _ s | branch _ _ _ s | block _ s | throws _ s | empty s
  | unsupported _ s => s
  | function f => f.span
  | classOf c => c.span

structure ImportDecl where
  specifier : String
  default? : Option String
  whole? : Option String
  named : List (String × String)
  span : Span
deriving Inhabited

inductive DefaultExport
  | classOf (body : ClassDef)
  | function (body : FunctionDef)
  | expression (e : Expr)

inductive ModuleItem
  | importDecl (decl : ImportDecl)
  | exportDefault (value : DefaultExport) (span : Span)
  | exportDeclaration (statement : Statement)
  /-- Local name and exported name of each specifier. -/
  | exportNamed (specifiers : List (String × String)) (span : Span)
  | statement (s : Statement)

structure Module where
  items : List ModuleItem
  span : Span

instance : Inhabited Module := ⟨⟨[], default⟩⟩

def Module.imports (m : Module) : List ImportDecl :=
  m.items.filterMap fun
    | .importDecl d => some d
    | _ => none

end Typings
