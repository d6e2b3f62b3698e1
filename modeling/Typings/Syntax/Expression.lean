import Typings.Syntax.Cursor

namespace Typings

structure Grammar where
  expression : Parse Expr
  assignment : Parse Expr
  /-- Operators that bind tighter than a precedence. -/
  infixes : Nat → Parse Expr
  unary : Parse Expr
  instantiation : Parse Expr
  leftHandSide : Parse Expr
  statement : Parse Statement
  /-- The expression that a whole list of tokens is. -/
  whole : List Lexeme → Except ParseError Expr

namespace Grammar

def exhausted : Grammar where
  expression := do Parse.fail .exhausted (← Parse.here)
  assignment := do Parse.fail .exhausted (← Parse.here)
  infixes _ := do Parse.fail .exhausted (← Parse.here)
  unary := do Parse.fail .exhausted (← Parse.here)
  instantiation := do Parse.fail .exhausted (← Parse.here)
  leftHandSide := do Parse.fail .exhausted (← Parse.here)
  statement := do Parse.fail .exhausted (← Parse.here)
  whole _ := .error ⟨.exhausted, default⟩

open Parse

def initializer (g : Grammar) : Parse (Option Expr) := do
  if ← eat .equal then some <$> g.assignment else pure none

def param (g : Grammar) : Parse Param := do
  let rest ← eat .dotDotDot
  let c ← get
  if c.token.isPunct .leftBrace || c.token.isPunct .leftBracket then
    invalid "destructuring parameters are not supported" c.span
  let n ← name
  let init ← if rest then pure none else initializer g
  comma .rightParen
  return ⟨n, init, rest⟩

def params (g : Grammar) : Parse (List Param) := do
  expect .leftParen
  itemsUntil .rightParen (param g)

/-- Parameters and body of a function or method whose head began at `start`. -/
def functionTail (g : Grammar) (name : Option String) (start : Span) : Parse FunctionDef := do
  let ps ← params g
  let b ← body
  return ⟨name, ps, b, false, start.through (← previous)⟩

def function (g : Grammar) : Parse FunctionDef := do
  let start ← here
  expectKeyword .kwFunction
  if ← atPunct .star then invalid "generator functions are not supported" (← here)
  let n ← name?
  functionTail g n start

def atArrow (c : Cursor) : Bool :=
  match c.token with
  | .identifier _ => (c.peek 1).isPunct .arrow
  | .punct .leftParen =>
    match c.matchingParen? with
    | some i => (c.tokenAt (i + 1)).isPunct .arrow
    | none => false
  | _ => false

def arrowParams (g : Grammar) : Parse (List Param) := do
  match ← name? with
  | some n => pure [⟨n, none, false⟩]
  | none => params g

def arrowBody (g : Grammar) : Parse FunctionBody := do
  if ← atPunct .leftBrace then body
  else FunctionBody.concise <$> g.assignment

def arrow (g : Grammar) : Parse Expr := do
  let start ← here
  let ps ← arrowParams g
  expect .arrow
  let body ← arrowBody g
  return .function ⟨none, ps, body, true, start.through (← previous)⟩

def listed {α : Type} (g : Grammar) (spread value : Expr → α) : Parse α := do
  if ← eat .dotDotDot then spread <$> g.assignment else value <$> g.assignment

def argument (g : Grammar) : Parse Argument := do
  let a ← listed g .spread .value
  comma .rightParen
  return a

def arguments (g : Grammar) : Parse (List Argument) := do
  expect .leftParen
  itemsUntil .rightParen (argument g)

def element (g : Grammar) : Parse ArrayElement := do
  if ← eat .comma then return .hole
  let e ← listed g .spread .value
  comma .rightBracket
  return e

def array (g : Grammar) : Parse Expr := do
  let start ← here
  expect .leftBracket
  let elements ← itemsUntil .rightBracket (element g)
  return .array elements (start.through (← previous))

def propertyKey (g : Grammar) : Parse PropertyKey := do
  match ← current with
  | .string s => advance; return .named s
  | .number x => advance; return .named (numberText x)
  | .punct .leftBracket =>
    advance
    let key ← g.assignment
    expect .rightBracket
    return .computed key
  | _ => return .named (← propertyName)

def startsKey : Token → Bool
  | .keyword _ | .identifier _ | .string _ | .number _ => true
  | .punct .leftBracket | .punct .hash => true
  | _ => false

/-- Whether `get` or `set` starts an accessor here, and which. -/
def accessor? (c : Cursor) : Option Bool :=
  match c.token with
  | .identifier "get" => if startsKey (c.peek 1) then some true else none
  | .identifier "set" => if startsKey (c.peek 1) then some false else none
  | _ => none

/-- What follows a key whose property began at `c`: a method, a value, or nothing if the key is a name. -/
def propertyValue (g : Grammar) (c : Cursor) (key : PropertyKey) : Parse ObjectProperty := do
  let after ← get
  if after.token.isPunct .leftParen then
    let body ← functionTail g key.name? c.span
    return .value key (.function body)
  if ← eat .colon then return .value key (← g.assignment)
  match c.token with
  | .identifier n =>
    if after.token.isPunct .comma || after.token.isPunct .rightBrace then
      return .value key (.identifier n c.span)
    unexpected [.punct .colon, .punct .leftParen]
  | _ => unexpected [.punct .colon, .punct .leftParen]

def propertyForm (g : Grammar) : Parse ObjectProperty := do
  let c ← get
  if ← eat .dotDotDot then return .spread (← g.assignment)
  match accessor? c with
  | some isGetter =>
    advance
    let key ← propertyKey g
    let body ← functionTail g key.name? c.span
    return if isGetter then .getter key body else .setter key body
  | none => propertyValue g c (← propertyKey g)

def property (g : Grammar) : Parse ObjectProperty := do
  let p ← propertyForm g
  comma .rightBrace
  return p

def object (g : Grammar) : Parse Expr := do
  let start ← here
  expect .leftBrace
  let properties ← itemsUntil .rightBrace (property g)
  return .object properties (start.through (← previous))

inductive ClassItem
  | separator
  | constructor (body : FunctionDef)
  | member (m : ClassMember)

/-- Whether `static` marks the member after it and is not a name itself. -/
def atStatic (c : Cursor) : Bool :=
  c.token.name? == some "static" && match c.peek 1 with
    | .punct .leftParen | .punct .equal | .punct .semicolon | .punct .rightBrace => false
    | _ => true

def staticMark : Parse Bool := do
  let isStatic := atStatic (← get)
  if isStatic then
    advance
    if ← atPunct .leftBrace then invalid "static initialization blocks are not supported" (← here)
  return isStatic

def accessorMark : Parse (Option Bool) := do
  let accessor := accessor? (← get)
  if accessor.isSome then advance
  return accessor

def classMember (g : Grammar) (start : Span) (isStatic : Bool) (accessor : Option Bool) (n : String) :
    Parse ClassItem := do
  match accessor with
  | some isGetter =>
    let body ← functionTail g (some n) start
    return .member ⟨n, isStatic, if isGetter then .getter body else .setter body⟩
  | none =>
    if ← atPunct .leftParen then
      let body ← functionTail g (some n) start
      return if n == "constructor" && !isStatic then .constructor body
        else .member ⟨n, isStatic, .method body⟩
    let init ← initializer g
    semicolon
    return .member ⟨n, isStatic, .field init⟩

def classItem (g : Grammar) : Parse ClassItem := do
  if (← get).atEnd then unexpected [.punct .rightBrace]
  if ← eat .semicolon then return .separator
  let start ← here
  let isStatic ← staticMark
  let accessor ← accessorMark
  match ← propertyKey g with
  | .computed _ => invalid "computed class member names are not supported" start
  | .named n => classMember g start isStatic accessor n

def heritage (g : Grammar) : Parse (Option Expr) := do
  if ← eatKeyword .kwExtends then some <$> g.leftHandSide else pure none

def classDef (g : Grammar) : Parse ClassDef := do
  let start ← here
  expectKeyword .kwClass
  let n ← name?
  let superclass ← heritage g
  expect .leftBrace
  let items ← itemsUntil .rightBrace (classItem g)
  let constructors := items.filterMap fun
    | .constructor f => some f
    | _ => none
  let members := items.filterMap fun
    | .member m => some m
    | _ => none
  return ⟨n, superclass, constructors.getLast?, members, start.through (← previous)⟩

def templateElements (g : Grammar) : List TemplatePart → Except ParseError (List TemplateElement)
  | [] => .ok []
  | .text s :: parts => do
    let rest ← templateElements g parts
    return .text s :: rest
  | .substitution ts :: parts => do
    let e ← g.whole ts
    let rest ← templateElements g parts
    return .value e :: rest

def superTail (g : Grammar) (span : Span) : Parse Expr := do
  match ← current with
  | .punct .leftParen =>
    let args ← arguments g
    return .superCall args (span.through (← previous))
  | .punct .dot =>
    advance
    let n ← propertyName
    return .superMember n (span.through (← previous))
  | _ => unexpected [.punct .leftParen, .punct .dot]

/-- A literal, a name, a group, an array, object, function or class. -/
def primary (g : Grammar) : Parse Expr := do
  let span ← here
  match ← current with
  | .number x => advance; return .number x span
  | .string s => advance; return .string s span
  | .template parts =>
    advance
    match templateElements g parts with
    | .ok elements => return .template elements span
    | .error e => throw e
  | .identifier n => advance; return .identifier n span
  | .keyword .kwTrue => advance; return .boolean true span
  | .keyword .kwFalse => advance; return .boolean false span
  | .keyword .kwNull => advance; return .null span
  | .keyword .kwThis => advance; return .this span
  | .keyword .kwFunction => return .function (← function g)
  | .keyword .kwClass => return .classOf (← classDef g)
  | .keyword .kwSuper =>
    advance
    superTail g span
  | .punct .leftParen =>
    advance
    let e ← g.expression
    expect .rightParen
    return e
  | .punct .leftBracket => array g
  | .punct .leftBrace => object g
  | .punct .slash | .punct .slashEqual =>
    invalid "regular expression literals are not supported" span
  | .eof => fail (.unexpectedEnd []) span
  | t => invalid ("unexpected '" ++ t.text ++ "' in expression") span

def bracketed (g : Grammar) : Parse Expr := do
  advance
  let i ← g.expression
  expect .rightBracket
  return i

/-- One link of the callee of `new`: a property or an index, never a call. -/
def calleeLink (g : Grammar) (start : Span) (e : Expr) : Parse (Expr ⊕ Expr) := do
  match ← current with
  | .punct .dot =>
    advance
    let n ← propertyName
    return .inl (.member e n false (start.through (← previous)))
  | .punct .leftBracket =>
    let i ← bracketed g
    return .inl (.index e i false (start.through (← previous)))
  | _ => return .inr e

def calleeHead (g : Grammar) : Parse Expr := do
  if ← atKeyword .kwNew then g.instantiation else primary g

def arguments? (g : Grammar) : Parse (List Argument) := do
  if ← atPunct .leftParen then arguments g else pure []

/-- `new`, a callee without calls, and perhaps arguments. -/
def instantiationOf (g : Grammar) : Parse Expr := do
  let start ← here
  expectKeyword .kwNew
  if ← atPunct .dot then invalid "new.target is not supported" (← here)
  let callee ← calleeHead g
  let callee ← loop callee (calleeLink g start)
  let args ← arguments? g
  return .new callee args (start.through (← previous))

/-- One link of a chain of properties, indices and calls. -/
def chainLink (g : Grammar) (start : Span) (e : Expr) : Parse (Expr ⊕ Expr) := do
  match ← current with
  | .punct .dot =>
    advance
    let n ← propertyName
    return .inl (.member e n false (start.through (← previous)))
  | .punct .questionDot =>
    advance
    match ← current with
    | .punct .leftParen =>
      let args ← arguments g
      return .inl (.call e args true (start.through (← previous)))
    | .punct .leftBracket =>
      let i ← bracketed g
      return .inl (.index e i true (start.through (← previous)))
    | _ =>
      let n ← propertyName
      return .inl (.member e n true (start.through (← previous)))
  | .punct .leftBracket =>
    let i ← bracketed g
    return .inl (.index e i false (start.through (← previous)))
  | .punct .leftParen =>
    let args ← arguments g
    return .inl (.call e args false (start.through (← previous)))
  | .template _ =>
    let c ← get
    if c.onNewLine then return .inr e
    invalid "tagged templates are not supported" c.span
  | _ => return .inr e

def chainHead (g : Grammar) : Parse Expr := do
  if ← atKeyword .kwNew then instantiationOf g else primary g

def leftHandSideOf (g : Grammar) : Parse Expr := do
  let start ← here
  let e ← chainHead g
  loop e (chainLink g start)

/-- A chain, perhaps updated behind on the same line. -/
def postfixOf (g : Grammar) : Parse Expr := do
  let start ← here
  let e ← leftHandSideOf g
  let c ← get
  match UpdateOp.ofToken? c.token with
  | none => return e
  | some op =>
    if c.onNewLine || !e.isAssignable then return e
    advance
    return .update op false e (start.through (← previous))

def unaryOf (g : Grammar) : Parse Expr := do
  let start ← here
  let t ← current
  match UnaryOp.ofToken? t with
  | some op =>
    advance
    let e ← nested g.unary
    return .unary op e (start.through e.span)
  | none =>
    match UpdateOp.ofToken? t with
    | some op =>
      advance
      let e ← nested g.unary
      unless e.isAssignable do invalid "invalid update target" e.span
      return .update op true e (start.through e.span)
    | none => postfixOf g

def join (op : InfixOp) (left right : Expr) (span : Span) : Expr :=
  match op with
  | .binary op => .binary op left right span
  | .logical op => .logical op left right span

/-- One operator that binds tighter than `min`, and its right operand. -/
def infixLink (g : Grammar) (start : Span) (min : Nat) (left : Expr) : Parse (Expr ⊕ Expr) := do
  match InfixOp.ofToken? (← current) with
  | none => return .inr left
  | some op =>
    if op.precedence ≤ min then return .inr left
    advance
    let right ← g.infixes (if op.isRightAssociative then op.precedence - 1 else op.precedence)
    return .inl (join op left right (start.through right.span))

/-- Operands joined by operators that bind tighter than `min`. -/
def infixesOf (g : Grammar) (min : Nat) : Parse Expr := do
  let start ← here
  let left ← unaryOf g
  loop left (infixLink g start min)

def conditionalOf (g : Grammar) : Parse Expr := do
  let start ← here
  let test ← infixesOf g 0
  unless ← eat .question do return test
  let consequent ← g.assignment
  expect .colon
  let alternate ← g.assignment
  return .conditional test consequent alternate (start.through alternate.span)

/-- An expression without commas at its top. -/
def assignmentOf (g : Grammar) : Parse Expr := nested do
  let c ← get
  if atArrow c then arrow g
  else
    let target ← conditionalOf g
    match AssignOp.ofToken? (← current) with
    | none => return target
    | some op =>
      unless target.isAssignable do invalid "invalid assignment target" target.span
      advance
      let value ← g.assignment
      return .assign op target value (c.span.through value.span)

def commaLink (g : Grammar) (acc : List Expr) : Parse (List Expr ⊕ List Expr) := do
  if ← eat .comma then return .inl ((← g.assignment) :: acc)
  return .inr acc.reverse

def expressionOf (g : Grammar) : Parse Expr := do
  let start ← here
  let first ← assignmentOf g
  unless ← atPunct .comma do return first
  let all ← loop [first] (commaLink g)
  return .sequence all (start.through (← previous))

def wholeOf (g : Grammar) (ts : List Lexeme) : Except ParseError Expr :=
  let read : Parse Expr := do
    let e ← expressionOf g
    unless (← get).atEnd do unexpected [.eof]
    return e
  (read (Cursor.ofTokens ts)).1

end Grammar

end Typings
