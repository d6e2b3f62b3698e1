import Typings.Syntax.Expression
import Typings.Token.Scan

namespace Typings

namespace Grammar

open Parse

def declarator (g : Grammar) (kind : VariableKind) : Parse (String × Option Expr) := do
  let c ← get
  if c.token.isPunct .leftBrace || c.token.isPunct .leftBracket then
    invalid "destructuring declarations are not supported" c.span
  let n ← name
  let init ← initializer g
  if kind == .constant && init.isNone then
    invalid ("missing initializer in const declaration '" ++ n ++ "'") (← previous)
  return (n, init)

def declaratorLink (g : Grammar) (kind : VariableKind) (acc : List (String × Option Expr)) :
    Parse (List (String × Option Expr) ⊕ List (String × Option Expr)) := do
  let acc := (← declarator g kind) :: acc
  if ← eat .comma then return .inl acc
  return .inr acc.reverse

def declaration (g : Grammar) (kind : VariableKind) : Parse Statement := do
  let start ← here
  advance
  let all ← loop [] (declaratorLink g kind)
  semicolon
  return .declaration kind all (start.through (← previous))

def alternative (g : Grammar) : Parse (Option Statement) := do
  if ← eatKeyword .kwElse then some <$> g.statement else pure none

def branch (g : Grammar) : Parse Statement := do
  let start ← here
  advance
  expect .leftParen
  let condition ← g.expression
  expect .rightParen
  let consequent ← g.statement
  let alternate ← alternative g
  return .branch condition consequent alternate (start.through (← previous))

def blockItem (g : Grammar) : Parse Statement := do
  if (← get).atEnd then unexpected [.punct .rightBrace]
  g.statement

def skipStatement (g : Grammar) : Parse Unit := do
  if ← atPunct .leftBrace then skipGroup else discard g.statement

def unsupported (construct : String) (start : Span) : Parse Statement := do
  return .unsupported construct (start.through (← previous))

def headed (g : Grammar) (construct : String) : Parse Statement := do
  let start ← here
  advance
  if ← atName "await" then advance
  skipGroup
  skipStatement g
  unsupported construct start

def jump (construct : String) : Parse Statement := do
  let start ← here
  advance
  let c ← get
  if c.token.name?.isSome && !c.onNewLine then advance
  semicolon
  unsupported construct start

def skipCatch : Parse Unit := do
  if ← eatKeyword .kwCatch then
    if ← atPunct .leftParen then skipGroup
    discard braces

def skipFinally : Parse Unit := do
  if ← eatKeyword .kwFinally then discard braces

def attempt : Parse Statement := do
  let start ← here
  advance
  discard braces
  skipCatch
  skipFinally
  unsupported "try" start

def returnValue (g : Grammar) : Parse (Option Expr) := do
  let c ← get
  if c.token.isPunct .semicolon || c.token.isPunct .rightBrace || c.atEnd || c.onNewLine then return none
  else some <$> g.expression

/-- A statement, without counting its nesting. -/
def statementBody (g : Grammar) : Parse Statement := do
  let c ← get
  let start := c.span
  match c.token with
  | .keyword .kwLet => declaration g .lexical
  | .keyword .kwConst => declaration g .constant
  | .keyword .kwVar => declaration g .var
  | .keyword .kwFunction => return .function (← function g)
  | .keyword .kwClass => return .classOf (← classDef g)
  | .keyword .kwIf => branch g
  | .punct .leftBrace =>
    advance
    let body ← itemsUntil .rightBrace (blockItem g)
    return .block body (start.through (← previous))
  | .keyword .kwReturn =>
    advance
    let value ← returnValue g
    semicolon
    return .returns value (start.through (← previous))
  | .keyword .kwThrow =>
    advance
    let value ← g.expression
    semicolon
    return .throws value (start.through (← previous))
  | .punct .semicolon => advance; return .empty start
  | .keyword .kwFor => headed g "for"
  | .keyword .kwWhile => headed g "while"
  | .keyword .kwSwitch => headed g "switch"
  | .keyword .kwDo =>
    advance
    skipStatement g
    expectKeyword .kwWhile
    skipGroup
    discard (eat .semicolon)
    unsupported "do" start
  | .keyword .kwTry => attempt
  | .keyword .kwBreak => jump "break"
  | .keyword .kwContinue => jump "continue"
  | .keyword .kwDebugger =>
    advance
    semicolon
    return .empty start
  | .keyword .kwImport | .keyword .kwExport =>
    invalid "import and export are only allowed at the top level of a module" start
  | t =>
    if t.name?.isSome && (c.peek 1).isPunct .colon then
      -- a label, which matters to loops only
      advance
      advance
      g.statement
    else
      let e ← expressionOf g
      semicolon
      return .expression e (start.through (← previous))

def statementOf (g : Grammar) : Parse Statement := nested (statementBody g)

/-- The name under which another module exports something. -/
def foreignName : Parse String := do
  match ← current with
  | .string s => advance; return s
  | _ => propertyName

/-- The name behind `as`; without one it is `n`. -/
def renamed (n : String) (other : Parse String) : Parse String := do
  if ← atName "as" then
    advance
    other
  else return n

def importedName : Parse (String × String) := do
  let imported ← foreignName
  let bound ← renamed imported name
  comma .rightBrace
  return (imported, bound)

/-- What follows the imported names. -/
def importSource (decl : ImportDecl) : Parse ImportDecl := do
  unless ← atName "from" do unexpected [.identifier "from"]
  advance
  match ← current with
  | .string s =>
    advance
    semicolon
    return { decl with specifier := s, span := decl.span.through (← previous) }
  | _ => unexpected [.string ""]

def importNames (decl : ImportDecl) : Parse ImportDecl := do
  if ← eat .star then
    unless ← atName "as" do unexpected [.identifier "as"]
    advance
    importSource { decl with whole? := some (← name) }
  else if ← eat .leftBrace then
    importSource { decl with named := ← itemsUntil .rightBrace importedName }
  else unexpected [.punct .star, .punct .leftBrace]

def importDecl : Parse ImportDecl := do
  let start ← here
  expectKeyword .kwImport
  let decl : ImportDecl := ⟨"", none, none, [], start⟩
  match ← current with
  | .string s =>
    advance
    semicolon
    return { decl with specifier := s, span := start.through (← previous) }
  | .identifier n =>
    advance
    let decl := { decl with default? := some n }
    if ← eat .comma then importNames decl else importSource decl
  | _ => importNames decl

def exportedName : Parse (String × String) := do
  let n ← name
  let exported ← renamed n propertyName
  comma .rightBrace
  return (n, exported)

def defaultExport (g : Grammar) : Parse DefaultExport := do
  match ← current with
  | .keyword .kwClass => return .classOf (← classDef g)
  | .keyword .kwFunction => return .function (← function g)
  | _ =>
    let e ← assignmentOf g
    semicolon
    return .expression e

def exportDefault (g : Grammar) (start : Span) : Parse ModuleItem := do
  advance
  let value ← defaultExport g
  return .exportDefault value (start.through (← previous))

def exportItem (g : Grammar) : Parse ModuleItem := do
  let start ← here
  expectKeyword .kwExport
  match ← current with
  | .keyword .kwDefault => exportDefault g start
  | .punct .leftBrace =>
    advance
    let specifiers ← itemsUntil .rightBrace exportedName
    if ← atName "from" then invalid "re-exports are not supported" (← here)
    semicolon
    return .exportNamed specifiers (start.through (← previous))
  | .keyword .kwClass | .keyword .kwFunction | .keyword .kwConst | .keyword .kwLet
  | .keyword .kwVar => return .exportDeclaration (← statementOf g)
  | .punct .star => invalid "re-exports are not supported" (← here)
  | _ => unexpected [.keyword .kwDefault, .punct .leftBrace, .keyword .kwClass]

/-- One item of a module. `import` before a parenthesis or a point is an expression. -/
def moduleItem (g : Grammar) : Parse ModuleItem := do
  let c ← get
  match c.token with
  | .keyword .kwImport =>
    match c.peek 1 with
    | .punct .leftParen | .punct .dot => return .statement (← statementOf g)
    | _ => return .importDecl (← importDecl)
  | .keyword .kwExport => exportItem g
  | _ => return .statement (← statementOf g)

def levels : Nat → Grammar
  | 0 => exhausted
  | n + 1 =>
    let g := levels n
    { expression := expressionOf g
      assignment := assignmentOf g
      infixes := infixesOf g
      unary := unaryOf g
      instantiation := instantiationOf g
      leftHandSide := leftHandSideOf g
      statement := statementOf g
      whole := wholeOf g }

end Grammar

mutual

/-- Tokens in a token: itself, and those of its substitutions. -/
def Token.weight : Token → Nat
  | .template parts => 1 + TemplatePart.weights parts
  | _ => 1

def TemplatePart.weights : List TemplatePart → Nat
  | [] => 0
  | .text _ :: parts => TemplatePart.weights parts
  | .substitution ts :: parts => 1 + Lexeme.weights ts + TemplatePart.weights parts

def Lexeme.weights : List (Token × Span) → Nat
  | [] => 0
  | (t, _) :: ts => t.weight + Lexeme.weights ts

end

def Grammar.for (ts : List Lexeme) : Grammar := Grammar.levels (Lexeme.weights ts + 1)

namespace Parse

def startsStatement : Token → Bool
  | .keyword .kwImport | .keyword .kwExport | .keyword .kwClass | .keyword .kwFunction
  | .keyword .kwConst | .keyword .kwLet | .keyword .kwVar => true
  | _ => false

/-- One step of looking for the next statement after an error at `start`. -/
def resyncStep (start : Nat) : Unit → Parse (Unit ⊕ Unit) := fun _ => do
  let c ← get
  if c.atEnd then return .inr ()
  if c.token.isPunct .semicolon then
    advance
    return .inr ()
  if start < c.pos && c.onNewLine && startsStatement c.token then return .inr ()
  advance
  return .inl ()

/-- Pass tokens up to where a statement probably begins. -/
def resync : Parse Unit := do
  loop () (resyncStep (← get).pos)

/-- One item of a module, or an error and the way to the next item. -/
def moduleStep (g : Grammar) (acc : List ModuleItem × List ParseError) :
    Parse ((List ModuleItem × List ParseError) ⊕ (List ModuleItem × List ParseError)) := do
  if (← get).atEnd then return .inr (acc.1.reverse, acc.2.reverse)
  tryCatch (do return .inl ((← g.moduleItem) :: acc.1, acc.2)) fun e => do
    resync
    return .inl (acc.1, e :: acc.2)

/-- The items of a module, the errors among them, and the span of them all. -/
def wholeModule (g : Grammar) : Parse (List ModuleItem × List ParseError × Span) := do
  let start ← here
  let (items, errors) ← loop ([], []) (moduleStep g)
  return (items, errors, start.through (← here))

def statementStep (g : Grammar) (acc : List Statement) :
    Parse (List Statement ⊕ List Statement) := do
  if (← get).atEnd then return .inr acc.reverse
  return .inl ((← g.statementOf) :: acc)

end Parse

def Module.ofTokens (ts : List Lexeme) : Except (List ParseError) Module :=
  match (Parse.wholeModule (Grammar.for ts) (Cursor.ofTokens ts)).1 with
  | .ok (items, [], span) => .ok ⟨items, span⟩
  | .ok (_, errors, _) => .error errors
  | .error e => .error [e]

def Statement.ofTokens (ts : List Lexeme) : Except ParseError (List Statement) :=
  (Parse.loop [] (Parse.statementStep (Grammar.for ts)) (Cursor.ofTokens ts)).1

def Expr.ofTokens (ts : List Lexeme) : Except ParseError Expr := (Grammar.for ts).wholeOf ts

def Module.ofSource (source : String) : Except String Module :=
  match Token.scan source with
  | .error errors =>
    .error ((errors.head?.map (·.report source)).getD "")
  | .ok ts =>
    match Module.ofTokens ts with
    | .ok m => .ok m
    | .error errors => .error ((errors.head?.map (·.report source)).getD "")

def Expr.ofSource (source : String) : Except String Expr :=
  match Token.scan source with
  | .error errors => .error ((errors.head?.map (·.message)).getD "")
  | .ok ts => (Expr.ofTokens ts).mapError (·.text)

end Typings
