import Typings.Model.Declaration

namespace Typings

def runtimeModule : String := "antlr4"

def runtimeTypes : List String :=
  ["CharStream", "ErrorNode", "Lexer", "ParseTree", "ParseTreeListener", "ParseTreeVisitor", "Parser",
    "ParserRuleContext", "RecognitionException", "RuleContext", "TerminalNode", "Token", "TokenStream"]

structure DeclarationFile where
  fileName : String
  contents : String
deriving DecidableEq, Repr, Inhabited

structure ContextNames where
  names : List String := []
  /-- Whether the file itself declares them. -/
  declaredHere : Bool := true
deriving DecidableEq, Repr, Inhabited

structure References where
  runtime : List String := []
  contexts : List String := []
deriving DecidableEq, Repr, Inhabited

abbrev Render := StateM References

namespace Render

def runtimeType (name : String) : Render String := do
  modify fun r => { r with runtime := r.runtime ++ [name] }
  return name

/-- A class by its name: a context, else a type of the runtime, else unknown. -/
def className (known : ContextNames) (name : String) : Render String := do
  if known.names.contains name then
    unless known.declaredHere do modify fun r => { r with contexts := r.contexts ++ [name] }
    return name
  else if runtimeTypes.contains name then runtimeType name
  else return TypeRef.unknown.text

def typeText (known : ContextNames) : TypeRef → Render String
  | .context name | .named name => className known name
  | .parameter name => return name
  | .terminalNode => runtimeType "TerminalNode"
  | .list element => return (← typeText known element) ++ "[]"
  | other => return other.text

/-- What a class extends; a name that is not known gives way to `fallback`. -/
def superclass (known : ContextNames) (name : Option String) (fallback : String) : Render String :=
  match name with
  | some n =>
    if known.names.contains n || runtimeTypes.contains n then className known n
    else runtimeType fallback
  | none => runtimeType fallback

def parameter (known : ContextNames) (p : Parameter) : Render String := do
  return p.name ++ (if p.optional then "?" else "") ++ ": " ++ (← typeText known p.ty)

def typeParameter (known : ContextNames) : Option TypeParam → Render String
  | none => return ""
  | some p => return "<" ++ p.name ++ " extends " ++ (← className known p.bound) ++ ">"

def member (known : ContextNames) (m : Member) : Render String := do
  let start := (if m.isStatic then "static " else "") ++ m.name
  match m.kind with
  | .field => return start ++ ": " ++ (← typeText known m.ty) ++ ";"
  | .method =>
    let generic ← typeParameter known m.typeParam
    let params ← m.params.mapM (parameter known)
    let ty ← typeText known m.ty
    return start ++ generic ++ "(" ++ ", ".intercalate params ++ "): " ++ ty ++ ";"

end Render

def sortedNames (names : List String) : List String :=
  (names.mergeSort fun a b => decide (a ≤ b)).eraseDups

def References.importLines (r : References) (parserModule : String) : List String :=
  let line := fun (start : String) (names : List String) (source : String) =>
    if names.isEmpty then []
    else [start ++ " \x7b " ++ ", ".intercalate (sortedNames names) ++ " \x7d from '" ++ source ++ "';"]
  line "import" r.runtime runtimeModule ++ line "import type" r.contexts ("./" ++ parserModule)

def classBlock (header : String) (body : List String) : String :=
  header ++ " \x7b\n" ++ String.join (body.map fun line => "    " ++ line ++ "\n") ++ "\x7d\n"

/-- A file: import lines, then blocks, with an empty line between the parts. -/
def renderFile (parserModule : String) (blocks : Render (List String)) : String :=
  let (blocks, references) := blocks.run {}
  let imports := references.importLines parserModule
  String.join (imports.map (· ++ "\n")) ++ (if imports.isEmpty then "" else "\n") ++
    "\n".intercalate blocks

def constructorLine (input : String) : Render String := do
  return "constructor(input: " ++ (← Render.runtimeType input) ++ ");"

def renderLexer (lexer : Declaration) : String :=
  renderFile "" do
    let base ← Render.superclass {} lexer.superclass "Lexer"
    let members ← lexer.members.mapM (Render.member {})
    let constructor ← constructorLine "CharStream"
    return [classBlock ("export default class " ++ lexer.name ++ " extends " ++ base)
      (members ++ [constructor])]

def ParserModel.contextNames (p : ParserModel) : List String := p.contexts.map (·.name)

def renderContext (known : ContextNames) (context : Declaration) : Render String := do
  let base ← Render.superclass known context.superclass "ParserRuleContext"
  let members ← context.members.mapM (Render.member known)
  return classBlock ("export declare class " ++ context.name ++ " extends " ++ base) members

def renderParser (p : ParserModel) : String :=
  let known : ContextNames := ⟨p.contextNames, true⟩
  renderFile "" do
    let base ← Render.superclass known p.parser.superclass "Parser"
    let fields ← p.parser.fields.mapM (Render.member known)
    let constructor ← constructorLine "TokenStream"
    let methods ← p.parser.methods.mapM (Render.member known)
    let contextLines := p.contextNames.map fun n => "static readonly " ++ n ++ ": typeof " ++ n ++ ";"
    let parser := classBlock ("export default class " ++ p.parser.name ++ " extends " ++ base)
      (fields ++ contextLines ++ [constructor] ++ methods)
    return parser :: (← p.contexts.mapM (renderContext known))

/-- A listener or visitor. The visitor of the runtime has a type parameter. -/
def renderCallbacks (d : Declaration) (parserModule : String) (contexts : List String) : String :=
  let known : ContextNames := ⟨contexts, false⟩
  let fallback := match d.kind with
    | .visitor => "ParseTreeVisitor"
    | _ => "ParseTreeListener"
  renderFile parserModule do
    let base ← Render.superclass known d.superclass fallback
    let base := if base == "ParseTreeVisitor" then base ++ "<any>" else base
    let members ← d.members.mapM (Render.member known)
    return [classBlock ("export default class " ++ d.name ++ " extends " ++ base) members]

def renderGrammar (g : GrammarModel) : List DeclarationFile :=
  let parserModule := (g.parser.map (·.parser.name)).getD (g.grammar ++ "Parser")
  let contexts := (g.parser.map (·.contextNames)).getD []
  let file := fun (name contents : String) => DeclarationFile.mk (name ++ ".d.ts") contents
  g.lexer.toList.map (fun d => file d.name (renderLexer d)) ++
    g.parser.toList.map (fun p => file p.parser.name (renderParser p)) ++
    (g.listener.toList ++ g.visitor.toList).map fun d =>
      file d.name (renderCallbacks d parserModule contexts)

end Typings
