import Typings.Files.Write
import Typings.Load.Module
import Typings.Recover.Contexts
import Typings.Recover.Members

namespace Typings

inductive RecoveryFault
  | load (fault : LoadFault)
  /-- The module runs, but its classes cannot be looked at. -/
  | introspection (path : Path) (message : String)
  | update (path : Path) (fault : IoFault)
  /-- A pass that runs apart has no outcome. -/
  | worker (pass : String) (reason : Breakdown)
  | broken (reason : Breakdown)
deriving DecidableEq, Repr, Inhabited

def RecoveryFault.message : RecoveryFault → String
  | load fault => fault.message
  | introspection path message => "cannot introspect " ++ path.text ++ ": " ++ message
  | update path fault => "failed to update " ++ path.text ++ ": " ++ fault.message
  | worker pass reason => pass ++ " recovery failed: " ++ reason.message
  | broken reason => reason.message

def RecoveryFault.breakdown? : RecoveryFault → Option Breakdown
  | load (.broken _ reason) | worker _ reason | broken reason => some reason
  | _ => none

structure RecoveryOptions where
  listener : Bool := true
  visitor : Bool := true
  hosts : HostModules := {}
deriving DecidableEq, Repr, Inhabited

structure GrammarArtifacts where
  grammar : String
  lexer : Option Path := none
  parser : Option Path := none
  listener : Option Path := none
  visitor : Option Path := none
deriving DecidableEq, Repr, Inhabited

namespace GrammarArtifacts

def discover (t : FileTree) (directory : Path) (grammar : String) (options : RecoveryOptions) :
    GrammarArtifacts :=
  let find := fun (endings : List String) =>
    (endings.map fun e => directory.child (grammar ++ e ++ ".js")).find? t.isFile
  { grammar
    lexer := find ["Lexer"]
    parser := find ["Parser"]
    listener := if options.listener then find ["Listener", "ParserListener"] else none
    visitor := if options.visitor then find ["Visitor", "ParserVisitor"] else none }

def isEmpty (a : GrammarArtifacts) : Bool :=
  a.lexer.isNone && a.parser.isNone && a.listener.isNone && a.visitor.isNone

end GrammarArtifacts

/-- Steps of recovery: evaluation that may find a class it cannot look at. -/
abbrev RecoverM := ExceptT RecoveryFault (StateM Store)

namespace RecoverM

/-- Evaluation; if it stops, recovery breaks off. -/
def ofEval {α : Type} (step : EvalM α) : RecoverM α := fun s =>
  match EvalM.runFrom s step with
  | (result, s) => (result.mapError fun stop => .broken stop.breakdown, s)

end RecoverM

namespace LoadedModule

def defaultClass (m : LoadedModule) : Except RecoveryFault Nat :=
  match m.defaultExport? with
  | some (.classOf c) => .ok c
  | some v => .error (.introspection m.path ("default export is " ++ v.typeName ++ ", not a class"))
  | none => .error (.introspection m.path "module has no default export")

def recover {α : Type} (m : LoadedModule) (step : RecoverM α) : Except RecoveryFault α :=
  (step m.store).1

end LoadedModule

def loadForRecovery (t : FileTree) (options : RecoveryOptions) (path : Path) :
    Except RecoveryFault LoadedModule :=
  (loadModule t options.hosts path).mapError .load

/-- Make an instance of a class the way generated code is used: with one null. -/
def instantiate (c : Nat) (path : Path) : RecoverM Value := do
  match ← RecoverM.ofEval (EvalM.attempt (EvalM.construct .full (.classOf c) [.null])) with
  | .ok v => return v
  | .error stop =>
    let message ← RecoverM.ofEval (EvalM.stopText stop)
    let s ← get
    throw (.introspection path ("constructing " ++ (s.classCell c).name ++ ": " ++ message))

/-- Numeric statics, with `EOF` among them in any case. -/
def staticNumbers (c : Nat) : RecoverM (List RawMember) := do
  let names ← RecoverM.ofEval (EvalM.numericStatics c)
  let names := if names.contains "EOF" then names else names ++ ["EOF"]
  return names.map .staticNumber

def plainHeader (s : Store) (c : Nat) (kind : DeclarationKind) : ClassHeader :=
  { name := (s.classCell c).name, superclass := s.superclassName? c, kind }

def findLexer (t : FileTree) (options : RecoveryOptions) (path : Path) :
    Except RecoveryFault FoundClass := do
  let module ← loadForRecovery t options path
  let c ← module.defaultClass
  module.recover do
    discard (instantiate c path)
    let members ← staticNumbers c
    return { plainHeader (← get) c .lexer with members }

/-- A list of names that a parser has: its own, or else that of its class. -/
def namesOf (key : String) (v : Value) : RecoverM (Option (List (Option String))) := do
  match ← RecoverM.ofEval (EvalM.attempt (EvalM.getProperty .full v key)) with
  | .ok found => return (← get).stringList? found
  | .error _ => return none

def nameList (parser : Value) (c : Nat) (key : String) : RecoverM (List (Option String)) := do
  match ← namesOf key parser with
  | some names => return names
  | none => return (← namesOf key (.classOf c)).getD []

def ruleModel (parser : Value) (c : Nat) : RecoverM RuleModel := do
  let rules ← nameList parser c "ruleNames"
  let symbols ← nameList parser c "symbolicNames"
  return RuleModel.ofNames (rules.filterMap id) symbols

def findContext (r : TypeResolver) (context : ContextClass) : RecoverM FoundClass := do
  let members ← RecoverM.ofEval do
    let subject ← Subject.ofClass context.classRef
    subject.members r
  let kind := match context.role with
    | .canonical => DeclarationKind.context
    | .label => .label
  return { name := context.name, superclass := context.superclass, kind, rule := some context.rule
           polymorphic := context.polymorphic, members }

/-- The function that instances of a class inherit from it under a name. -/
def sharedFunction? (s : Store) (c : Nat) (name : String) : Option FunctionCell :=
  match (s.classCell c).shared.get? name with
  | some ⟨.data (.function f), _⟩ => some (s.function f)
  | _ => none

/-- Methods of the parser that are named after rules; one parameter is the precedence level. -/
def ruleMethods (s : Store) (r : TypeResolver) (c : Nat) : List RawMember :=
  let names := (s.sharedNames c).filter fun n => !n.startsWith "_" && n != "constructor"
  names.filterMap fun name => do
    let f ← sharedFunction? s c name
    let (ty, typeParam) ← r.accessor? name
    let params := if f.arity = 1 then [⟨"_p", .number, true⟩] else []
    return { RawMember.method name params ty with typeParam }

structure FoundParser where
  parser : FoundClass
  contexts : List FoundClass
  rules : RuleModel
  names : List String
deriving DecidableEq, Repr, Inhabited

def findParser (t : FileTree) (options : RecoveryOptions) (path : Path) :
    Except RecoveryFault FoundParser := do
  let module ← loadForRecovery t options path
  let c ← module.defaultClass
  module.recover do
    let parser ← instantiate c path
    modify (·.hold [parser])
    let rules ← ruleModel parser c
    let classes ← RecoverM.ofEval (EvalM.classStatics c)
    let partition := ContextPartition.ofClasses (← get) rules classes
    modify (·.hold (partition.all.map fun context => .classOf context.classRef))
    let r : TypeResolver := ⟨rules, partition.polymorphicBases⟩
    let contexts ← partition.all.mapM (findContext r)
    let members := (← staticNumbers c) ++ ruleMethods (← get) r c
    let parser : FoundClass := { plainHeader (← get) c .parser with members }
    return { parser, contexts, rules, names := partition.names }

/-- The parser class leaves nothing open, so only what the contexts leave open is reported. -/
def FoundParser.assemble (found : FoundParser) : ParserModel × List Unresolved :=
  let contexts := found.contexts.map (·.assemble)
  (⟨found.parser.assemble.1, contexts.map (·.1)⟩, contexts.flatMap (·.2))

inductive Callbacks
  | listener | visitor
deriving DecidableEq, Repr, Inhabited

namespace Callbacks

def verbs : Callbacks → List String
  | listener => ["enter", "exit"]
  | visitor => ["visit"]

def returnType : Callbacks → TypeRef
  | listener => .void
  | visitor => .any

def kind : Callbacks → DeclarationKind
  | listener => .listener
  | visitor => .visitor

/-- The context that a method is for: what follows the verb, in a capital. -/
def context? (callbacks : Callbacks) (name : String) : Option String :=
  callbacks.verbs.findSome? fun verb => do
    let rest ← Annotation.after? verb.toList name.toList
    let c ← rest.head?
    if 'A' ≤ c && c ≤ 'Z' then some (String.ofList rest ++ "Context") else none

/-- The method for a context; a context that is not known has an unknown type. -/
def member? (callbacks : Callbacks) (rules : RuleModel) (contexts : List String) (s : Store) (c : Nat)
    (name : String) : Option RawMember := do
  discard (sharedFunction? s c name)
  let context ← callbacks.context? name
  let ty :=
    if contexts.contains context || rules.isRuleContext context then TypeRef.context context
    else .unknown
  return RawMember.method name [⟨"ctx", ty, false⟩] callbacks.returnType

end Callbacks

def findCallbacks (t : FileTree) (options : RecoveryOptions) (callbacks : Callbacks)
    (rules : RuleModel) (contexts : List String) (path : Path) : Except RecoveryFault FoundClass := do
  let module ← loadForRecovery t options path
  let c ← module.defaultClass
  let s := module.store
  let members := (s.sharedNames c).filterMap (callbacks.member? rules contexts s c)
  return { plainHeader s c callbacks.kind with members }

structure FoundGrammar where
  lexer : Option FoundClass
  parser : Option FoundParser
  listener : Option FoundClass
  visitor : Option FoundClass
deriving DecidableEq, Repr, Inhabited

/-- A pass that runs apart: a locked array ends the pass and nothing else. -/
def runApart {α : Type} (pass : String) (result : Except RecoveryFault α) : Except RecoveryFault α :=
  result.mapError fun fault =>
    if fault.breakdown? = some .locked then .worker pass .locked else fault

/--
Two passes side by side. The first one that fails, in order, is reported. But once it has failed, the
other one must have an outcome.
-/
def sideBySide {α β : Type} (first : Except RecoveryFault α) (second : Except RecoveryFault β) :
    Except RecoveryFault (α × β) :=
  match first, second with
  | .ok a, .ok b => .ok (a, b)
  | .ok _, .error fault | .error fault, .ok _ => .error fault
  | .error fault, .error other => .error ((other.breakdown?.map .broken).getD fault)

def findGrammar (t : FileTree) (artifacts : GrammarArtifacts) (options : RecoveryOptions) :
    Except RecoveryFault FoundGrammar := do
  let (lexer, parser) ← sideBySide
    (runApart "lexer" (artifacts.lexer.mapM (findLexer t options)))
    (runApart "parser" (artifacts.parser.mapM (findParser t options)))
  let rules := (parser.map (·.rules)).getD {}
  let contexts := (parser.map (·.names)).getD []
  let (listener, visitor) ← sideBySide
    (runApart "listener"
      (artifacts.listener.mapM (findCallbacks t options .listener rules contexts)))
    (runApart "visitor" (artifacts.visitor.mapM (findCallbacks t options .visitor rules contexts)))
  return { lexer, parser, listener, visitor }

/-- The lexer leaves nothing open; parser, listener and visitor are reported in this order. -/
def FoundGrammar.assemble (found : FoundGrammar) (grammar : String) : GrammarModel :=
  let rules := (found.parser.map (·.rules)).getD {}
  let parser := found.parser.map (·.assemble)
  let listener := found.listener.map (·.assemble)
  let visitor := found.visitor.map (·.assemble)
  { grammar
    ruleNames := rules.ruleNames
    symbolicNames := rules.terminals
    lexer := found.lexer.map (·.assemble.1)
    parser := parser.map (·.1)
    listener := listener.map (·.1)
    visitor := visitor.map (·.1)
    unresolved := (parser.map (·.2)).getD [] ++ (listener.map (·.2)).getD [] ++
      (visitor.map (·.2)).getD [] }

def recoverGrammar (t : FileTree) (artifacts : GrammarArtifacts) (options : RecoveryOptions) :
    Except RecoveryFault GrammarModel := do
  return (← findGrammar t artifacts options).assemble artifacts.grammar

/-- Lines that would register the context classes of a parser that it does not know. -/
def missingContextExports (m : LoadedModule) : Except RecoveryFault (List String) := do
  let c ← m.defaultClass
  m.recover do
    let registered ← RecoverM.ofEval (EvalM.classStatics c)
    let missing := m.topLevelClasses.filter fun (name, c') =>
      name.endsWith "Context" && !registered.contains c'
    let parser := ((← get).classCell c).name
    return missing.map fun (name, _) => parser ++ "." ++ name ++ " = " ++ name ++ ";"

/--
Add the lines that register missing context classes to the file of a parser. A file without missing
classes stays as it is.
-/
def patchContextExports (t : FileTree) (options : RecoveryOptions) (parser : Path) :
    Except RecoveryFault (List String × FileTree) := do
  let lines ← missingContextExports (← loadForRecovery t options parser)
  if lines.isEmpty then return ([], t)
  let text := "\n" ++ "\n".intercalate lines ++ "\n"
  return (lines, ← (t.appendText parser text).mapError (.update parser))

end Typings
