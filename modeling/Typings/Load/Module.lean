import Typings.Load.Graph
import Typings.Load.Resolve
import Typings.Eval.Program

namespace Typings

inductive LoadFault
  | io (path : Path) (fault : IoFault)
  | malformed (path : Path) (message : String)
  | resolve (fault : ResolveFault)
  | link (path : Path) (message : String)
  | cycle (fault : GraphFault)
  | evaluation (path : Path) (message : String)
  | broken (path : Path) (reason : Breakdown)
  | exhausted
  | missing (key : String)
deriving DecidableEq, Repr, Inhabited

def LoadFault.message : LoadFault → String
  | io path fault => "failed to read " ++ path.text ++ ": " ++ fault.message
  | malformed path message | link path message => path.text ++ ": " ++ message
  | resolve fault => fault.message
  | cycle fault => fault.message
  | evaluation path message => "error evaluating " ++ path.text ++ ": " ++ message
  | broken path reason => "error evaluating " ++ path.text ++ ": " ++ reason.message
  | exhausted => "more modules than files"
  | missing key => "nothing is known of " ++ key

def LoadFault.ofStop (path : Path) (s : Store) (stop : Stop) : LoadFault :=
  match (EvalM.runFrom s (EvalM.stopText stop)).1 with
  | .ok message => .evaluation path message
  | .error stop => .broken path stop.breakdown

def required {α : Type} (key : String) : Option α → Except LoadFault α
  | some a => .ok a
  | none => .error (.missing key)

namespace Statement

def declaredNames : Statement → List String
  | declaration _ ds _ => ds.map (·.1)
  | function body => body.name.toList
  | classOf body => body.name.toList
  | _ => []

end Statement

/-- Exported names and the local names that hold them, in source order. -/
def Module.exports (m : Module) : List (String × String) :=
  m.items.flatMap fun
    | .exportDefault .. => [("default", defaultBinding)]
    | .exportDeclaration s => s.declaredNames.map fun n => (n, n)
    | .exportNamed specifiers _ => specifiers.map fun (name, exported) => (exported, name)
    | _ => []

structure SourceUnit where
  path : Path
  text : String
  body : Module
  targets : List (String × String) := []
deriving Inhabited

inductive LoadUnit
  | source (unit : SourceUnit)
  | host (name : String)
deriving Inhabited

namespace FileTree

def readModule (t : FileTree) (path : Path) : Except LoadFault SourceUnit := do
  let text ← (t.readText path).mapError (.io path)
  let body ← (Module.ofSource text).mapError (.malformed path)
  return { path, text, body }

end FileTree

structure Units where
  units : List (String × LoadUnit) := []
  graph : ImportGraph := {}
deriving Inhabited

namespace Units

def find? (u : Units) (key : String) : Option LoadUnit := u.units.lookup key

def add (u : Units) (key : String) (unit : LoadUnit) : Units :=
  if (u.find? key).isSome then u else { u with units := u.units ++ [(key, unit)] }

/-- Add what was read of a module, unless it was known. -/
def learn (u : Units) (key : String) : Option LoadUnit → Units
  | some unit => u.add key unit
  | none => u

def setTargets (u : Units) (key : String) (targets : List (String × String)) : Units :=
  { u with units := u.units.map fun
      | (k, .source unit) => if k = key then (k, .source { unit with targets }) else (k, .source unit)
      | other => other }

end Units

/-- The key of the module that a specifier means, and the module itself unless it is known. -/
def findTarget (t : FileTree) (hosts : HostResolver) (u : Units) (importer : Path)
    (specifier : String) : Except LoadFault (String × Option LoadUnit) := do
  if isRelative specifier then
    let path ← (t.resolve specifier importer).mapError .resolve
    if (u.find? path.text).isSome then return (path.text, none)
    return (path.text, some (.source (← t.readModule path)))
  else
    match hosts specifier with
    | none => .error (.resolve (.unknownModule specifier importer))
    | some name => return (HostModules.key name, some (.host name))

structure Discovery where
  units : Units
  targets : List (String × String) := []
  /-- Keys of the new modules that have imports of their own. -/
  discovered : List String := []

/-- The key of a module that was read, if it has imports of its own. -/
def newSource (key : String) : Option LoadUnit → List String
  | some (.source _) => [key]
  | _ => []

def discover (t : FileTree) (hosts : HostResolver) (key : String) (path : Path) (d : Discovery)
    (specifier : String) : Except LoadFault Discovery := do
  let (target, unit?) ← findTarget t hosts d.units path specifier
  let units := d.units.learn target unit?
  return {
    units := { units with graph := units.graph.connect key target }
    targets := d.targets ++ [(specifier, target)]
    discovered := d.discovered ++ newSource target unit? }

/-- Read the modules that are pending and all they import, at most `count` modules. -/
def resolveAll (t : FileTree) (hosts : HostResolver) : Nat → List String → Units →
    Except LoadFault Units
  | _, [], u => .ok u
  | 0, _ :: _, _ => .error .exhausted
  | count + 1, key :: pending, u =>
    match u.find? key with
    | some (.source unit) => do
      let specifiers := unit.body.imports.map (·.specifier)
      let d ← specifiers.foldlM (discover t hosts key unit.path) { units := u }
      resolveAll t hosts count (d.discovered ++ pending) (d.units.setTargets key d.targets)
    | _ => resolveAll t hosts count pending u

structure Resolved where
  root : String
  units : Units
deriving Inhabited

def resolveModule (t : FileTree) (hosts : HostResolver) (root : Path) : Except LoadFault Resolved := do
  let path ← (t.canonical root).mapError (.io root)
  let unit ← t.readModule path
  let start : Units := { units := [(path.text, .source unit)], graph := ImportGraph.add {} path.text }
  return ⟨path.text, ← resolveAll t hosts (t.entries.length + 1) [path.text] start⟩

/-- Modules in order, with a scope for each that was read from a file. -/
structure Linked where
  root : String
  units : Units
  order : List String
  scopes : List (String × Nat)
  store : Store
deriving Inhabited

namespace Linked

def addScopes (u : Units) : List String → List (String × Nat) × Store → List (String × Nat) × Store
  | [], acc => acc
  | key :: keys, (scopes, s) =>
    match u.find? key with
    | some (.source unit) =>
      let (r, s) := s.addModule ⟨unit.path.text, unit.text⟩
      addScopes u keys (scopes ++ [(key, r)], s)
    | _ => addScopes u keys (scopes, s)

def bindImport (l : Linked) (unit : SourceUnit) (scope : Nat) (specifier : String) (target : String)
    (found : LoadUnit) (s : Store) : String × String → Except LoadFault Store
  | (imported, name) =>
    match found with
    | .host host =>
      if imported = "default" then
        let (v, s) := s.addHost host
        .ok (s.declareConstant scope name v)
      else
        .error (.link unit.path ("host module '" ++ host ++
          "' only provides a default export (imported '" ++ imported ++ "')"))
    | .source source =>
      match source.body.exports.lookup imported with
      | some exported => do
        let scope' ← required target (l.scopes.lookup target)
        return s.declareImport scope name scope' exported
      | none =>
        .error (.link unit.path
          ("'" ++ specifier ++ "' does not provide an export named '" ++ imported ++ "'"))

/-- The names that an import declaration binds one by one: imported name and local name. -/
def singleImports (d : ImportDecl) : List (String × String) :=
  (d.default?.map fun n => ("default", n)).toList ++ d.named

def bindDecl (l : Linked) (unit : SourceUnit) (scope : Nat) (s : Store) (d : ImportDecl) :
    Except LoadFault Store := do
  let target ← required d.specifier (unit.targets.lookup d.specifier)
  let found ← required target (l.units.find? target)
  (singleImports d).foldlM (l.bindImport unit scope d.specifier target found) s

def bindModule (l : Linked) (s : Store) (key : String) : Except LoadFault Store :=
  match l.units.find? key with
  | some (.source unit) => do
    let scope ← required key (l.scopes.lookup key)
    unit.body.imports.foldlM (l.bindDecl unit scope) s
  | _ => .ok s

def exportsOf (l : Linked) (key : String) (s : Store) :
    Except LoadFault (List (String × Value) × Store) :=
  match l.units.find? key with
  | some (.source unit) => do
    let scope ← required key (l.scopes.lookup key)
    return (unit.body.exports.map fun (exported, name) =>
      (exported, (s.lookup? scope name).getD .undefined), s)
  | some (.host name) =>
    let (v, s) := s.addHost name
    .ok ([("default", v)], s)
  | none => .ok ([], s)

def exportObject (l : Linked) (key : String) (s : Store) : Except LoadFault (Value × Store) := do
  let (exports, s) ← l.exportsOf key s
  return s.addObject { props := exports.foldl (fun m (name, v) => m.insert name (.data v)) .empty }

def bindWhole (l : Linked) (unit : SourceUnit) (scope : Nat) (s : Store) (d : ImportDecl) :
    Except LoadFault Store :=
  match d.whole? with
  | none => .ok s
  | some name => do
    let target ← required d.specifier (unit.targets.lookup d.specifier)
    let (v, s) ← l.exportObject target s
    return s.declareConstant scope name v

def runBody (l : Linked) (s : Store) (key : String) : Except LoadFault Store :=
  match l.units.find? key with
  | some (.source unit) => do
    let scope ← required key (l.scopes.lookup key)
    let s ← unit.body.imports.foldlM (l.bindWhole unit scope) s
    match EvalM.runFrom s (EvalM.runModule scope unit.body) with
    | (.ok (), s) => return s
    | (.error stop, s) => .error (.ofStop unit.path s stop)
  | _ => .ok s

end Linked

def linkModules (r : Resolved) : Except LoadFault Linked := do
  let order ← (r.units.graph.order r.root).mapError .cycle
  let (scopes, store) := Linked.addScopes r.units order ([], .initial)
  let l : Linked := { root := r.root, units := r.units, order, scopes, store }
  return { l with store := ← order.foldlM l.bindModule store }

/-- A module whose body, and the bodies of all it imports, have run. -/
structure LoadedModule where
  path : Path
  text : String
  body : Module
  exports : List (String × Value)
  scope : Nat
  store : Store
deriving Inhabited

def evaluateModules (l : Linked) : Except LoadFault LoadedModule := do
  let s ← l.order.foldlM l.runBody l.store
  let (exports, store) ← l.exportsOf l.root s
  match l.units.find? l.root, l.scopes.lookup l.root with
  | some (.source unit), some scope =>
    return {
      path := unit.path, text := unit.text, body := unit.body, exports, scope
      store := store.hold (exports.map (·.2)) }
  | _, _ => .error (.link ⟨l.root⟩ "root module was not linked")

def loadModule (t : FileTree) (hosts : HostResolver) (root : Path) : Except LoadFault LoadedModule := do
  evaluateModules (← linkModules (← resolveModule t hosts root))

namespace LoadedModule

def export? (m : LoadedModule) (name : String) : Option Value := m.exports.lookup name

def defaultExport? (m : LoadedModule) : Option Value := m.export? "default"

def classDefOf? : ModuleItem → Option ClassDef
  | .statement (.classOf body) | .exportDeclaration (.classOf body)
  | .exportDefault (.classOf body) _ => some body
  | _ => none

/-- Classes declared at the top level with a name, in source order, each under that name. -/
def topLevelClasses (m : LoadedModule) : List (String × Nat) :=
  m.body.items.filterMap fun item => do
    let name ← (← classDefOf? item).name
    let c ← (← m.store.lookup? m.scope name).class?
    return (name, c)

end LoadedModule

end Typings
