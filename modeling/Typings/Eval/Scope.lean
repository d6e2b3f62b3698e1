import Typings.Eval.Store
import Typings.Eval.Fault

namespace Typings.Store

/-- A scope and those around it, nearest first. -/
def chain (s : Store) (r : Nat) : List Nat := r :: (s.scope r).outer

def inside (s : Store) (r : Nat) : Scope := { outer := s.chain r }

def binds (s : Store) (name : String) (r : Nat) : Bool := (s.scope r).bindings.contains name

def nearest? (s : Store) (r : Nat) (name : String) : Option Nat := (s.chain r).find? (s.binds name)

def setBinding (s : Store) (r : Nat) (name : String) (b : Binding) : Store :=
  s.setScope r fun c => { c with bindings := c.bindings.insert name b }

def declare (s : Store) (r : Nat) (name : String) (v : Value) : Store :=
  s.setBinding r name (.mutable v)

def declareConstant (s : Store) (r : Nat) (name : String) (v : Value) : Store :=
  s.setBinding r name (.constant v)

/-- Bind `local'` in scope `r` to `name` of the scope `target`. -/
def declareImport (s : Store) (r : Nat) (local' : String) (target : Nat) (name : String) : Store :=
  { s.setBinding r local' (.imported target name) with imports := s.imports + 1 }

def binding? (s : Store) (r : Nat) (name : String) : Option Binding :=
  (s.nearest? r name).bind fun r' => (s.scope r').bindings[name]?

/-- Follow at most `hops` imports to the value of a name, if it has one. -/
def follow (s : Store) : Nat → Nat → String → Option (Option Value)
  | hops, r, name =>
    match s.binding? r name with
    | some (.mutable v) | some (.constant v) => some (some v)
    | some (.imported target name') =>
      match hops with
      | 0 => none
      | hops + 1 => follow s hops target name'
    | none => some none

/-- The value of a name, if it has one. A search among imports that only lead to each other fails. -/
def search? (s : Store) (r : Nat) (name : String) : Option (Option Value) := s.follow s.imports r name

def lookup? (s : Store) (r : Nat) (name : String) : Option Value := (s.search? r name).join

/-- The scope whose binding an assignment to a name changes. -/
def assignmentScope (s : Store) (r : Nat) (name : String) : Except Fault Nat :=
  match s.nearest? r name with
  | none => .error (.undefinedName name)
  | some r' =>
    match (s.scope r').bindings[name]? with
    | some (.constant _) => .error (.constantAssignment name)
    | some (.imported ..) => .error (.importAssignment name)
    | _ => .ok r'

def assign (s : Store) (r : Nat) (name : String) (v : Value) : Except Fault Store :=
  (s.assignmentScope r name).map (s.declare · name v)

def frameOf? (s : Store) (r : Nat) : Option Nat := (s.chain r).findSome? fun r => (s.scope r).frame

def sourceOf? (s : Store) (r : Nat) : Option ModuleSource :=
  (s.chain r).findSome? fun r => (s.scope r).source

def clearScope (s : Store) (r : Nat) : Store := s.setScope r fun c => { c with bindings := {} }

def globalScope : Nat := 0

def addModule (s : Store) (source : ModuleSource) : Nat × Store :=
  s.addScope { s.inside globalScope with source := some source }

/-- The store before any module runs: the global names. -/
def initial : Store :=
  let s : Store := (({} : Store).addScope {}).2
  let s := s.declareConstant globalScope "undefined" .undefined
  let s := s.declareConstant globalScope "NaN" (.number (0.0 / 0.0))
  let s := s.declareConstant globalScope "Infinity" (.number (1.0 / 0.0))
  let s := hostGlobals.foldl (fun s name =>
    let (v, s) := s.addHost name
    s.declare globalScope name v) s
  Builtin.globals.foldl (fun s b =>
    let (v, s) := s.addFunction { name := b.name, code := .builtin b }
    s.declare globalScope b.name v) s

end Typings.Store
