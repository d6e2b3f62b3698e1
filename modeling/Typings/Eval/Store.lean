import Typings.Eval.PropertyMap
import Typings.Eval.Builtin

namespace Typings

structure ModuleSource where
  path : String
  text : String
deriving DecidableEq, Repr, Inhabited

inductive Binding
  | mutable (value : Value)
  | constant (value : Value)
  /-- What `name` is bound to in another module's scope, whenever it is asked. -/
  | imported (scope : Nat) (name : String)
deriving DecidableEq, Inhabited

structure Scope where
  bindings : Std.TreeMap String Binding := {}
  /-- The enclosing scopes, nearest first. -/
  outer : List Nat := []
  frame : Option Nat := none
  source : Option ModuleSource := none
deriving Inhabited

/-- What a call of a function other than an arrow knows. -/
structure Frame where
  /-- Nothing in a constructor of a derived class until `super(...)` returns. -/
  receiver : Option Value
  pending : Option Value := none
  home : Option Nat := none
  /-- Set while the constructor of a class runs. -/
  constructorOf : Option Nat := none
  /-- How often `super(...)` was entered. -/
  entered : Nat := 0
deriving Inhabited

structure ObjectCell where
  class? : Option Nat := none
  props : PropertyMap := {}
  /-- The classes whose fields were evaluated for the object, in order. -/
  initialized : List Nat := []
deriving Inhabited

inductive Code
  | script (body : FunctionDef) (env : Nat) (home : Option Nat)
  | builtin (b : Builtin)

instance : Inhabited Code := ⟨.builtin default⟩

structure FunctionCell where
  name : String
  code : Code
  props : PropertyMap := {}
deriving Inhabited

namespace FunctionCell

def arity (f : FunctionCell) : Nat :=
  match f.code with
  | .script body .. => body.arity
  | .builtin b => b.arity

def isArrow (f : FunctionCell) : Bool :=
  match f.code with
  | .script body .. => body.isArrow
  | .builtin _ => false

def isConstructor (f : FunctionCell) : Bool :=
  match f.code with
  | .script body .. => !body.isArrow
  | .builtin _ => false

end FunctionCell

structure ClassCell where
  name : String
  /-- Undefined for a class without `extends`. -/
  superclass : Value := .undefined
  body : ClassDef := default
  env : Nat := 0
  shared : PropertyMap := {}
  statics : PropertyMap := {}
  source : Option ModuleSource := none
deriving Inhabited

namespace ClassCell

def isDerived (c : ClassCell) : Bool := !c.superclass.isUndefined

def constructor? (c : ClassCell) : Option FunctionDef := c.body.constructor?

def fields (c : ClassCell) : List (String × Option Expr) :=
  c.body.members.filterMap fun
    | ⟨name, false, .field init⟩ => some (name, init)
    | _ => none

end ClassCell

structure Store where
  scopes : Array Scope := #[]
  frames : Array Frame := #[]
  objects : Array ObjectCell := #[]
  arrays : Array (Array Value) := #[]
  functions : Array FunctionCell := #[]
  classes : Array ClassCell := #[]
  hosts : Nat := 0
  imports : Nat := 0
  depth : Nat := 0
  /-- The most that ever ran inside each other. -/
  deepest : Nat := 0
  /-- The length of the longest array that was put together without a look at the limit. -/
  gathered : Nat := 0
  running : List Nat := []
  /-- Values that evaluation has at hand for a later step, latest first. -/
  held : List (List Value) := []
deriving Inhabited

namespace Store

def scope (s : Store) (r : Nat) : Scope := s.scopes.getD r {}

def frame (s : Store) (r : Nat) : Frame := s.frames.getD r default

def object (s : Store) (r : Nat) : ObjectCell := s.objects.getD r {}

def array (s : Store) (r : Nat) : Array Value := s.arrays.getD r #[]

def function (s : Store) (r : Nat) : FunctionCell := s.functions.getD r default

def classCell (s : Store) (r : Nat) : ClassCell := s.classes.getD r default

def setScope (s : Store) (r : Nat) (f : Scope → Scope) : Store :=
  { s with scopes := s.scopes.modify r f }

def setFrame (s : Store) (r : Nat) (f : Frame → Frame) : Store :=
  { s with frames := s.frames.modify r f }

def enter (s : Store) (f : Nat) : Store :=
  s.setFrame f fun frame => { frame with entered := frame.entered + 1 }

def bindFrame (s : Store) (f : Nat) (this : Value) : Store :=
  s.setFrame f fun frame => { frame with receiver := some this }

def setObject (s : Store) (r : Nat) (f : ObjectCell → ObjectCell) : Store :=
  { s with objects := s.objects.modify r f }

def setArray (s : Store) (r : Nat) (f : Array Value → Array Value) : Store :=
  { s with arrays := s.arrays.modify r f }

def setFunction (s : Store) (r : Nat) (f : FunctionCell → FunctionCell) : Store :=
  { s with functions := s.functions.modify r f }

def setClass (s : Store) (r : Nat) (f : ClassCell → ClassCell) : Store :=
  { s with classes := s.classes.modify r f }

def addScope (s : Store) (c : Scope) : Nat × Store :=
  (s.scopes.size, { s with scopes := s.scopes.push c })

def addFrame (s : Store) (f : Frame) : Nat × Store :=
  (s.frames.size, { s with frames := s.frames.push f })

def addObject (s : Store) (o : ObjectCell) : Value × Store :=
  (.object s.objects.size, { s with objects := s.objects.push o })

def addArray (s : Store) (items : Array Value) : Value × Store :=
  (.array s.arrays.size, { s with arrays := s.arrays.push items })

/-- An array of items that were put together, however many. -/
def gather (s : Store) (items : Array Value) : Value × Store :=
  { s with gathered := max s.gathered items.size }.addArray items

def extend (s : Store) (r : Nat) (items : Array Value) : Store :=
  { s with gathered := max s.gathered ((s.array r).size + items.size) }.setArray r (· ++ items)

def addFunction (s : Store) (f : FunctionCell) : Value × Store :=
  (.function s.functions.size, { s with functions := s.functions.push f })

def addClass (s : Store) (c : ClassCell) : Nat × Store :=
  (s.classes.size, { s with classes := s.classes.push c })

def hold (s : Store) (vs : List Value) : Store := { s with held := vs :: s.held }

def release (s : Store) : Store := { s with held := [] }

def addHost (s : Store) (path : String) : Value × Store :=
  (.host s.hosts path, { s with hosts := s.hosts + 1 })

end Store

end Typings
