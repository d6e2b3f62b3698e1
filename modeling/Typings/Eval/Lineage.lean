import Typings.Eval.Store

namespace Typings.Store

/-- A class and the classes it descends from, nearest first. A base that is no class ends the line. -/
def lineage (s : Store) (c : Nat) : List Nat :=
  match (s.classCell c).superclass with
  | .classOf p => if p < c then c :: lineage s p else [c]
  | _ => [c]
termination_by c

def root (s : Store) (c : Nat) : Value :=
  match (s.lineage c).getLast? with
  | some r => (s.classCell r).superclass
  | none => .undefined

def descendsFrom (s : Store) (c ancestor : Nat) : Bool := (s.lineage c).contains ancestor

/-- Whether a value is a class that descends from `ancestor`, or an instance of one. -/
def belongsTo (s : Store) (v : Value) (ancestor : Nat) : Bool :=
  match v with
  | .classOf c => s.descendsFrom c ancestor
  | .object r => (s.object r).class?.any (s.descendsFrom · ancestor)
  | _ => false

def hasHostBase (s : Store) (c : Nat) : Bool :=
  match s.root c with
  | .host .. => true
  | _ => false

/-- The parameters of the nearest constructor. -/
def classArity (s : Store) (c : Nat) : Nat :=
  (((s.lineage c).findSome? fun c => (s.classCell c).constructor?).map (·.arity)).getD 0

def sharedProperty? (s : Store) (c : Nat) (key : String) : Option Property :=
  (s.lineage c).findSome? fun c => (s.classCell c).shared.get? key

def staticProperty? (s : Store) (c : Nat) (key : String) : Option Property :=
  (s.lineage c).findSome? fun c => (s.classCell c).statics.get? key

def classText? (s : Store) (c : Nat) : Option String := do
  let source ← (s.classCell c).source
  let span := (s.classCell c).body.span
  slice? source.text span.start span.stop

end Typings.Store
