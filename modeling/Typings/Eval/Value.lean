import Typings.Syntax.Basic

namespace Typings

/--
A value. Arrays, objects, functions and classes are references into the store, so two of them are the
same only when they were made by the same step.
-/
inductive Value
  | undefined
  | null
  | boolean (b : Bool)
  | number (x : Float)
  | string (s : String)
  | array (ref : Nat)
  | object (ref : Nat)
  | function (ref : Nat)
  | classOf (ref : Nat)
  /-- Something of the host, known only by the path it was reached by. `ref` tells two readings apart. -/
  | host (ref : Nat) (path : String)
deriving DecidableEq, Inhabited

namespace Value

def isUndefined : Value → Bool
  | undefined => true
  | _ => false

def isNullish : Value → Bool
  | undefined | null => true
  | _ => false

def isCallable : Value → Bool
  | function _ | classOf _ | host .. => true
  | _ => false

def class? : Value → Option Nat
  | classOf c => some c
  | _ => none

def typeName : Value → String
  | undefined => "undefined"
  | null => "object"
  | boolean _ => "boolean"
  | number _ => "number"
  | string _ => "string"
  | function _ | classOf _ => "function"
  | array _ | object _ | host .. => "object"

def isTruthy : Value → Bool
  | undefined | null => false
  | boolean b => b
  | number x => x != 0.0 && !x.isNaN
  | string s => !s.isEmpty
  | _ => true

def strictEquals : Value → Value → Bool
  | undefined, undefined | null, null => true
  | boolean a, boolean b => a == b
  | number a, number b => a == b
  | string a, string b => a == b
  | array a, array b => a == b
  | object a, object b => a == b
  | function a, function b => a == b
  | classOf a, classOf b => a == b
  | host a _, host b _ => a == b
  | _, _ => false

/-- As `===`, but a NaN is the same as a NaN. -/
def sameValueZero : Value → Value → Bool
  | number a, number b => (a.isNaN && b.isNaN) || a == b
  | a, b => a.strictEquals b

/-- Values that `+` adds as numbers. -/
def isNumeric : Value → Bool
  | undefined | null | boolean _ | number _ => true
  | _ => false

end Value

/-- What a property holds: a value, or the two halves of an accessor. -/
inductive Slot
  | data (value : Value)
  | accessor (get set : Option Value)
deriving DecidableEq, Inhabited

structure Property where
  slot : Slot
  enumerable : Bool
deriving DecidableEq, Inhabited

namespace Property

def data (v : Value) : Property := ⟨.data v, true⟩

def hidden (v : Value) : Property := ⟨.data v, false⟩

end Property

end Typings
