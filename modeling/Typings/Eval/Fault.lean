import Typings.Eval.Value

namespace Typings

inductive FaultKind
  | type | reference | range | unsupported
deriving DecidableEq, Repr, Inhabited

inductive Fault
  | constantAssignment (name : String)
  | importAssignment (name : String)
  | notFunction (what : String)
  | notConstructor (what : String)
  | calledClass (name : String)
  | invalidSuperclass (what : String)
  | readOf (base key : String)
  | writeOf (base key : String)
  | getterOnly (key : String)
  | noKeysIn (key what : String)
  | noInstancesOf (what : String)
  | notIterable (what : String)
  | notString (what : String)
  | notArray (what : String)
  | invalidTarget
  | undefinedName (name : String)
  | thisBeforeSuper
  | missingSuper (className : String)
  | unexpectedSuper
  | repeatedSuper
  | callDepth
  | invalidLength
  | lengthLimit (length limit : Nat)
  | statement (construct : String)
  | body (function error : String)
deriving DecidableEq, Repr, Inhabited

namespace Fault

def kind : Fault → FaultKind
  | constantAssignment _ | importAssignment _ | notFunction _ | notConstructor _ | calledClass _
  | invalidSuperclass _ | readOf .. | writeOf .. | getterOnly _ | noKeysIn .. | noInstancesOf _
  | notIterable _ | notString _ | notArray _ | invalidTarget => .type
  | undefinedName _ | thisBeforeSuper | missingSuper _ | unexpectedSuper | repeatedSuper => .reference
  | callDepth | invalidLength | lengthLimit .. => .range
  | statement _ | body .. => .unsupported

def detail : Fault → String
  | constantAssignment n => "Assignment to constant variable '" ++ n ++ "'"
  | importAssignment n => "Assignment to imported binding '" ++ n ++ "'"
  | notFunction w => w ++ " is not a function"
  | notConstructor w => w ++ " is not a constructor"
  | calledClass n => "Class constructor " ++ n ++ " cannot be invoked without 'new'"
  | invalidSuperclass w => "Class extends value " ++ w ++ " is not a constructor or null"
  | readOf b k => "Cannot read properties of " ++ b ++ " (reading '" ++ k ++ "')"
  | writeOf b k => "Cannot set properties of " ++ b ++ " (setting '" ++ k ++ "')"
  | getterOnly k => "Cannot set property " ++ k ++ " which has only a getter"
  | noKeysIn k w => "Cannot use 'in' operator to search for '" ++ k ++ "' in " ++ w
  | noInstancesOf w => "Right-hand side of 'instanceof' is not callable: " ++ w
  | notIterable w => w ++ " is not iterable"
  | notString w => w ++ " is not a string"
  | notArray w => w ++ " is not an array"
  | invalidTarget => "Invalid assignment target"
  | undefinedName n => n ++ " is not defined"
  | thisBeforeSuper => "Must call super constructor in derived class before accessing 'this'"
  | missingSuper n => "Must call super constructor in derived class '" ++ n ++ "' before returning"
  | unexpectedSuper => "'super' keyword unexpected here"
  | repeatedSuper => "Super constructor may only be called once"
  | callDepth => "Maximum call stack size exceeded"
  | invalidLength => "Invalid array length"
  | lengthLimit n limit =>
    "Array length " ++ toString n ++ " exceeds the supported maximum of " ++ toString limit
  | statement c => "'" ++ c ++ "' statements are not evaluated"
  | body f e => "cannot parse body of '" ++ f ++ "': " ++ e

def message (f : Fault) : String :=
  let title := match f.kind with
    | .type => "TypeError: "
    | .reference => "ReferenceError: "
    | .range => "RangeError: "
    | .unsupported => "unsupported construct: "
  title ++ f.detail

end Fault

inductive Stop
  | fault (f : Fault)
  | thrown (v : Value)
  /-- Values were converted, and one of them leads to an array that holds itself. -/
  | circular (vs : List Value)
  /-- A value was converted for the length of an array that is locked until then, and leads to it. -/
  | locked (array : Nat) (v : Value)
  /-- A look-up that never ends, or calls beyond the levels that are there. -/
  | exhausted
deriving DecidableEq, Inhabited

inductive Breakdown
  | circular | locked | exhausted
deriving DecidableEq, Repr, Inhabited

def Breakdown.message : Breakdown → String
  | circular => "conversion does not end"
  | locked => "already mutably borrowed"
  | exhausted => "evaluation does not end"

namespace Stop

/-- An outcome of the program: a fault, or what it threw. -/
def isThrow : Stop → Bool
  | fault _ | thrown _ => true
  | _ => false

/-- Why a stop has no words. Those of a thrown value are missing when its conversion does not end. -/
def breakdown : Stop → Breakdown
  | locked .. => .locked
  | exhausted => .exhausted
  | _ => .circular

end Stop

end Typings
