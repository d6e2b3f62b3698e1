import Typings.Eval.Program

namespace Typings

/-- The coarse shape of a value that is not a function. -/
inductive Shape
  | null | array | object | string | boolean | number
deriving DecidableEq, Repr, Inhabited

inductive Probe
  | function (arity : Nat)
  | value (shape : Shape)
  | absent
deriving DecidableEq, Repr, Inhabited

def lastPart (path : String) : String :=
  String.ofList (path.toList.reverse.takeWhile (· != '.')).reverse

namespace Store

def probeOf (s : Store) : Value → Probe
  | .function f => .function (s.function f).arity
  | .classOf c => .function (s.classArity c)
  | .undefined => .absent
  | .null => .value .null
  | .array _ => .value .array
  | .object _ | .host .. => .value .object
  | .string _ => .value .string
  | .boolean _ => .value .boolean
  | .number _ => .value .number

/-- The name of the class or host value that a class extends; of a host path, the last part. -/
def superclassName? (s : Store) (c : Nat) : Option String :=
  match (s.classCell c).superclass with
  | .classOf p => some (s.classCell p).name
  | .host _ path => some (lastPart path)
  | _ => none

/-- Names that instances of a class inherit from it directly, without the private ones. -/
def sharedNames (s : Store) (c : Nat) : List String :=
  (s.classCell c).shared.keys.filter fun k => !k.startsWith "#"

/-- The texts of a class and its ancestors that have one, nearest first. -/
def sourceTexts (s : Store) (c : Nat) : List String := (s.lineage c).filterMap s.classText?

/-- The items of an array; one that is no text is absent. -/
def stringList? (s : Store) : Value → Option (List (Option String))
  | .array r => some <| (s.array r).toList.map fun
    | .string t => some t
    | _ => none
  | _ => none

end Store

namespace EvalM

/-- Run a step and show how it ended, if it has an outcome. -/
def attempt {α : Type} (step : EvalM α) : EvalM (Except Stop α) :=
  tryCatch (Except.ok <$> step) fun stop => if stop.isThrow then return .error stop else throw stop

/-- The names of a class's own properties whose values pass a test. -/
def staticsWhere (c : Nat) (test : Value → Bool) : List String → EvalM (List (String × Value))
  | [] => return []
  | key :: keys => do
    match ← attempt (getProperty .full (.classOf c) key) with
    | .ok v =>
      if test v then return (key, v) :: (← holding [v] (staticsWhere c test keys))
      staticsWhere c test keys
    | .error _ => staticsWhere c test keys

def numericStatics (c : Nat) : EvalM (List String) := do
  let isNumber := fun
    | Value.number _ => true
    | _ => false
  return (← staticsWhere c isNumber ((← get).ownKeys (.classOf c))).map (·.1)

def classStatics (c : Nat) : EvalM (List Nat) := do
  let found ← staticsWhere c (·.class?.isSome) ((← get).ownKeys (.classOf c))
  return (found.filterMap (·.2.class?)).eraseDups

end EvalM

structure Subject where
  classRef : Nat
  instance? : Option Value
deriving Inhabited

namespace Subject

/-- Look at a class through an instance that is made without arguments. -/
def ofClass (c : Nat) : EvalM Subject := do
  match ← EvalM.attempt (EvalM.construct .full (.classOf c) []) with
  | .ok v => return ⟨c, some v⟩
  | .error _ => return ⟨c, none⟩

/-- Own names of the instance, then names that the class gives to instances, each once. -/
def memberNames (t : Subject) : EvalM (List String) := do
  let s ← get
  let own := (t.instance?.map s.ownKeys).getD []
  return (own ++ s.sharedNames t.classRef).eraseDups

/--
Look at one member. Without an instance only values that the class holds are seen; an accessor is
refused.
-/
def probe (t : Subject) (name : String) : EvalM (Except String Probe) := do
  match t.instance? with
  | some v =>
    match ← EvalM.attempt (EvalM.getProperty .full v name) with
    | .ok found => return .ok ((← get).probeOf found)
    | .error stop => return .error (← EvalM.stopText stop)
  | none =>
    let s ← get
    match (s.classCell t.classRef).shared.get? name with
    | some ⟨.data v, _⟩ => return .ok (s.probeOf v)
    | some ⟨.accessor .., _⟩ => return .error ("accessor '" ++ name ++ "' needs an instance")
    | none => return .ok .absent

end Subject

end Typings
