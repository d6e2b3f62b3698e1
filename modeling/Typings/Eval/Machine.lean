import Typings.Eval.Scope
import Typings.Eval.Conversion
import Typings.Eval.Lifetime

namespace Typings

abbrev EvalM := ExceptT Stop (StateM Store)

namespace EvalM

def fail {α : Type} (f : Fault) : EvalM α := throw (.fault f)

def runFrom {α : Type} (s : Store) (step : EvalM α) : Except Stop α × Store := step s

def make {α : Type} (add : Store → α × Store) : EvalM α := modifyGet add

/-- The result of converting values. A conversion that does not end stops evaluation. -/
def converted {α : Type} (vs : List Value) (conversion : Store → Option α) : EvalM α := do
  match conversion (← get) with
  | some a => return a
  | none => throw (.circular vs)

def textOf (v : Value) : EvalM String := converted [v] (·.text? v)

def numberOf (v : Value) : EvalM Float := converted [v] (·.number? v)

end EvalM

def maxCallDepth : Nat := 128

/-- Run a step as a call: one more is running until it ends, however it ends. -/
def EvalM.asCall {α : Type} (step : EvalM α) : EvalM α := fun s =>
  if s.depth < maxCallDepth then
    let (result, s') := step { s with depth := s.depth + 1, deepest := max s.deepest (s.depth + 1) }
    (result, { s' with depth := s'.depth - 1 })
  else (.error (.fault .callDepth), s)

namespace EvalM

/-- Run a step with values at hand until it ends, however it ends. -/
def holding {α : Type} (vs : List Value) (step : EvalM α) : EvalM α := fun s =>
  let held := s.held
  let (result, s') := step { s with held := vs :: held }
  (result, { s' with held })

def inScope {α : Type} (scope : Nat) (step : EvalM α) : EvalM α := fun s =>
  let running := s.running
  let (result, s') := step { s with running := scope :: running }
  (result, { s' with running })

end EvalM

structure Machine where
  call : Nat → Value → List Value → EvalM Value
  build : Nat → Value → List Value → EvalM Unit
  superCall : Nat → List Value → EvalM Unit

/-- The machine without levels: nothing can be called. -/
def Machine.exhausted : Machine where
  call _ _ _ := throw .exhausted
  build _ _ _ := throw .exhausted
  superCall _ _ := throw .exhausted

namespace EvalM

def callValue (m : Machine) (callee receiver : Value) (args : List Value) : EvalM Value := do
  match callee with
  | .function f => m.call f receiver args
  | .classOf c => fail (.calledClass ((← get).classCell c).name)
  | .host _ path => make (·.addHost (path ++ "()"))
  | _ => fail (.notFunction (← textOf callee))

def construct (m : Machine) (callee : Value) (args : List Value) : EvalM Value := do
  match callee with
  | .classOf c =>
    let this ← make (·.addObject { class? := some c })
    holding [this] (m.build c this args)
    return this
  | .host _ path => make (·.addHost (path ++ "()"))
  | .function f =>
    if ((← get).function f).isConstructor then
      let this ← make (·.addObject {})
      match ← holding [this] (m.call f this args) with
      | .object r => return .object r
      | .array r => return .array r
      | _ => return this
    else fail (.notConstructor (← textOf callee))
  | _ => fail (.notConstructor (← textOf callee))

end EvalM

end Typings
