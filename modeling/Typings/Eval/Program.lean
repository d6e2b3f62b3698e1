import Typings.Eval.Statement
import Typings.Eval.Method

namespace Typings

namespace EvalM

def frameScope (env : Nat) (frame : Frame) : EvalM (Nat × Nat) := do
  let f ← make (·.addFrame frame)
  let scope ← make fun s => s.addScope { s.inside env with frame := some f }
  return (f, scope)

/-- The scope of a call; an arrow sees the frame of the place where it was made. -/
def callScope (body : FunctionDef) (env : Nat) (home : Option Nat) (this : Value) : EvalM Nat := do
  if body.isArrow then make fun s => s.addScope (s.inside env)
  else return (← frameScope env { receiver := some this, home }).2

def callFunction (m : Machine) (f : Nat) (this : Value) (args : List Value) : EvalM Value :=
  asCall <| holding [.function f] do
    let cell := (← get).function f
    match cell.code with
    | .builtin b => holding (this :: args) (runBuiltin m b this args)
    | .script body env home =>
      let scope ← callScope body env home this
      inScope scope (runFunction m body cell.name scope args)

def addFields (m : Machine) (scope : Nat) (object : Value) :
    List (String × Option Expr) → EvalM Unit
  | [] => return ()
  | (name, init) :: rest => do
    let v ← fieldValue m scope name init
    setOwn object (·.insert name (.data v))
    addFields m scope object rest

def noteFields (c : Nat) (object : Value) : EvalM Unit :=
  match object with
  | .object r => modify (·.setObject r fun o => { o with initialized := o.initialized ++ [c] })
  | _ => return ()

/-- Evaluate the fields of a class. They have a frame of their own, where `super(...)` is refused. -/
def initializeFields (m : Machine) (c : Nat) (this : Value) : EvalM Unit := do
  noteFields c this
  let cell := (← get).classCell c
  let (_, scope) ← frameScope cell.env { receiver := some this, home := some c }
  inScope scope <|
    addFields { m with superCall := fun _ _ => fail .unexpectedSuper } scope this cell.fields

/-- Run the constructor that a class extends on an object, then evaluate the fields of the class. -/
def constructSuper (m : Machine) (c : Nat) (this : Value) (args : List Value) : EvalM Unit := do
  match ((← get).classCell c).superclass with
  | .classOf parent =>
    m.build parent this args
    initializeFields m c this
  | .function f =>
    discard (m.call f this args)
    initializeFields m c this
  | _ => holding args (initializeFields m c this)

/-- Run the constructor that the class `c` itself has. It has to leave an object behind. -/
def runOwnConstructor (m : Machine) (c : Nat) (cell : ClassCell) (body : FunctionDef) (this : Value)
    (args : List Value) : EvalM Unit := do
  let (f, scope) ← frameScope cell.env
    { receiver := if cell.isDerived then none else some this
      pending := some this
      home := some c
      constructorOf := some c }
  discard (inScope scope (runFunction m body cell.name scope args))
  if ((← get).frame f).receiver.isNone then fail (.missingSuper cell.name)

/-- Run the constructor of a class on an object. Without one, the arguments go on to the parent. -/
def runConstructor (m : Machine) (c : Nat) (this : Value) (args : List Value) : EvalM Unit := do
  let cell := (← get).classCell c
  match cell.constructor? with
  | none => constructSuper m c this args
  | some body =>
    unless cell.isDerived do holding args (initializeFields m c this)
    runOwnConstructor m c cell body this args

def superCall (m : Machine) (scope : Nat) (args : List Value) : EvalM Unit := do
  let s ← get
  let some f := s.frameOf? scope | fail .unexpectedSuper
  let some c := (s.frame f).constructorOf | fail .unexpectedSuper
  if (s.frame f).receiver.isSome then fail .repeatedSuper
  let some this := (s.frame f).pending | fail .unexpectedSuper
  modify (·.enter f)
  constructSuper m c this args
  modify (·.bindFrame f this)

end EvalM

namespace Machine

def deeper (m : Machine) : Machine :=
  let calls : Machine :=
    { call := EvalM.callFunction m
      build := fun c this args => EvalM.asCall (EvalM.runConstructor m c this args)
      superCall := fun _ _ => EvalM.fail .unexpectedSuper }
  { calls with superCall := EvalM.superCall calls }

def levels : Nat → Machine
  | 0 => exhausted
  | n + 1 => (levels n).deeper

/-- A machine with enough levels for every program. -/
def full : Machine := levels (maxCallDepth + 1)

end Machine

def defaultBinding : String := "*default*"

namespace EvalM

def bindName (scope : Nat) (name? : Option String) (v : Value) : EvalM Value := do
  if let some name := name? then modify (·.declare scope name v)
  return v

/-- Evaluate a default export; a class or function with a name is bound to it too. -/
def defaultValue (m : Machine) (scope : Nat) : DefaultExport → EvalM Value
  | .classOf body => do
    bindName scope body.name (.classOf (← classValue m scope (some "default") body))
  | .function body => do bindName scope body.name (← newFunction body scope (some "default"))
  | .expression e => evalNamed m scope "default" e

def runItem (m : Machine) (scope : Nat) : ModuleItem → EvalM Unit
  | .importDecl _ | .exportNamed .. => return ()
  | .exportDefault value _ => do
    let v ← defaultValue m scope value
    modify (·.declareConstant scope defaultBinding v)
  | .exportDeclaration s | .statement s => discard (exec m scope s)

end EvalM

def Module.statements (m : Module) : List Statement :=
  m.items.filterMap fun
    | .statement s | .exportDeclaration s => some s
    | _ => none

namespace EvalM

def runModule (scope : Nat) (body : Module) : EvalM Unit := do
  hoist scope true body.statements
  body.items.forM (runItem .full scope)

def stopText : Stop → EvalM String
  | .fault f => return f.message
  | .thrown v => do return "uncaught exception: " ++ (← textOf v)
  | stop => throw stop

end EvalM

end Typings
