import Typings.Eval.Expression
import Typings.Syntax.Statement

namespace Typings

inductive Completion
  | normal
  | returned (value : Value)
deriving DecidableEq, Inhabited

namespace Statement

mutual

/-- Names that `var` declares in a statement, its blocks and branches. -/
def varNames : Statement → List String
  | declaration .var ds _ => ds.map (·.1)
  | block ss _ => varNamesAll ss
  | branch _ consequent alternate _ => varNames consequent ++ varNamesElse alternate
  | _ => []

def varNamesAll : List Statement → List String
  | [] => []
  | s :: ss => varNames s ++ varNamesAll ss

def varNamesElse : Option Statement → List String
  | none => []
  | some s => varNames s

end

end Statement

namespace EvalM

def declareVar (scope : Nat) (name : String) : EvalM Unit :=
  modify fun s => if s.binds name scope then s else s.declare scope name .undefined

/-- Declare a function, and where `vars` says so the names of `var`, ahead of execution. -/
def hoistStatement (scope : Nat) (vars : Bool) : Statement → EvalM Unit
  | .function body => do
    if let some name := body.name then
      let f ← newFunction body scope none
      modify (·.declare scope name f)
  | s => if vars then s.varNames.forM (declareVar scope) else return ()

def hoist (scope : Nat) (vars : Bool) (ss : List Statement) : EvalM Unit :=
  ss.forM (hoistStatement scope vars)

/-- Write to the nearest binding of a name, or make one. -/
def writeVar (scope : Nat) (name : String) (v : Value) : EvalM Unit := do
  match (← get).assignmentScope scope name with
  | .ok r => modify (·.declare r name v)
  | .error _ => modify (·.declare scope name v)

/-- Give a variable its value. `var` without one writes only where the name has none. -/
def bindVariable (scope : Nat) (kind : VariableKind) (name : String) (initialized : Bool)
    (v : Value) : EvalM Unit :=
  match kind with
  | .lexical => modify (·.declare scope name v)
  | .constant => modify (·.declareConstant scope name v)
  | .var =>
    if initialized then writeVar scope name v
    else do if (← lookup scope name).isNone then writeVar scope name v

def declarations (m : Machine) (scope : Nat) (kind : VariableKind) :
    List (String × Option Expr) → EvalM Unit
  | [] => return ()
  | (name, init) :: rest => do
    let v ← fieldValue m scope name init
    bindVariable scope kind name init.isSome v
    declarations m scope kind rest

mutual

def exec (m : Machine) (scope : Nat) : Statement → EvalM Completion
  | .declaration kind ds _ => do
    declarations m scope kind ds
    return .normal
  | .function _ | .empty _ => return .normal
  | .classOf body => do
    let c ← classValue m scope none body
    modify fun s => s.declare scope (s.classCell c).name (.classOf c)
    return .normal
  | .expression e _ => do
    discard (eval m scope e)
    return .normal
  | .returns none _ => return .returned .undefined
  | .returns (some e) _ => return .returned (← eval m scope e)
  | .branch condition consequent alternate _ => do
    if (← eval m scope condition).isTruthy then exec m scope consequent
    else execElse m scope alternate
  | .block ss _ => do
    let inner ← make fun s => s.addScope (s.inside scope)
    inScope inner do
      hoist inner false ss
      execAll m inner ss
  | .throws e _ => do throw (.thrown (← eval m scope e))
  | .unsupported construct _ => fail (.statement construct)

def execAll (m : Machine) (scope : Nat) : List Statement → EvalM Completion
  | [] => return .normal
  | s :: ss => do
    match ← exec m scope s with
    | .returned v => return .returned v
    | .normal => execAll m scope ss

def execElse (m : Machine) (scope : Nat) : Option Statement → EvalM Completion
  | none => return .normal
  | some s => exec m scope s

end

/-- What a parameter is bound to. `args` are those for it and the parameters behind it. -/
def parameterValue (m : Machine) (scope : Nat) (p : Param) (args : List Value) : EvalM Value :=
  if p.rest then make (·.gather args.toArray)
  else match args.headD .undefined, p.default? with
    | .undefined, some e => evalNamed m scope p.name e
    | v, _ => pure v

/-- Bind the parameters of a function in its scope. `args` are those for the parameters left. -/
def bindParams (m : Machine) (scope : Nat) : List Param → List Value → EvalM Unit
  | [], _ => return ()
  | p :: ps, args => do
    let v ← parameterValue m scope p args
    modify (·.declare scope p.name v)
    bindParams m scope ps args.tail

end EvalM

def ParseError.stop (e : ParseError) (name : String) : Stop :=
  match e.fault with
  | .exhausted => .exhausted
  | _ => .fault (.body name e.text)

namespace EvalM

def runBody (m : Machine) (name : String) (scope : Nat) : FunctionBody → EvalM Value
  | .concise e => eval m scope e
  | .block tokens _ =>
    match Statement.ofTokens tokens with
    | .error e => throw (e.stop name)
    | .ok ss => do
      hoist scope true ss
      match ← execAll m scope ss with
      | .returned v => return v
      | .normal => return .undefined

/-- Bind the parameters of a function and run it. Only an arrow has no name for its arguments. -/
def runFunction (m : Machine) (body : FunctionDef) (name : String) (scope : Nat)
    (args : List Value) : EvalM Value := do
  holding args (bindParams m scope body.params args)
  if body.isArrow then holding args (runBody m name scope body.body)
  else
    let v ← make (·.gather args.toArray)
    modify (·.declare scope "arguments" v)
    runBody m name scope body.body

end EvalM

end Typings
