import Typings.Eval.Operation

namespace Typings

inductive Link
  | skipped
  | found (receiver value : Value)
deriving DecidableEq, Inhabited

/-- A chain that ended early is undefined. -/
def Link.value : Link → Value
  | skipped => .undefined
  | found _ v => v

inductive Place
  | name (n : String)
  | property (base : Value) (key : String)
  | superProperty (key : String)
deriving DecidableEq, Inhabited

def Place.values : Place → List Value
  | property base _ => [base]
  | name _ | superProperty _ => []

namespace Expr

def label : Expr → String
  | identifier n _ => n
  | this _ => "this"
  | member o p _ _ => o.label ++ "." ++ p
  | superMember p _ => "super." ++ p
  | call f _ _ _ => f.label ++ "(...)"
  | _ => "expression"

/-- The name that an assignment gives to a function or class without a name. -/
def givenName? : Expr → Option String
  | identifier n _ => some n
  | member _ p _ _ => some p
  | _ => none

def identifier? : Expr → Option String
  | identifier n _ => some n
  | _ => none

end Expr

namespace EvalM

def plain (v : Value) : Link := .found .undefined v

def valueOf (step : EvalM Link) : EvalM Value := return (← step).value

def lookup (scope : Nat) (name : String) : EvalM (Option Value) := do
  match (← get).search? scope name with
  | some found => return found
  | none => throw .exhausted

def nameValue (scope : Nat) (name : String) : EvalM Value := do
  match ← lookup scope name with
  | some v => return v
  | none => fail (.undefinedName name)

def assignName (scope : Nat) (name : String) (v : Value) : EvalM Unit := do
  match (← get).assignmentScope scope name with
  | .ok r => modify (·.declare r name v)
  | .error f => fail f

def receiver (scope : Nat) : EvalM Value := do
  let s ← get
  match s.frameOf? scope with
  | none => return .undefined
  | some f =>
    match (s.frame f).receiver with
    | some v => return v
    | none => fail .thisBeforeSuper

/-- `super.key`: the receiver, and what the parent of the running method's class has. -/
def superGet (m : Machine) (scope : Nat) (key : String) : EvalM Link := do
  let s ← get
  match (s.frameOf? scope).bind fun f => s.homeOf? (s.frame f) with
  | none => fail .unexpectedSuper
  | some home =>
    let this ← receiver scope
    match (s.classCell home).superclass with
    | .host _ path => return .found this (← make (·.addHost (path ++ "." ++ key)))
    | .classOf parent =>
      holding [.classOf home] do
        match this with
        | .classOf _ => return .found this (← staticGet m parent key this)
        | _ => return .found this (← sharedGet m parent key this)
    | _ => return .found this .undefined

def readPlace (m : Machine) (scope : Nat) : Place → EvalM Value
  | .name n => nameValue scope n
  | .property base key => getProperty m base key
  | .superProperty key => valueOf (superGet m scope key)

def writePlace (m : Machine) (scope : Nat) (v : Value) (place : Place) : EvalM Unit :=
  holding [v] do
    match place with
    | .name n => assignName scope n v
    | .property base key => setProperty m base key v
    | .superProperty key => setProperty m (← receiver scope) key v

def newFunction (body : FunctionDef) (scope : Nat) (given : Option String) : EvalM Value :=
  make (·.addFunction
    { name := (body.name <|> given).getD "", code := .script body scope none })

def spreadItems (v : Value) : EvalM (List Value) := do
  match v with
  | .array r => return ((← get).array r).toList
  | .string s => return s.toList.map fun c => .string c.toString
  | _ => fail (.notIterable (← textOf v))

def setOwn (object : Value) (f : PropertyMap → PropertyMap) : EvalM Unit :=
  match object with
  | .object r => modify (·.setObject r fun o => { o with props := f o.props })
  | _ => return ()

def copyProperties (m : Machine) (object source : Value) : List String → EvalM Unit
  | [] => return ()
  | key :: keys => do
    let v ← getProperty m source key
    setOwn object (·.insert key (.data v))
    copyProperties m object source keys

def callLink (m : Machine) (label : String) (optional : Bool) (args : EvalM (List Value)) :
    Link → EvalM Link
  | .skipped => return .skipped
  | .found receiver callee => do
    if optional && callee.isNullish then return .skipped
    unless callee.isCallable do fail (.notFunction label)
    return plain (← callValue m callee receiver (← holding [receiver, callee] args))

def memberLink (m : Machine) (optional : Bool) (key : EvalM String) : Link → EvalM Link
  | .skipped => return .skipped
  | .found _ base => do
    if optional && base.isNullish then return .skipped
    return .found base (← getProperty m base (← holding [base] key))

/-- Say what was not a constructor in the words of the expression. -/
def relabel {α : Type} (label : String) (step : EvalM α) : EvalM α :=
  tryCatch step fun
    | .fault f =>
      if f.kind = .type && f.detail.endsWith "is not a constructor" then fail (.notConstructor label)
      else fail f
    | stop => throw stop

def newLink (m : Machine) (label : String) (callee : EvalM Link) (args : EvalM (List Value)) :
    EvalM Link := do
  let constructor ← valueOf callee
  let args ← holding [constructor] args
  return plain (← relabel label (construct m constructor args))

def operatorLink (op : UnaryOp) (operand : EvalM Link) : EvalM Link :=
  return plain (← unary op (← valueOf operand))

/-- The type of an operand; a name that no scope declares has one too. -/
def typeofLink (scope : Nat) (name? : Option String) (operand : EvalM Link) : EvalM Link := do
  if let some n := name? then
    if (← lookup scope n).isNone then return plain (.string "undefined")
  operatorLink .typeof operand

def updateLink (m : Machine) (scope : Nat) (op : UpdateOp) (before : Bool) (place : Place) :
    EvalM Link := do
  let old ← numberOf (← readPlace m scope place)
  let new := match op with
    | .increment => old + 1.0
    | .decrement => old - 1.0
  writePlace m scope (.number new) place
  return plain (.number (if before then new else old))

def binaryLink (op : BinaryOp) (left right : EvalM Link) : EvalM Link := do
  let a ← valueOf left
  let b ← holding [a] (valueOf right)
  return plain (← binary op a b)

def logicalLink (op : LogicalOp) (left right : EvalM Link) : EvalM Link := do
  let a ← valueOf left
  if decides op a then return plain a
  return plain (← holding [a] (valueOf right))

def conditionalLink (test consequent alternate : EvalM Link) : EvalM Link := do
  if (← valueOf test).isTruthy then return plain (← valueOf consequent)
  return plain (← valueOf alternate)

def writeLink (m : Machine) (scope : Nat) (place : Place) (v : Value) : EvalM Link := do
  writePlace m scope v place
  return plain v

/-- Assign to a place; `value` takes the name that it gives to a function or class without one. -/
def assignLink (m : Machine) (scope : Nat) (op : AssignOp) (given : Option String)
    (value : Option String → EvalM Link) (place : Place) : EvalM Link := do
  match op with
  | .assign => writeLink m scope place (← holding place.values (valueOf (value given)))
  | .compound op =>
    let current ← readPlace m scope place
    let operand ← holding (current :: place.values) (valueOf (value none))
    writeLink m scope place (← binary op current operand)
  | .logical op =>
    let current ← readPlace m scope place
    if decides op current then return plain current
    writeLink m scope place (← holding (current :: place.values) (valueOf (value given)))

def checkSuperclass (v : Value) : EvalM Value := do
  match v with
  | .classOf _ | .host .. | .null => return v
  | .function f =>
    if ((← get).function f).isArrow then fail (.invalidSuperclass (← textOf v)) else return v
  | _ => fail (.invalidSuperclass (← textOf v))

/-- Add a method or accessor to a class; a field is not one. -/
def addMember (c : Nat) (env : Nat) (member : ClassMember) : EvalM Unit := do
  let key := member.name
  let put := fun (f : PropertyMap → PropertyMap) =>
    modify (·.setClass c fun cell =>
      if member.isStatic then { cell with statics := f cell.statics }
      else { cell with shared := f cell.shared })
  let method := fun body => make (·.addFunction { name := key, code := .script body env (some c) })
  match member.kind with
  | .method body =>
    let f ← method body
    put (·.insert key (.hidden f))
  | .getter body =>
    let f ← method body
    put (·.insertAccessor key (some f) none false)
  | .setter body =>
    let f ← method body
    put (·.insertAccessor key none (some f) false)
  | .field _ => return ()

/-- Make a class without its static fields. A class with a name sees itself under it. -/
def newClass (body : ClassDef) (superclass : Value) (scope : Nat) (given : Option String) :
    EvalM (Nat × Nat) := do
  let s ← get
  let env ← make (·.addScope (s.inside scope))
  let name := (body.name <|> given).getD ""
  let c ← make (·.addClass { name, superclass, body, env, source := s.sourceOf? scope })
  body.members.forM (addMember c env)
  if body.name.isSome then modify (·.declareConstant env name (.classOf c))
  return (c, env)

def staticScope (c env : Nat) : EvalM Nat := do
  let f ← make (·.addFrame { receiver := some (.classOf c), home := some c })
  make fun s => s.addScope { s.inside env with frame := some f }

mutual

/-- Evaluate an expression as a link of a chain; `given` names a function or class without a name. -/
def link (m : Machine) (scope : Nat) (given : Option String) : Expr → EvalM Link
  | .number x _ => return plain (.number x)
  | .string s _ => return plain (.string s)
  | .boolean b _ => return plain (.boolean b)
  | .null _ => return plain .null
  | .template parts _ => return plain (.string (← templateText m scope parts))
  | .identifier n _ => return plain (← nameValue scope n)
  | .this _ => return plain (← receiver scope)
  | .array elements _ => return plain (← make (·.gather (← elementValues m scope elements).toArray))
  | .object properties _ => do
    let object ← make (·.addObject {})
    holding [object] (addProperties m scope object properties)
    return plain object
  | .function body => return plain (← newFunction body scope given)
  | .classOf body => return plain (.classOf (← classValue m scope given body))
  | .member object key optional _ => do
    memberLink m optional (pure key) (← link m scope none object)
  | .index object index optional _ => do
    let key : EvalM String := do textOf (← valueOf (link m scope none index))
    memberLink m optional key (← link m scope none object)
  | .call callee args optional _ => do
    callLink m callee.label optional (argumentValues m scope args) (← link m scope none callee)
  | .superMember key _ => superGet m scope key
  | .new callee args _ =>
    newLink m callee.label (link m scope none callee) (argumentValues m scope args)
  | .superCall args _ => do
    m.superCall scope (← argumentValues m scope args)
    return plain .undefined
  | .unary .typeof operand _ => typeofLink scope operand.identifier? (link m scope none operand)
  | .unary .delete operand _ => do
    deleteAt m scope operand
    return plain (.boolean true)
  | .unary op operand _ => operatorLink op (link m scope none operand)
  | .update op before target _ => do updateLink m scope op before (← placeOf m scope target)
  | .binary op left right _ => binaryLink op (link m scope none left) (link m scope none right)
  | .logical op left right _ => logicalLink op (link m scope none left) (link m scope none right)
  | .conditional test consequent alternate _ =>
    conditionalLink (link m scope none test) (link m scope none consequent)
      (link m scope none alternate)
  | .assign op target value _ => do
    assignLink m scope op target.givenName? (fun given => link m scope given value)
      (← placeOf m scope target)
  | .sequence expressions _ => return plain (← lastValue m scope .undefined expressions)

def templateText (m : Machine) (scope : Nat) : List TemplateElement → EvalM String
  | [] => return ""
  | .text s :: parts => return s ++ (← templateText m scope parts)
  | .value e :: parts => do
    let s ← textOf (← valueOf (link m scope none e))
    return s ++ (← templateText m scope parts)

def elementValues (m : Machine) (scope : Nat) : List ArrayElement → EvalM (List Value)
  | [] => return []
  | .value e :: rest => do
    let v ← valueOf (link m scope none e)
    return v :: (← holding [v] (elementValues m scope rest))
  | .spread e :: rest => do
    let items ← spreadItems (← valueOf (link m scope none e))
    return items ++ (← holding items (elementValues m scope rest))
  | .hole :: rest => return .undefined :: (← elementValues m scope rest)

def argumentValues (m : Machine) (scope : Nat) : List Argument → EvalM (List Value)
  | [] => return []
  | .value e :: rest => do
    let v ← valueOf (link m scope none e)
    return v :: (← holding [v] (argumentValues m scope rest))
  | .spread e :: rest => do
    let items ← spreadItems (← valueOf (link m scope none e))
    return items ++ (← holding items (argumentValues m scope rest))

def lastValue (m : Machine) (scope : Nat) (last : Value) : List Expr → EvalM Value
  | [] => return last
  | e :: rest => do
    let v ← holding [last] (valueOf (link m scope none e))
    lastValue m scope v rest

def keyText (m : Machine) (scope : Nat) : PropertyKey → EvalM String
  | .named n => return n
  | .computed e => do textOf (← valueOf (link m scope none e))

def addProperties (m : Machine) (scope : Nat) (object : Value) : List ObjectProperty → EvalM Unit
  | [] => return ()
  | .value k e :: rest => do
    let key ← keyText m scope k
    let v ← valueOf (link m scope (some key) e)
    setOwn object (·.insert key (.data v))
    addProperties m scope object rest
  | .getter k body :: rest => do
    let key ← keyText m scope k
    let f ← newFunction body scope (some key)
    setOwn object (·.insertAccessor key (some f) none true)
    addProperties m scope object rest
  | .setter k body :: rest => do
    let key ← keyText m scope k
    let f ← newFunction body scope (some key)
    setOwn object (·.insertAccessor key none (some f) true)
    addProperties m scope object rest
  | .spread e :: rest => do
    let source ← valueOf (link m scope none e)
    copyProperties m object source ((← get).ownKeys source)
    addProperties m scope object rest

def placeOf (m : Machine) (scope : Nat) : Expr → EvalM Place
  | .identifier n _ => return .name n
  | .member object key _ _ => return .property (← valueOf (link m scope none object)) key
  | .index object index _ _ => do
    let base ← valueOf (link m scope none object)
    let key ← textOf (← holding [base] (valueOf (link m scope none index)))
    return .property base key
  | .superMember key _ => return .superProperty key
  | _ => fail .invalidTarget

def deleteAt (m : Machine) (scope : Nat) : Expr → EvalM Unit
  | .member object key _ _ => do deleteProperty (← valueOf (link m scope none object)) key
  | .index object index _ _ => do
    let base ← valueOf (link m scope none object)
    let key ← textOf (← holding [base] (valueOf (link m scope none index)))
    deleteProperty base key
  | _ => return ()

/-- Evaluate a class: its superclass, the class itself, then its static fields in order. -/
def classValue (m : Machine) (scope : Nat) (given : Option String) : ClassDef → EvalM Nat
  | ⟨name, superclass, constructor?, members, span⟩ => do
    let parent ← superclassValue m scope superclass
    let (c, env) ← newClass ⟨name, superclass, constructor?, members, span⟩ parent scope given
    let inner ← staticScope c env
    inScope inner (staticFields m c inner members)
    return c

def superclassValue (m : Machine) (scope : Nat) : Option Expr → EvalM Value
  | none => return .undefined
  | some e => do checkSuperclass (← valueOf (link m scope none e))

def staticFields (m : Machine) (c scope : Nat) : List ClassMember → EvalM Unit
  | [] => return ()
  | ⟨name, true, .field init⟩ :: rest => do
    let v ← fieldValue m scope name init
    modify (·.setClass c fun cell => { cell with statics := cell.statics.insert name (.data v) })
    staticFields m c scope rest
  | _ :: rest => staticFields m c scope rest

def fieldValue (m : Machine) (scope : Nat) (name : String) : Option Expr → EvalM Value
  | none => return .undefined
  | some e => valueOf (link m scope (some name) e)

end

def eval (m : Machine) (scope : Nat) (e : Expr) : EvalM Value := valueOf (link m scope none e)

def evalNamed (m : Machine) (scope : Nat) (name : String) (e : Expr) : EvalM Value :=
  valueOf (link m scope (some name) e)

end EvalM

end Typings
