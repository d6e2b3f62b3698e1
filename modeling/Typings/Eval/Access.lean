import Typings.Eval.Machine

namespace Typings

/-- Largest number of elements an array may be said to have. -/
def maxArrayLength : Nat := Nat.pow 2 32 - 1

/-- Every element up to the length is stored, so growth past this is refused. -/
def maxDenseLength : Nat := Nat.pow 2 24

/-- The whole number that a key is written as. -/
def indexOfKey? (key : String) : Option Nat := unsigned? 10 (Nat.pow 2 64) key.toList

def textLength (s : String) : Nat :=
  s.toList.foldl (fun n c => if c.toNat < 0x10000 then n + 1 else n + 2) 0

/-- The first `n` elements, filled up with `undefined`. -/
def resize (items : Array Value) (n : Nat) : Array Value :=
  if n ≤ items.size then items.take n else items ++ Array.replicate (n - items.size) .undefined

namespace EvalM

def builtin (b : Builtin) : EvalM Value := make (·.addFunction { name := b.name, code := .builtin b })

/-- The method of a name, a new function at every reading. -/
def method (methods : List Builtin) (key : String) : EvalM Value :=
  match methods.find? (·.name == key) with
  | some b => builtin b
  | none => return .undefined

def textProperty (s key : String) : EvalM Value :=
  if key == "length" then return .number (floatOfInt (textLength s))
  else match indexOfKey? key with
    | some i => return match s.toList[i]? with
      | some c => .string c.toString
      | none => .undefined
    | none => method Builtin.textMethods key

def arrayProperty (items : Array Value) (key : String) : EvalM Value :=
  if key == "length" then return .number (floatOfInt items.size)
  else match indexOfKey? key with
    | some i => return items.getD i .undefined
    | none => method Builtin.arrayMethods key

def readSlot (m : Machine) (slot : Slot) (receiver : Value) : EvalM Value :=
  match slot with
  | .data v => return v
  | .accessor (some getter) _ => holding [receiver] (callValue m getter receiver [])
  | .accessor none _ => return .undefined

/-- What a class line ends with when no class of it has the key. -/
def rootProperty (c : Nat) (key : String) : EvalM Value := do
  match (← get).root c with
  | .host _ path => make (·.addHost (path ++ "." ++ key))
  | _ => return .undefined

def sharedGet (m : Machine) (c : Nat) (key : String) (receiver : Value) : EvalM Value := do
  if key == "constructor" then return .classOf c
  match (← get).sharedProperty? c key with
  | some p => readSlot m p.slot receiver
  | none => rootProperty c key

/-- A property of a class itself. Its name, length and prototype stand before what it inherits. -/
def staticGet (m : Machine) (c : Nat) (key : String) (receiver : Value) : EvalM Value := do
  let s ← get
  match (s.classCell c).statics.get? key with
  | some p => readSlot m p.slot receiver
  | none =>
    if key == "name" then return .string (s.classCell c).name
    if key == "length" then return .number (floatOfInt (s.classArity c))
    if key == "prototype" then return ← make (·.addHost ((s.classCell c).name ++ ".prototype"))
    match s.staticProperty? c key with
    | some p => readSlot m p.slot receiver
    | none => rootProperty c key

def getProperty (m : Machine) (base : Value) (key : String) : EvalM Value := do
  let s ← get
  match base with
  | .undefined | .null => fail (.readOf (s.text base) key)
  | .boolean _ | .number _ => return .undefined
  | .string t => textProperty t key
  | .array r => arrayProperty (s.array r) key
  | .object r =>
    match (s.object r).props.get? key, (s.object r).class? with
    | some p, _ => readSlot m p.slot base
    | none, some c => sharedGet m c key base
    | none, none => return .undefined
  | .function r =>
    match (s.function r).props.get? key with
    | some p => readSlot m p.slot base
    | none =>
      if key == "name" then return .string (s.function r).name
      if key == "length" then return .number (floatOfInt (s.function r).arity)
      return .undefined
  | .classOf c => staticGet m c key base
  | .host _ path => make (·.addHost (path ++ "." ++ key))

def denseLength (n : Nat) : EvalM Nat :=
  if n ≤ maxDenseLength then return n else fail (.lengthLimit n maxDenseLength)

/-- The number that a value is as a length. The array that it is for cannot be read until then. -/
def lengthOf (r : Nat) (v : Value) : EvalM Float := do
  if (← get).numberReads v r then throw (.locked r v) else numberOf v

/-- Write an element or the length of an array; a key that is neither is dropped. -/
def setElement (r : Nat) (key : String) (v : Value) : EvalM Unit := do
  if key == "length" then
    let x ← lengthOf r v
    unless 0.0 ≤ x && x ≤ floatOfInt maxArrayLength && (Binary.ofFloat x).isIntegral do
      fail .invalidLength
    let n ← denseLength (floatToNat maxArrayLength x)
    modify (·.setArray r (resize · n))
  else if let some i := indexOfKey? key then
    if i < maxArrayLength then
      discard (denseLength (i + 1))
      modify (·.setArray r fun items =>
        (if i < items.size then items else resize items (i + 1)).modify i fun _ => v)

def callSetter (m : Machine) (setter base v : Value) : EvalM Unit :=
  discard (holding [base] (callValue m setter base [v]))

def writeThrough (m : Machine) (setter : Option Value) (base : Value) (key : String) (v : Value) :
    EvalM Unit :=
  match setter with
  | some f => callSetter m f base v
  | none => fail (.getterOnly key)

def setProperty (m : Machine) (base : Value) (key : String) (v : Value) : EvalM Unit := do
  let s ← get
  match base with
  | .undefined | .null => fail (.writeOf (s.text base) key)
  | .object r =>
    let found := (s.object r).props.get? key <|> do s.sharedProperty? (← (s.object r).class?) key
    match found with
    | some ⟨.accessor _ setter, _⟩ => writeThrough m setter base key v
    | _ => set (s.setObject r fun o => { o with props := o.props.insert key (.data v) })
  | .array r => setElement r key v
  | .function r => set (s.setFunction r fun f => { f with props := f.props.insert key (.data v) })
  | .classOf c =>
    match s.staticProperty? c key with
    | some ⟨.accessor _ (some setter), _⟩ => callSetter m setter base v
    | _ => set (s.setClass c fun c => { c with statics := c.statics.insert key (.data v) })
  | .host .. | .boolean _ | .number _ | .string _ => return ()

def hasProperty (base : Value) (key : String) : EvalM Bool := do
  let s ← get
  match base with
  | .object r =>
    return (s.object r).props.contains key
      || (((s.object r).class?.bind (s.sharedProperty? · key)).isSome)
  | .array r => return key == "length" || (indexOfKey? key).any (· < (s.array r).size)
  | .classOf c => return (s.staticProperty? c key).isSome
  | .function f => return (s.function f).props.contains key
  | .host .. => return true
  | _ => fail (.noKeysIn key (s.text base))

def deleteProperty (base : Value) (key : String) : EvalM Unit := do
  let s ← get
  match base with
  | .object r => set (s.setObject r fun o => { o with props := o.props.erase key })
  | .classOf c => set (s.setClass c fun c => { c with statics := c.statics.erase key })
  | .array r =>
    if let some i := indexOfKey? key then
      set (s.setArray r (·.modify i fun _ => .undefined))
  | _ => return ()

end EvalM

/-- Own keys that a listing shows, in the order of insertion. Private names are left out. -/
def Store.ownKeys (s : Store) (v : Value) : List String :=
  let keys := match v with
    | .object r => (s.object r).props.enumerableKeys
    | .classOf c => (s.classCell c).statics.enumerableKeys
    | .function f => (s.function f).props.enumerableKeys
    | .array r => (List.range (s.array r).size).map toString
    | _ => []
  keys.filter fun k => !k.startsWith "#"

end Typings
