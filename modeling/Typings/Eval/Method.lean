import Typings.Eval.Access
import Typings.Text.Character

namespace Typings

/-- A position in a sequence of `len` items; a negative one counts from the end. -/
def relativeIndex (x : Float) (len : Nat) : Nat :=
  if x ≤ -1.0 then len - floatToNat len (-x) else floatToNat len x

def dropSigns (cs : List Char) : List Char := cs.dropWhile fun c => c == '-' || c == '+'

/-- The digits at the start of a text as a number, `radix` 0 standing for ten. -/
def parseInteger (text : String) (radix : Nat) : Float :=
  let cs := trim text.toList
  let negative := cs.head? == some '-'
  let cs := dropSigns cs
  let radix := if radix = 0 then 10 else radix
  let (cs, radix) := match markedDigits? 'x' cs with
    | some rest => if radix = 16 || radix = 10 then (rest, 16) else (cs, radix)
    | none => (cs, radix)
  if radix < 2 || 36 < radix then 0.0 / 0.0
  else
    match (cs.map (digitIn? radix)).takeWhile (·.isSome) with
    | [] => 0.0 / 0.0
    | digits =>
      let value := digits.foldl
        (fun acc d => acc * floatOfInt radix + floatOfInt (d.getD 0)) (0.0 : Float)
      if negative then -value else value

/-- The longest start of a text that is a decimal number. -/
def parseDecimal (text : String) : Float :=
  let cs := trimStart text.toList
  let infinity := "Infinity".toList
  if infinity.isPrefixOf cs || ('+' :: infinity).isPrefixOf cs then 1.0 / 0.0
  else if ('-' :: infinity).isPrefixOf cs then -1.0 / 0.0
  else
    let candidate := cs.takeWhile fun c =>
      isDigit c || c == '.' || c == 'e' || c == 'E' || c == '+' || c == '-'
    let starts := (List.range candidate.length).reverse.map fun n => candidate.take (n + 1)
    (starts.findSome? Decimal.read?).getD (0.0 / 0.0)

def findText (needle : List Char) (before : Nat) (cs : List Char) : Option Nat :=
  if needle.isPrefixOf cs then some before
  else match cs with
    | [] => none
    | _ :: rest => findText needle (before + 1) rest

def between {α : Type} (start stop : Nat) (items : List α) : List α := (items.take stop).drop start

namespace EvalM

def argument (args : List Value) (i : Nat) : Value := args.getD i .undefined

def receiverText (v : Value) : EvalM String := do
  match v with
  | .string s => return s
  | _ => fail (.notString (← textOf v))

def receiverArray (v : Value) : EvalM Nat := do
  match v with
  | .array r => return r
  | _ => fail (.notArray (← textOf v))

/-- An argument as a position, `default` when it is absent. -/
def position (v : Value) (len default : Nat) : EvalM Nat := do
  if v.isUndefined then return default
  return relativeIndex (← numberOf v) len

def slice {α : Type} (items : List α) (args : List Value) : EvalM (List α) := do
  let start ← position (argument args 0) items.length 0
  let stop ← position (argument args 1) items.length items.length
  return between start stop items

/--
Call a function on every item of an array as it was at the start, with item, position and array. What
`pick` takes from an item and its result is found, latest first.
-/
def eachItem (m : Machine) (callback array : Value) (pick : Value → Value → Option Value) :
    Nat → List Value → List Value → EvalM (List Value)
  | _, found, [] => return found
  | i, found, item :: rest => do
    let result ← holding found <| holding (item :: rest) <|
      callValue m callback .undefined [item, .number (floatOfInt i), array]
    eachItem m callback array pick (i + 1) ((pick item result).toList ++ found) rest

/-- Call the first argument on every item of the receiver, and list what `pick` takes. -/
def visit (m : Machine) (this : Value) (args : List Value) (pick : Value → Value → Option Value) :
    EvalM (List Value) := do
  let r ← receiverArray this
  let items := ((← get).array r).toList
  let callback := argument args 0
  unless callback.isCallable do fail (.notFunction (← textOf callback))
  return (← eachItem m callback this pick 0 [] items).reverse

def newArray (items : List Value) : EvalM Value := make (·.addArray items.toArray)

def runBuiltin (m : Machine) (b : Builtin) (this : Value) (args : List Value) : EvalM Value := do
  match b with
  | .parseInt =>
    let text ← textOf (argument args 0)
    let radix := argument args 1
    if radix.isUndefined then return .number (parseInteger text 10)
    return .number (parseInteger text (floatToNat (Nat.pow 2 32 - 1) (← numberOf radix)))
  | .parseFloat => return .number (parseDecimal (← textOf (argument args 0)))
  | .isNaN => return .boolean (← numberOf (argument args 0)).isNaN
  | .charAt =>
    let s ← receiverText this
    let i := floatToNat (Nat.pow 2 64 - 1) (← numberOf (argument args 0))
    return .string (String.ofList (s.toList[i]?).toList)
  | .textIndexOf =>
    let s ← receiverText this
    let needle ← textOf (argument args 0)
    return .number <| match findText needle.toList 0 s.toList with
      | some i => floatOfInt i
      | none => -1.0
  | .textIncludes =>
    let s ← receiverText this
    let needle ← textOf (argument args 0)
    return .boolean (findText needle.toList 0 s.toList).isSome
  | .startsWith =>
    let s ← receiverText this
    let start ← textOf (argument args 0)
    return .boolean (start.toList.isPrefixOf s.toList)
  | .endsWith =>
    let s ← receiverText this
    let stop ← textOf (argument args 0)
    return .boolean (stop.toList.isSuffixOf s.toList)
  | .textSlice => return .string (String.ofList (← slice (← receiverText this).toList args))
  | .toUpperCase => return .string (String.ofList (toCapitals (← receiverText this).toList))
  | .toLowerCase => return .string (String.ofList (toSmall (← receiverText this).toList))
  | .trim => return .string (trimText (← receiverText this))
  | .toText => return .string (← receiverText this)
  | .push =>
    let r ← receiverArray this
    modify (·.extend r args.toArray)
    return .number (floatOfInt ((← get).array r).size)
  | .pop =>
    let r ← receiverArray this
    let last := ((← get).array r).back?
    modify (·.setArray r Array.pop)
    return last.getD .undefined
  | .arrayIndexOf =>
    let r ← receiverArray this
    return .number <| match ((← get).array r).findIdx? (·.strictEquals (argument args 0)) with
      | some i => floatOfInt i
      | none => -1.0
  | .arrayIncludes =>
    let r ← receiverArray this
    return .boolean (((← get).array r).any (·.sameValueZero (argument args 0)))
  | .join =>
    let r ← receiverArray this
    let separator ← if (argument args 0).isUndefined then pure "," else textOf (argument args 0)
    let texts ← ((← get).array r).toList.mapM fun v => if v.isNullish then pure "" else textOf v
    return .string (separator.intercalate texts)
  | .arraySlice =>
    let r ← receiverArray this
    newArray (← slice ((← get).array r).toList args)
  | .concat =>
    let r ← receiverArray this
    let s ← get
    let items := (s.array r).toList ++ args.flatMap fun
      | .array r => (s.array r).toList
      | v => [v]
    make (·.gather items.toArray)
  | .map => newArray (← visit m this args fun _ result => some result)
  | .filter =>
    newArray (← visit m this args fun item result => if result.isTruthy then some item else none)
  | .forEach =>
    discard (visit m this args fun _ _ => none)
    return .undefined

end EvalM

end Typings
