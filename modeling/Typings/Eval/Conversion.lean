import Typings.Eval.Store
import Typings.Decimal.Read
import Typings.Decimal.Shortest
import Typings.Text.Character

namespace Typings

def markedDigits? (mark : Char) (cs : List Char) : Option (List Char) :=
  match cs with
  | '0' :: c :: digits => if c == mark || c == mark.toUpper then some digits else none
  | _ => none

def baseNumber (base : Nat) (digits : List Char) : Float :=
  match unsigned? base (Nat.pow 2 64) digits with
  | some n => floatOfInt n
  | none => 0.0 / 0.0

/-- The number that a text stands for, or NaN. A blank text is zero. -/
def numberOfText (s : String) : Float :=
  let cs := trim s.toList
  if cs.isEmpty then 0.0
  else if let some ds := markedDigits? 'x' cs then baseNumber 16 ds
  else if let some ds := markedDigits? 'b' cs then baseNumber 2 ds
  else if let some ds := markedDigits? 'o' cs then baseNumber 8 ds
  else
    let text := String.ofList cs
    if text == "Infinity" || text == "+Infinity" then 1.0 / 0.0
    else if text == "-Infinity" then -1.0 / 0.0
    else if cs.any fun c => isAsciiLetter c && c != 'e' && c != 'E' then 0.0 / 0.0
    else (Decimal.read? cs).getD (0.0 / 0.0)

namespace Value

def isNumberOrText : Value → Bool
  | number _ | string _ => true
  | _ => false

/-- What `==` writes as a text to compare it with a number or text. -/
def isContainer : Value → Bool
  | array _ | object _ => true
  | _ => false

/-- How often `==` may convert a value before it compares; a text that it converts to is compared. -/
def conversions : Value → Nat
  | boolean _ | array _ | object _ => 1
  | _ => 0

theorem conversions_pos {v : Value} (h : v.isContainer = true) : 0 < v.conversions := by
  cases v with
  | array r => exact Nat.one_pos
  | object r => exact Nat.one_pos
  | _ => cases h

end Value

namespace Store

def numberAt (s : Store) : Nat → Value → Option Float
  | _, .undefined => some (0.0 / 0.0)
  | _, .null => some 0.0
  | _, .boolean b => some (if b then 1.0 else 0.0)
  | _, .number x => some x
  | _, .string t => some (numberOfText t)
  | depth, .array r =>
    match (s.array r).toList, depth with
    | [], _ => some 0.0
    | [_], 0 => none
    | [v], depth + 1 => numberAt s depth v
    | _, _ => some (0.0 / 0.0)
  | _, _ => some (0.0 / 0.0)

def number? (s : Store) (v : Value) : Option Float := s.numberAt s.arrays.size v

/-- Whether the conversion of a value to a number looks into an array. -/
def looksInto (s : Store) (target : Nat) : Nat → Value → Bool
  | depth, .array r =>
    r == target || match (s.array r).toList, depth with
      | [v], depth + 1 => looksInto s target depth v
      | _, _ => false
  | _, _ => false

/-- The number for a value leads to an array. -/
def numberReads (s : Store) (v : Value) (target : Nat) : Bool := s.looksInto target s.arrays.size v

def number (s : Store) (v : Value) : Float := (s.number? v).getD (0.0 / 0.0)

def textAt (s : Store) : Nat → Value → Option String
  | _, .undefined => some "undefined"
  | _, .null => some "null"
  | _, .boolean b => some (if b then "true" else "false")
  | _, .number x => some (numberText x)
  | _, .string t => some t
  | depth, .array r =>
    match (s.array r).toList, depth with
    | [], _ => some ""
    | _ :: _, 0 => none
    | items, depth + 1 =>
      ",".intercalate <$> items.mapM fun v => if v.isNullish then some "" else textAt s depth v
  | _, .object _ => some "[object Object]"
  | _, .function f => some ("function " ++ (s.function f).name ++ "() \x7b [code] \x7d")
  | _, .classOf c => some ("class " ++ (s.classCell c).name ++ " \x7b \x7d")
  | _, .host _ path => some ("[host " ++ path ++ "]")

def text? (s : Store) (v : Value) : Option String := s.textAt s.arrays.size v

def text (s : Store) (v : Value) : String := (s.text? v).getD ""

/-- `==`, where the conversions it needs have results. -/
def looseEquals (s : Store) (a b : Value) : Option Bool :=
  if a.isNullish && b.isNullish then some true
  else if a.isNullish || b.isNullish then some false
  else match a, b with
    | .number x, .string t => some (x == numberOfText t)
    | .string t, .number y => some (numberOfText t == y)
    | .boolean p, b => s.looseEquals (.number (bif p then 1.0 else 0.0)) b
    | a, .boolean q => s.looseEquals a (.number (bif q then 1.0 else 0.0))
    | a, b =>
      if a.isContainer && b.isNumberOrText then do s.looseEquals (.string (← s.text? a)) b
      else if a.isNumberOrText && b.isContainer then do s.looseEquals a (.string (← s.text? b))
      else some (a.strictEquals b)
termination_by a.conversions + b.conversions
decreasing_by
  · simp [Value.conversions]
  · simp [Value.conversions]
  · have ha := Value.conversions_pos (Bool.and_eq_true_iff.1 ‹_›).1
    simpa [Value.conversions] using ha
  · have hb := Value.conversions_pos (Bool.and_eq_true_iff.1 ‹_›).2
    simpa [Value.conversions] using hb

end Store

end Typings
