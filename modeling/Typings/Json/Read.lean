import Typings.Decimal.Read
import Typings.Json.Basic

namespace Typings.JsonValue

def isSpace (c : Char) : Bool := c == ' ' || c == '\n' || c == '\r' || c == '\t'

def skipSpace (cs : List Char) : List Char := cs.dropWhile isSpace

def fourHex? (a b c d : Char) : Option Nat := do
  return (((← digitIn? 16 a) * 16 + (← digitIn? 16 b)) * 16 + (← digitIn? 16 c)) * 16 + (← digitIn? 16 d)

/-- The character of a code point, or of a pair of halves; a half alone is no character. -/
def scalar? (n : Nat) : Option Char := if n.isValidChar then some (Char.ofNat n) else none

def isHighHalf (n : Nat) : Bool := 0xd800 ≤ n && n < 0xdc00

def isLowHalf (n : Nat) : Bool := 0xdc00 ≤ n && n < 0xe000

def simpleEscape? : Char → Option Char
  | '"' => some '"'
  | '\\' => some '\\'
  | '/' => some '/'
  | 'b' => some '\x08'
  | 'f' => some '\x0c'
  | 'n' => some '\n'
  | 'r' => some '\r'
  | 't' => some '\t'
  | _ => none

/-- The character of an escape, from what follows its backslash, and how much of that it takes. -/
def escape? : List Char → Option (Char × Nat)
  | 'u' :: a :: b :: c :: d :: rest => do
    let n ← fourHex? a b c d
    if isHighHalf n then
      match rest with
      | '\\' :: 'u' :: a :: b :: c :: d :: _ =>
        let low ← fourHex? a b c d
        if isLowHalf low then return (← scalar? (0x10000 + (n - 0xd800) * 0x400 + (low - 0xdc00)), 11)
        else none
      | _ => none
    else return (← scalar? n, 5)
  | c :: _ => do return (← simpleEscape? c, 1)
  | [] => none

def stringBody? (cs : List Char) : Option (List Char × List Char) :=
  match cs with
  | [] => none
  | '"' :: rest => some ([], rest)
  | '\\' :: rest => do
    let (c, used) ← escape? rest
    let (body, rest) ← stringBody? (rest.drop used)
    return (c :: body, rest)
  | c :: rest =>
    if c.toNat < 0x20 then none
    else do
      let (body, rest) ← stringBody? rest
      return (c :: body, rest)
termination_by cs.length
decreasing_by
  · rw [List.length_drop, List.length_cons]
    omega
  · exact Nat.lt_succ_self _

def isDigit (c : Char) : Bool := '0' ≤ c && c ≤ '9'

def digits? (cs : List Char) : Option (List Char × List Char) :=
  match cs.span isDigit with
  | ([], _) => none
  | found => some found

/-- The digits before a point: a zero alone, or no zero first. -/
def wholeDigits? : List Char → Option (List Char × List Char)
  | '0' :: rest => some (['0'], rest)
  | cs => digits? cs

/-- The digits after a point, none without a point. -/
def fraction? : List Char → Option (List Char × List Char)
  | '.' :: rest => digits? rest
  | cs => some ([], cs)

def natOf (digits : List Char) : Nat := digits.foldl (fun n c => n * 10 + (c.toNat - '0'.toNat)) 0

def exponent? : List Char → Option (Int × List Char)
  | c :: rest =>
    if c == 'e' || c == 'E' then
      match rest with
      | '-' :: rest => (digits? rest).map fun (ds, rest) => (-(natOf ds : Int), rest)
      | '+' :: rest => (digits? rest).map fun (ds, rest) => ((natOf ds : Int), rest)
      | rest => (digits? rest).map fun (ds, rest) => ((natOf ds : Int), rest)
    else some (0, c :: rest)
  | [] => some (0, [])

/-- The number that goes on with digits as long as it fits into 64 bits, and how many digits are left. -/
def leading (n : Nat) : List Char → Nat × Nat
  | [] => (n, 0)
  | c :: cs =>
    let next := n * 10 + (c.toNat - '0'.toNat)
    if next < Nat.pow 2 64 then leading next cs else (n, cs.length + 1)

def maxPower : Nat := 308

def powerOfTen (k : Nat) : Float := floatOfInt (Nat.pow 10 k)

def shrink (x : Float) (k : Nat) : Float :=
  if k ≤ maxPower then x / powerOfTen k
  else if x == 0.0 then x
  else shrink (x / powerOfTen maxPower) (k - maxPower)
termination_by k
decreasing_by
  unfold maxPower at *
  omega

/-- `n · 10 ^ e` when both factors are taken as doubles; none when that is too large. -/
def scaled? (n : Nat) (e : Int) : Option Float :=
  if n == 0 then some 0.0
  else if e < 0 then some (shrink (floatOfInt n) e.natAbs)
  else if maxPower < e then none
  else (some (floatOfInt n * powerOfTen e.toNat)).filter (·.isFinite)

/--
A number without its sign, and what follows it. It counts with the digits that fit into 64 bits; those
left before the point are taken as zeros.
-/
def number? (cs : List Char) : Option (Float × List Char) := do
  let (whole, rest) ← wholeDigits? cs
  let (fraction, rest) ← fraction? rest
  let (e, rest) ← exponent? rest
  let (n, zeros) := leading 0 whole
  let (n, ignored) := leading n fraction
  return (← scaled? n (e + zeros - (fraction.length - ignored : Nat)), rest)

def double? (text : String) : Option Float :=
  match text.toList with
  | '-' :: cs => (number? cs).map fun (x, _) => -x
  | cs => (number? cs).map (·.1)

def textUpTo (cs rest : List Char) : String := String.ofList (cs.take (cs.length - rest.length))

def plain? (cs : List Char) : Option (JsonValue × List Char) :=
  match cs with
  | 'n' :: 'u' :: 'l' :: 'l' :: rest => some (null, rest)
  | 't' :: 'r' :: 'u' :: 'e' :: rest => some (boolean true, rest)
  | 'f' :: 'a' :: 'l' :: 's' :: 'e' :: rest => some (boolean false, rest)
  | '"' :: rest => do
    let (body, rest) ← stringBody? rest
    return (string (String.ofList body), rest)
  | '-' :: digits => (number? digits).map fun (_, rest) => (number (textUpTo cs rest), rest)
  | _ => (number? cs).map fun (_, rest) => (number (textUpTo cs rest), rest)

def key? : List Char → Option (String × List Char)
  | '"' :: rest => do
    let (body, rest) ← stringBody? rest
    match skipSpace rest with
    | ':' :: rest => return (String.ofList body, rest)
    | _ => none
  | _ => none

mutual

/-- A value, with a bound on the brackets inside each other. -/
def value? (depth : Nat) (cs : List Char) : Option (JsonValue × List Char) :=
  match depth, skipSpace cs with
  | depth + 1, '[' :: rest =>
    match skipSpace rest with
    | ']' :: rest => some (array [], rest)
    | rest => (items? depth rest).map fun (items, rest) => (array items, rest)
  | depth + 1, '\x7b' :: rest =>
    match skipSpace rest with
    | '\x7d' :: rest => some (object [], rest)
    | rest => (fields? depth rest).map fun (fields, rest) => (object fields, rest)
  | _, cs => plain? cs
termination_by (depth, cs.length, 0)

def items? (depth : Nat) (cs : List Char) : Option (List JsonValue × List Char) := do
  let (v, rest) ← value? depth cs
  match skipSpace rest with
  | ']' :: rest => return ([v], rest)
  | ',' :: rest =>
    if rest.length < cs.length then
      let (items, rest) ← items? depth rest
      return (v :: items, rest)
    else none
  | _ => none
termination_by (depth, cs.length, 1)

def fields? (depth : Nat) (cs : List Char) : Option (List (String × JsonValue) × List Char) := do
  let (key, rest) ← key? (skipSpace cs)
  if rest.length < cs.length then
    let (v, rest) ← value? depth rest
    match skipSpace rest with
    | '\x7d' :: rest => return ([(key, v)], rest)
    | ',' :: rest =>
      if rest.length < cs.length then
        let (fields, rest) ← fields? depth rest
        return ((key, v) :: fields, rest)
      else none
    | _ => none
  else none
termination_by (depth, cs.length, 1)

end

def maxDepth : Nat := 127

def read? (s : String) : Option JsonValue := do
  let (v, rest) ← value? maxDepth s.toList
  if (skipSpace rest).isEmpty then return v else none

/-- A field of an object; of two fields with one name, the last. -/
def field? (v : JsonValue) (key : String) : Option JsonValue :=
  match v with
  | object fields => fields.reverse.lookup key
  | _ => none

def asString? : JsonValue → Option String
  | string s => some s
  | _ => none

end Typings.JsonValue
