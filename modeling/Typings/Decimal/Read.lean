import Typings.Decimal.Binary

namespace Typings

def digitIn? (base : Nat) (c : Char) : Option Nat :=
  let v :=
    if '0' ≤ c ∧ c ≤ '9' then c.toNat - 48
    else if 'a' ≤ c ∧ c ≤ 'z' then c.toNat - 87
    else if 'A' ≤ c ∧ c ≤ 'Z' then c.toNat - 55
    else base
  if v < base then some v else none

def digitsIn? (base : Nat) (cs : List Char) : Option Nat :=
  cs.foldlM (fun acc c => (digitIn? base c).map (acc * base + ·)) 0

/-- An unsigned number below `bound`; a leading `+` is allowed, an empty run of digits is not. -/
def unsigned? (base bound : Nat) (cs : List Char) : Option Nat :=
  let digits := match cs with
    | '+' :: rest => rest
    | _ => cs
  if digits.isEmpty then none
  else (digitsIn? base digits).filter (· < bound)

def isDigit (c : Char) : Bool := '0' ≤ c && c ≤ '9'

def isHexDigit (c : Char) : Bool := (digitIn? 16 c).isSome

namespace Decimal

/--
The double nearest to `m * 10 ^ e`, where `m` has that many digits. Values far out of range are cut
short.
-/
def toFloat (negative : Bool) (m : Nat) (digits : Nat) (e : Int) : Float :=
  if m = 0 then nearestFloat negative 0 1
  else if 400 < e + digits then nearestFloat negative (Nat.pow 10 400) 1
  else if e + digits < -400 then nearestFloat negative 0 1
  else if e < 0 then nearestFloat negative m (Nat.pow 10 (-e).toNat)
  else nearestFloat negative (m * Nat.pow 10 e.toNat) 1

/-- The value of the digits of an exponent; once it is 65536 or more, no digit changes it. -/
def exponentDigits? (ds : List Char) : Option Nat :=
  ds.foldlM (fun n c => (digitIn? 10 c).map fun d => if n < 65536 then n * 10 + d else n) 0

/-- An exponent part: `e` or `E`, a sign, at least one digit. -/
def exponent? : List Char → Option Int
  | [] => some 0
  | c :: rest =>
    if c == 'e' || c == 'E' then
      let (negative, ds) := match rest with
        | '-' :: r => (true, r)
        | '+' :: r => (false, r)
        | r => (false, r)
      if ds.isEmpty then none
      else (exponentDigits? ds).map fun n => if negative then -(n : Int) else (n : Int)
    else none

def special? (cs : List Char) : Option Float :=
  let word := String.ofList (cs.map Char.toLower)
  if word == "inf" || word == "infinity" then some (1.0 / 0.0)
  else if word == "nan" then some (0.0 / 0.0)
  else none

/--
A decimal number: sign, digits with at most one point and at least one digit, exponent. The words
`inf`, `infinity` and `nan` are numbers too.
-/
def read? (cs : List Char) : Option Float :=
  let (negative, body) := match cs with
    | '-' :: r => (true, r)
    | '+' :: r => (false, r)
    | r => (false, r)
  match special? body with
  | some x => some (if negative then -x else x)
  | none => do
    let whole := body.takeWhile isDigit
    let rest := body.dropWhile isDigit
    let (frac, rest) := match rest with
      | '.' :: r => (r.takeWhile isDigit, r.dropWhile isDigit)
      | r => ([], r)
    if whole.isEmpty && frac.isEmpty then none
    let digits := (whole ++ frac).dropWhile (· == '0')
    let m ← digitsIn? 10 digits
    let e ← exponent? rest
    return toFloat negative m digits.length (e - frac.length)

end Decimal

end Typings
