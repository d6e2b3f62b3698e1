import Typings.Decimal.Binary

namespace Typings

/-- The value `0.d₁d₂… * 10 ^ point`. -/
structure Digits where
  digits : List Nat
  point : Int
deriving DecidableEq, Repr, Inhabited

namespace Decimal

/-- Decimal digits of `n`, most significant first; none for zero. -/
def digitsOf (n : Nat) : List Nat :=
  if n = 0 then [] else digitsOf (n / 10) ++ [n % 10]

/-- The power with `10 ^ (p - 1) ≤ num / den < 10 ^ p`, searched upwards from a first guess. -/
def pointOf (num den : Nat) : Int :=
  if den ≤ num then ((digitsOf (num / den)).length : Int)
  else
    -- `num / den < 1`: count the zeros after the decimal point
    let zeros := (digitsOf (den / num)).length - 1
    if den ≤ num * Nat.pow 10 zeros then -(zeros : Int) + 1 else -(zeros : Int)

def scale (num den : Nat) (power : Int) : Nat × Nat :=
  if power < 0 then (num, den * Nat.pow 10 (-power).toNat) else (num * Nat.pow 10 power.toNat, den)

/--
The `n` digit decimal inside the rounding interval that lies nearest to the value, if there is one.
All quantities are over the same denominator `den`; of two equally near the larger is taken.
-/
def within (low value high den : Nat) (closed : Bool) (point : Int) (n : Nat) : Option Nat :=
  let (v, d) := scale value den ((n : Int) - point)
  let (lo, _) := scale low den ((n : Int) - point)
  let (hi, _) := scale high den ((n : Int) - point)
  let down := v / d
  let up := down + 1
  let downHit := lo < down * d || (closed && lo == down * d)
  let upHit := up * d < hi || (closed && up * d == hi)
  match downHit, upHit with
  | true, true => if v - down * d < up * d - v then some down else some up
  | true, false => some down
  | false, true => some up
  | false, false => none

def stripZeros (ds : List Nat) : List Nat := (ds.reverse.dropWhile (· == 0)).reverse

def shortest (x : Float) : Digits :=
  let b := Binary.ofFloat x
  -- in quarters of the last place, so that both ends of the interval are integers
  let quarter : Binary := { b with mantissa := 4 * b.mantissa, exponent := b.exponent - 2 }
  let below := if b.mantissa == Nat.pow 2 52 && -1074 < b.exponent then 1 else 2
  let (value, den) := quarter.ratio
  let (high, _) := Binary.ratio { quarter with mantissa := quarter.mantissa + 2 }
  let (low, _) := Binary.ratio { quarter with mantissa := quarter.mantissa - below }
  let point := pointOf value den
  let closed := b.mantissa % 2 == 0
  match (List.range 17).findSome? fun n =>
      (within low value high den closed point (n + 1)).map (n + 1, ·) with
  | some (n, m) =>
    let ds := digitsOf m
    ⟨stripZeros ds, point + ((ds.length : Int) - n)⟩
  | none => ⟨digitsOf value, point⟩

def positional (d : Digits) : String :=
  let chars := d.digits.map fun k => Char.ofNat (48 + k)
  let zeros := fun (n : Nat) => List.replicate n '0'
  if d.point ≤ 0 then String.ofList (['0', '.'] ++ zeros (-d.point).toNat ++ chars)
  else
    let k := d.point.toNat
    if d.digits.length ≤ k then String.ofList (chars ++ zeros (k - d.digits.length))
    else String.ofList (chars.take k ++ ['.'] ++ chars.drop k)

end Decimal

/--
The text of a number. Integers below `10 ^ 21` in magnitude are written exactly, all others with
the fewest digits that read back; there is never an exponent, and both zeros are `0`.
-/
def numberText (x : Float) : String :=
  if x.isNaN then "NaN"
  else if x.isInf then if x > 0.0 then "Infinity" else "-Infinity"
  else if x == 0.0 then "0"
  else if (Binary.ofFloat x).isIntegral && x.abs < 1e21 then toString (Binary.ofFloat x).truncate
  else
    let body := Decimal.positional (Decimal.shortest x.abs)
    if x < 0.0 then "-" ++ body else body

end Typings
