namespace Typings

/-- The exact value `mantissa * 2 ^ exponent`, negated when `negative`. -/
structure Binary where
  negative : Bool
  mantissa : Nat
  exponent : Int
deriving DecidableEq, Repr, Inhabited

namespace Binary

def ofFloat (x : Float) : Binary :=
  let bits := x.toBits.toNat
  let field := bits / Nat.pow 2 52 % Nat.pow 2 11
  let fraction := bits % Nat.pow 2 52
  { negative := bits / Nat.pow 2 63 == 1
    mantissa := if field == 0 then fraction else Nat.pow 2 52 + fraction
    exponent := if field == 0 then -1074 else Int.ofNat field - 1075 }

def ratio (b : Binary) : Nat × Nat :=
  if b.exponent < 0 then (b.mantissa, Nat.pow 2 (-b.exponent).toNat)
  else (b.mantissa * Nat.pow 2 b.exponent.toNat, 1)

def isIntegral (b : Binary) : Bool :=
  0 ≤ b.exponent || b.mantissa % Nat.pow 2 (-b.exponent).toNat == 0

def truncate (b : Binary) : Int :=
  let (num, den) := b.ratio
  if b.negative then -Int.ofNat (num / den) else Int.ofNat (num / den)

end Binary

/-- `num / den` rounded to the nearest integer, a tie to the even one. -/
def roundHalfEven (num den : Nat) : Nat :=
  let q := num / den
  let r := num % den
  if 2 * r < den then q
  else if den < 2 * r then q + 1
  else if q % 2 == 0 then q else q + 1

def bitLength (n : Nat) : Nat := if n = 0 then 0 else n.log2 + 1

/-- The double nearest to `num / den`, ties to even; beyond the largest double it is infinite. -/
def nearestFloat (negative : Bool) (num den : Nat) : Float :=
  let magnitude : Nat :=
    if num = 0 then 0 else
      -- `2 ^ (shift + 52) ≤ num / den < 2 ^ (shift + 54)`
      let shift : Int := max ((bitLength num : Int) - (bitLength den : Int) - 53) (-1074)
      let (n, d) := if shift < 0 then (num * Nat.pow 2 (-shift).toNat, den) else (num, den * Nat.pow 2 shift.toNat)
      let (n, d, shift) := if Nat.pow 2 53 ≤ n / d then (n, d * 2, shift + 1) else (n, d, shift)
      let m := roundHalfEven n d
      let (m, shift) := if m = Nat.pow 2 53 then (Nat.pow 2 52, shift + 1) else (m, shift)
      if m < Nat.pow 2 52 then m
      else if 971 < shift then 2047 * Nat.pow 2 52
      else (shift + 1075).toNat * Nat.pow 2 52 + (m - Nat.pow 2 52)
  Float.ofBits (UInt64.ofNat (magnitude + if negative then Nat.pow 2 63 else 0))

def floatOfInt (n : Int) : Float := nearestFloat (n < 0) n.natAbs 1

/-- The remainder that keeps the sign of the dividend; it is exact. -/
def floatRemainder (x y : Float) : Float :=
  if x.isNaN || y.isNaN || x.isInf || y == 0.0 then 0.0 / 0.0
  else if y.isInf || x == 0.0 then x
  else
    let a := Binary.ofFloat x
    let b := Binary.ofFloat y
    let low := min a.exponent b.exponent
    let m := a.mantissa * Nat.pow 2 (a.exponent - low).toNat
    let n := b.mantissa * Nat.pow 2 (b.exponent - low).toNat
    let (num, den) := Binary.ratio ⟨false, m % n, low⟩
    nearestFloat a.negative num den

/-- The whole number that a double truncates to, kept between 0 and `bound`; NaN gives 0. -/
def floatToNat (bound : Nat) (x : Float) : Nat :=
  if x.isNaN then 0
  else if x.isInf then if x > 0.0 then bound else 0
  else min bound (Binary.ofFloat x).truncate.toNat

/-- The residue modulo `2 ^ 32` of the integer that a double truncates to; 0 unless it is finite. -/
def floatToWord (x : Float) : Nat :=
  if x.isNaN || x.isInf then 0 else ((Binary.ofFloat x).truncate % Nat.pow 2 32).toNat

/-- The signed number with the same 32 bits as `n`. -/
def signedWord (n : Nat) : Int := if n < Nat.pow 2 31 then n else (n : Int) - Nat.pow 2 32

end Typings
