namespace Typings

/-- How a character that starts with this byte goes on: the bytes that may come next, one by one. -/
def continuations (b : UInt8) : Option (List (UInt8 × UInt8)) :=
  let any : UInt8 × UInt8 := (0x80, 0xbf)
  if b < 0x80 then some []
  else if 0xc2 ≤ b && b ≤ 0xdf then some [any]
  else if b == 0xe0 then some [(0xa0, 0xbf), any]
  else if b == 0xed then some [(0x80, 0x9f), any]
  else if 0xe1 ≤ b && b ≤ 0xef then some [any, any]
  else if b == 0xf0 then some [(0x90, 0xbf), any, any]
  else if 0xf1 ≤ b && b ≤ 0xf3 then some [any, any, any]
  else if b == 0xf4 then some [(0x80, 0x8f), any, any]
  else none

/-- The bits of a first byte that belong to the character, when `n` bytes follow. -/
def leadBits (b : UInt8) (n : Nat) : Nat :=
  if n = 0 then b.toNat else b.toNat % Nat.pow 2 (6 - n)

/-- Take the bytes that a character goes on with. Without all of them there is no character. -/
def takeContinuations : List (UInt8 × UInt8) → Nat → List UInt8 → Option Nat × List UInt8
  | [], value, bytes => (some value, bytes)
  | _ :: _, _, [] => (none, [])
  | (low, high) :: rest, value, b :: bytes =>
    if low ≤ b && b ≤ high then takeContinuations rest (value * 64 + b.toNat % 64) bytes
    else (none, b :: bytes)

theorem length_takeContinuations_le (pattern : List (UInt8 × UInt8)) (value : Nat)
    (bytes : List UInt8) : (takeContinuations pattern value bytes).2.length ≤ bytes.length := by
  induction pattern generalizing value bytes with
  | nil => simp [takeContinuations]
  | cons r rest ih =>
    cases bytes with
    | nil => simp [takeContinuations]
    | cons b bytes =>
      unfold takeContinuations
      split
      · exact Nat.le_succ_of_le (ih _ _)
      · simp

/-- The character that is written for bytes that are none. -/
def replacementChar : Char := Char.ofNat 0xfffd

def decodeChar (b : UInt8) (bytes : List UInt8) : Char × List UInt8 :=
  match continuations b with
  | none => (replacementChar, bytes)
  | some pattern =>
    let taken := takeContinuations pattern (leadBits b pattern.length) bytes
    ((taken.1.map Char.ofNat).getD replacementChar, taken.2)

theorem length_decodeChar_le (b : UInt8) (bytes : List UInt8) :
    (decodeChar b bytes).2.length ≤ bytes.length := by
  unfold decodeChar
  split
  · simp
  · exact length_takeContinuations_le _ _ _

/-- Bytes as text; the longest start of a character that cannot be finished becomes one mark. -/
def decodeLossy : List UInt8 → List Char
  | [] => []
  | b :: bytes => (decodeChar b bytes).1 :: decodeLossy (decodeChar b bytes).2
termination_by bytes => bytes.length
decreasing_by
  have := length_decodeChar_le b bytes
  simp only [List.length_cons]
  omega

def lossyText (bytes : ByteArray) : String := String.ofList (decodeLossy bytes.toList)

end Typings
