import Typings.Decimal.Read

namespace Typings.Numeral

/-- The longest run of digits, where one underscore may stand between two of them. -/
def group (digit : Char → Bool) : List Char → List Char
  | [] => []
  | c :: cs =>
    if digit c then c :: group digit cs
    else match cs with
      | [] => []
      | d :: _ => if c == '_' && digit d then c :: group digit cs else []

def digits (digit : Char → Bool) (cs : List Char) : List Char :=
  match cs with
  | [] => []
  | c :: _ => if digit c then group digit cs else []

/-- An exponent: a letter, perhaps a sign, then at least one digit; else nothing. -/
def exponent (cs : List Char) : List Char :=
  match cs with
  | e :: s :: rest =>
    if e == 'e' || e == 'E' then
      if isDigit s then e :: s :: rest.takeWhile isDigit
      else if s == '+' || s == '-' then
        let ds := rest.takeWhile isDigit
        if ds.isEmpty then [] else e :: s :: ds
      else []
    else []
  | _ => []

/-- A point, perhaps digits after it, perhaps an exponent; else nothing. -/
def fraction (cs : List Char) : List Char :=
  match cs with
  | '.' :: rest =>
    let ds := digits isDigit rest
    '.' :: ds ++ exponent (rest.drop ds.length)
  | _ => []

/-- The characters of a decimal literal. An underscore after its whole part belongs to it and ends it. -/
def decimal (cs : List Char) : List Char :=
  let whole := digits isDigit cs
  let rest := cs.drop whole.length
  if rest.head? == some '_' then whole ++ ['_']
  else
    let frac := fraction rest
    whole ++ if frac.isEmpty then exponent rest else frac

/-- The base that a letter after a leading zero selects. -/
def base? (c : Char) : Option Nat :=
  if c == 'x' || c == 'X' then some 16
  else if c == 'b' || c == 'B' then some 2
  else if c == 'o' || c == 'O' then some 8
  else none

def withoutUnderscores (cs : List Char) : List Char := cs.filter (· != '_')

/-- A literal in another base: its length, and its value if that is below `2 ^ 64`. -/
def based? (cs : List Char) : Option (Nat × Option Float) :=
  match cs with
  | '0' :: letter :: rest => do
    let base ← base? letter
    let ds := digits (fun c => (digitIn? base c).isSome) rest
    if ds.isEmpty then none
    let value := (unsigned? base (Nat.pow 2 64) (withoutUnderscores ds)).map fun n => nearestFloat false n 1
    return (ds.length + 2, value)
  | _ => none

/--
The number literal at the start of a text: how many characters it takes, and its value. A literal
in another base can be too large to have one.
-/
def read? (cs : List Char) : Option (Nat × Option Float) :=
  match based? cs with
  | some found => some found
  | none =>
    match cs with
    | '.' :: d :: _ =>
      if isDigit d then
        let literal := fraction cs
        some (literal.length, Decimal.read? (withoutUnderscores literal))
      else none
    | d :: _ =>
      if isDigit d then
        let literal := decimal cs
        some (literal.length, Decimal.read? (withoutUnderscores literal))
      else none
    | [] => none

end Typings.Numeral
