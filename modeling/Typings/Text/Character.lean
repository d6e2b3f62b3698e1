import Typings.Decimal.Read
import Typings.Text.CaseTable

namespace Typings

def shiftBy (runs : List (Nat × Nat × Nat × Int)) (n : Nat) : Nat :=
  match runs.find? fun (first, last, step, _) => first ≤ n && n ≤ last && (n - first) % step == 0 with
  | some (_, _, _, shift) => (n + shift).toNat
  | none => n

def capitalOf (c : Char) : List Char :=
  if c.toNat < 128 then [c.toUpper]
  else match capitalSequences.lookup c.toNat with
    | some ns => ns.map Char.ofNat
    | none => [Char.ofNat (shiftBy capitalRuns c.toNat)]

/-- A letter in small letters. The capital I with a dot keeps its dot as a mark. -/
def smallOf (c : Char) : List Char :=
  if c.toNat < 128 then [c.toLower]
  else if c == 'İ' then ['i', Char.ofNat 0x307]
  else [Char.ofNat (shiftBy smallRuns c.toNat)]

/-- Whether the next character that is not passed over has a case. -/
def startsCased (cs : List Char) : Bool :=
  match cs.dropWhile (inRanges caseIgnorableRanges) with
  | c :: _ => inRanges casedRanges c
  | [] => false

/-- Small letters of the text `rest` that stands after the reverse of `before`. -/
def toSmallFrom (before : List Char) : List Char → List Char
  | [] => []
  | c :: rest =>
    let small :=
      if c == 'Σ' then
        if startsCased before && !startsCased rest then ['ς'] else ['σ']
      else smallOf c
    small ++ toSmallFrom (c :: before) rest

/-- The text in small letters; a sigma that ends a word has a form of its own. -/
def toSmall (cs : List Char) : List Char := toSmallFrom [] cs

def toCapitals (cs : List Char) : List Char := cs.flatMap capitalOf

/-- The characters with the Unicode property `White_Space`. -/
def isBlank (c : Char) : Bool :=
  let n := c.toNat
  (0x9 ≤ n && n ≤ 0xd) || n == 0x20 || n == 0x85 || n == 0xa0 || n == 0x1680
    || (0x2000 ≤ n && n ≤ 0x200a) || n == 0x2028 || n == 0x2029 || n == 0x202f || n == 0x205f
    || n == 0x3000

def trimStart (cs : List Char) : List Char := cs.dropWhile isBlank

def trimEnd (cs : List Char) : List Char := (cs.reverse.dropWhile isBlank).reverse

def trim (cs : List Char) : List Char := trimEnd (trimStart cs)

def trimText (s : String) : String := String.ofList (trim s.toList)

def isAsciiLetter (c : Char) : Bool := ('a' ≤ c && c ≤ 'z') || ('A' ≤ c && c ≤ 'Z')

/-- A letter, mark, digit or connecting character of any script. -/
def isWord (c : Char) : Bool :=
  if c.toNat < 128 then isAsciiLetter c || isDigit c || c == '_' else inRanges wordRanges c

def isDecimalDigit (c : Char) : Bool := if c.toNat < 128 then isDigit c else inRanges digitRanges c

def startsName (c : Char) : Bool := isAsciiLetter c || c == '_' || c == '$'

def continuesName (c : Char) : Bool := isWord c || c == '$'

def hexDigits (n : Nat) : List Char := Nat.toDigits 16 n

def quoteChar (c : Char) : List Char :=
  if c == '\x00' then ['\\', '0']
  else if c == '\t' then ['\\', 't']
  else if c == '\n' then ['\\', 'n']
  else if c == '\r' then ['\\', 'r']
  else if c == '\\' || c == '"' then ['\\', c]
  else if c.toNat < 0x20 || c.toNat == 0x7f || (0x80 ≤ c.toNat && inRanges invisibleRanges c) then
    ['\\', 'u', '\x7b'] ++ hexDigits c.toNat ++ ['\x7d']
  else [c]

def quoted (s : String) : String := String.ofList ('"' :: s.toList.flatMap quoteChar ++ ['"'])

end Typings
