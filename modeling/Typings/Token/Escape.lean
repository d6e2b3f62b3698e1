import Typings.Decimal.Read

namespace Typings

/-- The character with this code, unless the code is a surrogate or too large. -/
def scalar? (n : Nat) : Option Char :=
  if h : n.isValidChar then some (Char.ofNatAux n h) else none

namespace Escape

def simple : Char → Char
  | 'n' => '\n'
  | 'r' => '\r'
  | 't' => '\t'
  | 'b' => '\x08'
  | 'f' => '\x0c'
  | 'v' => '\x0b'
  | '0' => '\x00'
  | c => c

/-- At most `n` hexadecimal digits, and what follows them. -/
def hexRun : Nat → List Char → List Char × List Char
  | 0, cs => ([], cs)
  | _ + 1, [] => ([], [])
  | n + 1, c :: cs =>
    if isHexDigit c then
      let (ds, rest) := hexRun n cs
      (c :: ds, rest)
    else ([], c :: cs)

/-- The digits of a code point escape after its `u`, and what follows the escape. -/
def codePoint : List Char → List Char × List Char
  | '{' :: cs => (cs.takeWhile (· != '}'), (cs.dropWhile (· != '}')).drop 1)
  | cs => hexRun 4 cs

theorem length_hexRun (n : Nat) (cs : List Char) : (hexRun n cs).2.length ≤ cs.length := by
  fun_induction hexRun n cs <;> simp_all <;> omega

theorem length_codePoint (cs : List Char) : (codePoint cs).2.length ≤ cs.length := by
  unfold codePoint
  split
  · rename_i cs
    have := (List.dropWhile_suffix (· != '}') (l := cs)).length_le
    simp only [List.length_drop, List.length_cons]
    omega
  · exact length_hexRun 4 _

def byte? (hex : List Char) : Option Char :=
  if hex.length = 2 then (unsigned? 16 256 hex).bind scalar? else none

/--
Replace every escape by what it stands for. A backslash before a line feed disappears with it. A
code point or byte escape that names no character loses its braces and is otherwise kept; a
backslash at the end is dropped.
-/
def cook : List Char → List Char
  | [] => []
  | ['\\'] => []
  | '\\' :: '\n' :: cs => cook cs
  | '\\' :: 'u' :: cs =>
    match (unsigned? 16 (Nat.pow 2 32) (codePoint cs).1).bind scalar? with
    | some c => c :: cook (codePoint cs).2
    | none => '\\' :: 'u' :: (codePoint cs).1 ++ cook (codePoint cs).2
  | '\\' :: 'x' :: cs =>
    match byte? (hexRun 2 cs).1 with
    | some c => c :: cook (hexRun 2 cs).2
    | none => '\\' :: 'x' :: (hexRun 2 cs).1 ++ cook (hexRun 2 cs).2
  | '\\' :: c :: cs => simple c :: cook cs
  | c :: cs => c :: cook cs
termination_by cs => cs.length
decreasing_by
  all_goals simp only [List.length_cons]
  · omega
  · have := length_codePoint cs; omega
  · have := length_codePoint cs; omega
  · have := length_hexRun 2 cs; omega
  · have := length_hexRun 2 cs; omega
  · omega
  · omega

end Escape

end Typings
