import Typings.Text.Split

namespace Typings

/-- The bytes from `start` up to `stop`; `line` and `column` count from 1. -/
structure Span where
  start : Nat
  stop : Nat
  line : Nat
  column : Nat
deriving DecidableEq, Repr, Inhabited

namespace Span

def length (s : Span) : Nat := s.stop - s.start

def isEmpty (s : Span) : Bool := s.start == s.stop

/-- The range that covers both spans, placed at the first. -/
def through (s t : Span) : Span :=
  { s with start := min s.start t.start, stop := max s.stop t.stop }

theorem start_through (s t : Span) : (s.through t).start = min s.start t.start := rfl

theorem stop_through (s t : Span) : (s.through t).stop = max s.stop t.stop := rfl

end Span

/-- A point of a source text: byte offset, line and column. -/
structure Mark where
  offset : Nat
  line : Nat
  column : Nat
deriving DecidableEq, Repr, Inhabited

namespace Mark

def origin (offset : Nat) : Mark := ⟨offset, 1, 1⟩

def next (m : Mark) (c : Char) : Mark :=
  if c == '\n' then ⟨m.offset + c.utf8Size, m.line + 1, 1⟩
  else ⟨m.offset + c.utf8Size, m.line, m.column + 1⟩

def after (m : Mark) (cs : List Char) : Mark := cs.foldl next m

/-- The point after one character of a comment, where a column is a byte. -/
def nextBytes (m : Mark) (c : Char) : Mark :=
  if c == '\n' then ⟨m.offset + 1, m.line + 1, 1⟩
  else ⟨m.offset + c.utf8Size, m.line, m.column + c.utf8Size⟩

def afterBytes (m : Mark) (cs : List Char) : Mark := cs.foldl nextBytes m

def span (m : Mark) (stop : Nat) : Span := ⟨m.offset, stop, m.line, m.column⟩

end Mark

def byteLength : List Char → Nat
  | [] => 0
  | c :: cs => c.utf8Size + byteLength cs

@[simp] theorem byteLength_nil : byteLength [] = 0 := rfl

@[simp] theorem byteLength_cons (c : Char) (cs : List Char) :
    byteLength (c :: cs) = c.utf8Size + byteLength cs := rfl

@[simp] theorem byteLength_append (xs ys : List Char) :
    byteLength (xs ++ ys) = byteLength xs + byteLength ys := by
  induction xs with
  | nil => simp
  | cons c cs ih => simp [ih, Nat.add_assoc]

/-- Drop exactly `n` bytes, or nothing when that would cut a character. -/
def dropBytes? : Nat → List Char → Option (List Char)
  | 0, cs => some cs
  | _ + 1, [] => none
  | n + 1, c :: cs => if c.utf8Size ≤ n + 1 then dropBytes? (n + 1 - c.utf8Size) cs else none
termination_by _ cs => cs.length

/-- The characters of exactly the first `n` bytes. -/
def takeBytes? : Nat → List Char → Option (List Char)
  | 0, _ => some []
  | _ + 1, [] => none
  | n + 1, c :: cs =>
    if c.utf8Size ≤ n + 1 then (takeBytes? (n + 1 - c.utf8Size) cs).map (c :: ·) else none
termination_by _ cs => cs.length

/-- The text of a byte range, if both ends lie between characters. -/
def slice? (text : String) (start stop : Nat) : Option String := do
  if stop < start then none
  let rest ← dropBytes? start text.toList
  let cs ← takeBytes? (stop - start) rest
  return String.ofList cs

def padLeft (width : Nat) (s : String) : String :=
  String.ofList (List.replicate (width - s.length) ' ') ++ s

/-- The message, then the line with a caret under the column, if the source has such a line. -/
def report (message : String) (line column : Nat) (source : String) : String :=
  let head := "error: " ++ message ++ "\n"
  if line == 0 then head
  else match (linesOf source.toList)[line - 1]? with
    | none => head
    | some shown =>
      head ++ "    |\n" ++ padLeft 3 (toString line) ++ " | " ++ String.ofList shown ++ "\n"
        ++ "    | " ++ String.ofList (List.replicate (column - 1) ' ') ++ "^\n"

end Typings
