import Typings.Decimal.Read

namespace Typings.Toml

inductive TomlValue
  | string (s : String)
  | boolean (b : Bool)
  | strings (items : List String)
deriving DecidableEq, Repr, Inhabited

def isGap (c : Char) : Bool := c == ' ' || c == '\t'

def skipBlanks (cs : List Char) : List Char := cs.dropWhile isGap

/-- Characters of strings and comments: no controls but the tab. -/
def isPrintable (c : Char) : Bool := c == '\t' || (0x20 ≤ c.toNat && c.toNat ≠ 0x7f)

def newline? : List Char → Option (List Char)
  | '\n' :: rest => some rest
  | '\r' :: '\n' :: rest => some rest
  | _ => none

/-- The rest after blanks, a comment and the end of the line or of the text. -/
def lineEnd? (cs : List Char) : Option (List Char) :=
  match skipBlanks cs with
  | '#' :: rest => ending (rest.dropWhile isPrintable)
  | rest => ending rest
where
  ending (cs : List Char) : Option (List Char) := if cs.isEmpty then some [] else newline? cs

/-- Without blanks, line ends and comments. A comment that does not end with its line is kept from there on. -/
def skipGap (inComment : Bool) : List Char → List Char
  | [] => []
  | '\n' :: rest => skipGap false rest
  | '\r' :: '\n' :: rest => skipGap false rest
  | c :: rest =>
    if inComment then if isPrintable c then skipGap true rest else c :: rest
    else if isGap c then skipGap false rest
    else if c == '#' then skipGap true rest
    else c :: rest

def codePoint? (digits : List Char) : Option Char := do
  let n ← digits.foldlM (fun n c => (digitIn? 16 c).map (n * 16 + ·)) 0
  if n.isValidChar then return Char.ofNat n else none

def simpleEscape? : Char → Option Char
  | '"' => some '"'
  | '\\' => some '\\'
  | 'b' => some '\x08'
  | 'f' => some '\x0c'
  | 'n' => some '\n'
  | 'r' => some '\r'
  | 't' => some '\t'
  | _ => none

/-- The character of an escape, from what follows its backslash, and how much of that it takes. -/
def escape? : List Char → Option (Char × Nat)
  | 'u' :: rest => if rest.length < 4 then none else (codePoint? (rest.take 4)).map (·, 5)
  | 'U' :: rest => if rest.length < 8 then none else (codePoint? (rest.take 8)).map (·, 9)
  | c :: _ => (simpleEscape? c).map (·, 1)
  | [] => none

def prepend (c : Char) : Option (List Char × List Char) → Option (List Char × List Char) :=
  Option.map fun (body, rest) => (c :: body, rest)

def basic? (cs : List Char) : Option (List Char × List Char) :=
  match cs with
  | [] => none
  | '"' :: rest => some ([], rest)
  | '\\' :: rest =>
    match escape? rest with
    | some (c, used) => prepend c (basic? (rest.drop used))
    | none => none
  | c :: rest => if isPrintable c then prepend c (basic? rest) else none
termination_by cs.length
decreasing_by
  · rw [List.length_drop, List.length_cons]
    omega
  · exact Nat.lt_succ_self _

def literal? (cs : List Char) : Option (List Char × List Char) :=
  match cs.span fun c => isPrintable c && c != '\'' with
  | (body, '\'' :: rest) => some (body, rest)
  | _ => none

/--
A string in three double quotes, from the character after them and a line end. After a backslash at the
end of a line, blanks and line ends are left out. Up to two quotes may stand before the last three.
-/
def longBasic? (skipping : Bool) (cs : List Char) : Option (List Char × List Char) :=
  match cs with
  | [] => none
  | '"' :: '"' :: '"' :: '"' :: '"' :: rest => some (['"', '"'], rest)
  | '"' :: '"' :: '"' :: '"' :: rest => some (['"'], rest)
  | '"' :: '"' :: '"' :: rest => some ([], rest)
  | '\n' :: rest => if skipping then longBasic? true rest else prepend '\n' (longBasic? false rest)
  | '\r' :: '\n' :: rest =>
    if skipping then longBasic? true rest else prepend '\n' (longBasic? false rest)
  | '\\' :: rest =>
    if (newline? (skipBlanks rest)).isSome then longBasic? true rest
    else match escape? rest with
      | some (c, used) => prepend c (longBasic? false (rest.drop used))
      | none => none
  | c :: rest =>
    if skipping && isGap c then longBasic? true rest
    else if isPrintable c then prepend c (longBasic? false rest)
    else none
termination_by cs.length
decreasing_by all_goals grind

def longLiteral? : List Char → Option (List Char × List Char)
  | [] => none
  | '\'' :: '\'' :: '\'' :: '\'' :: '\'' :: rest => some (['\'', '\''], rest)
  | '\'' :: '\'' :: '\'' :: '\'' :: rest => some (['\''], rest)
  | '\'' :: '\'' :: '\'' :: rest => some ([], rest)
  | '\n' :: rest => prepend '\n' (longLiteral? rest)
  | '\r' :: '\n' :: rest => prepend '\n' (longLiteral? rest)
  | c :: rest => if isPrintable c then prepend c (longLiteral? rest) else none

def dropNewline (cs : List Char) : List Char := (newline? cs).getD cs

def string? : List Char → Option (List Char × List Char)
  | '"' :: '"' :: '"' :: rest => longBasic? false (dropNewline rest)
  | '"' :: rest => basic? rest
  | '\'' :: '\'' :: '\'' :: rest => longLiteral? (dropNewline rest)
  | '\'' :: rest => literal? rest
  | _ => none

/-- Strings with commas between them, up to a closing bracket; a comma may be the last. -/
def strings? (cs : List Char) : Option (List String × List Char) :=
  match skipGap false cs with
  | ']' :: rest => some ([], rest)
  | start => do
    let (s, rest) ← string? start
    match skipGap false rest with
    | ']' :: rest => return ([String.ofList s], rest)
    | ',' :: rest =>
      if rest.length < cs.length then
        let (items, rest) ← strings? rest
        return (String.ofList s :: items, rest)
      else none
    | _ => none
termination_by cs.length

def value? : List Char → Option (TomlValue × List Char)
  | 't' :: 'r' :: 'u' :: 'e' :: rest => some (.boolean true, rest)
  | 'f' :: 'a' :: 'l' :: 's' :: 'e' :: rest => some (.boolean false, rest)
  | '[' :: rest => (strings? rest).map fun (items, rest) => (.strings items, rest)
  | cs => (string? cs).map fun (s, rest) => (.string (String.ofList s), rest)

def isKeyChar (c : Char) : Bool := c.isAlphanum || c == '_' || c == '-'

/-- A key of one part: without quotes, or in quotes on one line. -/
def key? : List Char → Option (List Char × List Char)
  | '"' :: rest => basic? rest
  | '\'' :: rest => literal? rest
  | cs => if (cs.takeWhile isKeyChar).isEmpty then none else some (cs.span isKeyChar)

/-- A key, its value, and the rest after their line. -/
def entry? (cs : List Char) : Option ((String × TomlValue) × List Char) := do
  let (key, rest) ← key? cs
  match skipBlanks rest with
  | '=' :: rest =>
    let (v, rest) ← value? (skipBlanks rest)
    return ((String.ofList key, v), ← lineEnd? rest)
  | _ => none

def entries? (cs : List Char) : Option (List (String × TomlValue)) :=
  match skipGap false cs with
  | [] => some []
  | start => do
    let (entry, rest) ← entry? start
    if rest.length < cs.length then return entry :: (← entries? rest) else none
termination_by cs.length

/-- The keys and values of a text, in order; no key stands twice. -/
def read? (text : String) : Option (List (String × TomlValue)) := do
  let cs := match text.toList with
    | '\ufeff' :: rest => rest
    | cs => cs
  let entries ← entries? cs
  if (entries.map (·.1)).Nodup then return entries else none

end Typings.Toml
