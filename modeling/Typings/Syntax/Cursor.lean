import Typings.Source.Span
import Typings.Syntax.Basic

namespace Typings

inductive ParseFault
  | unexpectedToken (expected : List Token) (found : Token)
  | unexpectedEnd (expected : List Token)
  | invalidSyntax (reason : String)
  | missingSemicolon (found : Token)
  | unclosedDelimiter (opening closing : Token)
  | limitExceeded (limit : String)
  /-- The bound on nested readings was too small; readings started by this library never end so. -/
  | exhausted

instance : Inhabited ParseFault := ⟨.exhausted⟩

namespace ParseFault

def describe (expected : List Token) : String :=
  ", ".intercalate <| expected.map fun
    | .identifier _ => "identifier"
    | .string _ => "string"
    | t => "'" ++ t.text ++ "'"

def message : ParseFault → String
  | unexpectedToken [t] found => "Expected " ++ describe [t] ++ ", found '" ++ found.text ++ "'"
  | unexpectedToken ts found =>
    "Expected one of " ++ describe ts ++ ", found '" ++ found.text ++ "'"
  | unexpectedEnd ts => "Unexpected end of file, expected " ++ describe ts
  | invalidSyntax reason => "Invalid syntax: " ++ reason
  | missingSemicolon found => "Expected ';' before '" ++ found.text ++ "'"
  | unclosedDelimiter o c => "Unclosed '" ++ o.text ++ "', expected '" ++ c.text ++ "'"
  | limitExceeded limit => "Parser limit exceeded: " ++ limit
  | exhausted => "Parser limit exceeded"

end ParseFault

structure ParseError where
  fault : ParseFault
  span : Span
deriving Inhabited

namespace ParseError

def message (e : ParseError) : String := e.fault.message

def text (e : ParseError) : String :=
  "Parse error at " ++ toString e.span.line ++ ":" ++ toString e.span.column ++ ": " ++ e.message

def report (e : ParseError) (source : String) : String :=
  Typings.report e.text e.span.line e.span.column source

end ParseError

/-- How deeply statements and expressions may nest. -/
def nestingLimit : Nat := 96

/-- A position in a list of tokens that ends with the end, and how many nestings are open there. -/
structure Cursor where
  tokens : Array Lexeme
  pos : Nat
  depth : Nat
  /-- The greatest number of nestings that were open so far. No reading depends on it. -/
  deepest : Nat := 0
  /-- Where the function bodies open that were passed so far. No reading depends on it. -/
  bodies : List Nat := []
  pos_lt : pos < tokens.size
  isEof_last : ∀ t ∈ tokens.back?, t.1.isEof = true

namespace Cursor

/-- The tokens with an end, which is added if they have none. -/
def terminated (ts : List Lexeme) : List Lexeme :=
  match ts.getLast? with
  | some (.eof, _) => ts
  | some (_, s) => ts ++ [(.eof, { s with start := s.stop })]
  | none => [(.eof, ⟨0, 0, 1, 1⟩)]

theorem terminated_ne_nil (ts : List Lexeme) : terminated ts ≠ [] := by
  unfold terminated
  split
  · intro h; simp [h] at *
  · simp
  · simp

theorem isEof_getLast_terminated (ts : List Lexeme) : ∀ t ∈ (terminated ts).getLast?, t.1.isEof = true := by
  unfold terminated
  split
  · rename_i h
    simp [h, Token.isEof]
  · simp [Token.isEof]
  · simp [Token.isEof]

def ofTokens (ts : List Lexeme) : Cursor where
  tokens := (terminated ts).toArray
  pos := 0
  depth := 0
  pos_lt := by
    have := terminated_ne_nil ts
    simpa [List.length_pos_iff] using this
  isEof_last := by simpa using isEof_getLast_terminated ts

def lexeme (c : Cursor) : Lexeme :=
  have := c.pos_lt
  c.tokens[c.pos]

def token (c : Cursor) : Token := c.lexeme.1

def span (c : Cursor) : Span := c.lexeme.2

def previousSpan (c : Cursor) : Span :=
  have := c.pos_lt
  c.tokens[c.pos - 1].2

/-- The token at an index; behind the end it is the last. -/
def tokenAt (c : Cursor) (i : Nat) : Token :=
  have := c.pos_lt
  c.tokens[min i (c.tokens.size - 1)].1

def peek (c : Cursor) (n : Nat) : Token := c.tokenAt (c.pos + n)

/-- One token further, unless the position is the last. -/
def step (c : Cursor) : Cursor :=
  if h : c.pos + 1 < c.tokens.size then { c with pos := c.pos + 1, pos_lt := h } else c

def atEnd (c : Cursor) : Bool := c.token.isEof

/-- Whether the token stands on a later line than the one before it. -/
def onNewLine (c : Cursor) : Bool := 0 < c.pos && c.previousSpan.line < c.span.line

def deeper (c : Cursor) : Cursor :=
  { c with depth := c.depth + 1, deepest := max c.deepest (c.depth + 1) }

def shallower (c : Cursor) : Cursor := { c with depth := c.depth - 1 }

def remaining (c : Cursor) : Nat := c.tokens.size - c.pos

/--
The index of the token that closes a group, from index `i` on, when `opened` groups of this kind
are open; an error is the index of the end that comes first. At most `fuel` tokens are looked at.
-/
def closing (c : Cursor) (opening closer : Punct) : (fuel i opened : Nat) → Except Nat Nat
  | 0, i, _ => .error i
  | fuel + 1, i, opened =>
    let t := c.tokenAt i
    if t.isEof then .error i
    else if t.isPunct opening then c.closing opening closer fuel (i + 1) (opened + 1)
    else if t.isPunct closer then
      if opened ≤ 1 then .ok i else c.closing opening closer fuel (i + 1) (opened - 1)
    else c.closing opening closer fuel (i + 1) opened

def matchingParen? (c : Cursor) : Option Nat :=
  (c.closing .leftParen .rightParen c.tokens.size c.pos 0).toOption

/-- Move to an index; behind the end it is the last token. -/
def moveTo (c : Cursor) (i : Nat) : Cursor :=
  have := c.pos_lt
  { c with pos := min i (c.tokens.size - 1), pos_lt := by omega }

end Cursor

/-- Reading with a cursor. An error leaves the cursor where it arose. -/
abbrev Parse := ExceptT ParseError (StateM Cursor)

namespace Parse

def fail {α : Type} (fault : ParseFault) (span : Span) : Parse α := throw ⟨fault, span⟩

def invalid {α : Type} (reason : String) (span : Span) : Parse α := fail (.invalidSyntax reason) span

def current : Parse Token := return (← get).token

def here : Parse Span := return (← get).span

def previous : Parse Span := return (← get).previousSpan

def advance : Parse Unit := modify Cursor.step

/-- The error that the current token is none of those that could have come. -/
def unexpected {α : Type} (expected : List Token) : Parse α := do
  let c ← get
  fail (if c.atEnd then .unexpectedEnd expected else .unexpectedToken expected c.token) c.span

def atPunct (p : Punct) : Parse Bool := return (← get).token.isPunct p

def atKeyword (k : Keyword) : Parse Bool := return (← get).token.isWord k

def atName (name : String) : Parse Bool := return (← get).token.name? == some name

def eat (p : Punct) : Parse Bool := do
  if ← atPunct p then
    advance
    return true
  else return false

def eatKeyword (k : Keyword) : Parse Bool := do
  if ← atKeyword k then
    advance
    return true
  else return false

def expect (p : Punct) : Parse Unit := do
  unless ← eat p do unexpected [.punct p]

def expectKeyword (k : Keyword) : Parse Unit := do
  unless ← eatKeyword k do unexpected [.keyword k]

def name : Parse String := do
  match ← current with
  | .identifier n => advance; return n
  | _ => unexpected [.identifier ""]

def name? : Parse (Option String) := do
  match ← current with
  | .identifier n => advance; return some n
  | _ => return none

/-- Pass a property name: a name, a reserved word, or a private name. -/
def propertyName : Parse String := do
  match ← current with
  | .keyword k => advance; return k.text
  | .identifier n => advance; return n
  | .punct .hash => advance; return "#" ++ (← name)
  | _ => unexpected [.identifier ""]

/-- End a statement: a semicolon, or the end of a block or the text, or a line break. -/
def semicolon : Parse Unit := do
  if ← eat .semicolon then return
  let c ← get
  unless c.token.isPunct .rightBrace || c.atEnd || c.onNewLine do
    fail (.missingSemicolon c.token) c.span

/-- Run one nesting deeper, unless that is too deep. The nesting is left whatever happens. -/
def nested {α : Type} (p : Parse α) : Parse α := fun c =>
  if nestingLimit ≤ c.depth then
    (.error ⟨.limitExceeded ("Maximum nesting depth (" ++ toString nestingLimit ++ ") exceeded"), c.span⟩, c)
  else
    let (result, c') := p c.deeper
    (result, c'.shallower)

def braces : Parse (List Lexeme) := do
  let opening ← here
  expect .leftBrace
  let c ← get
  match c.closing .leftBrace .rightBrace c.tokens.size c.pos 1 with
  | .ok i =>
    set (c.moveTo (i + 1))
    return (c.tokens.extract c.pos i).toList
  | .error i =>
    set (c.moveTo i)
    fail (.unclosedDelimiter (.punct .leftBrace) (.punct .rightBrace)) opening

/-- Pass a function body in braces, which is kept as its tokens. -/
def body : Parse FunctionBody := do
  let opening := (← get).pos
  let tokens ← braces
  modify fun c => { c with bodies := opening :: c.bodies }
  return .block tokens opening

def delimiters? : Token → Option (Punct × Punct)
  | .punct .leftParen => some (.leftParen, .rightParen)
  | .punct .leftBracket => some (.leftBracket, .rightBracket)
  | .punct .leftBrace => some (.leftBrace, .rightBrace)
  | _ => none

/-- Pass a group in parentheses, brackets or braces; other delimiters inside do not count. -/
def skipGroup : Parse Unit := do
  let c ← get
  match delimiters? c.token with
  | none => unexpected [.punct .leftParen, .punct .leftBracket, .punct .leftBrace]
  | some (opening, closer) =>
    match c.closing opening closer c.tokens.size c.pos 0 with
    | .ok i => set (c.moveTo (i + 1))
    | .error i =>
      set (c.moveTo i)
      fail (.unclosedDelimiter (.punct opening) (.punct closer)) c.span

/-- Repeat a step until it gives a result, at most `fuel` times. -/
def repeated {σ β : Type} (step : σ → Parse (σ ⊕ β)) : Nat → σ → Parse β
  | 0, _ => do fail .exhausted (← here)
  | fuel + 1, s => do
    match ← step s with
    | .inl s => repeated step fuel s
    | .inr b => return b

/-- Repeat a step that passes a token each time it goes on. -/
def loop {σ β : Type} (init : σ) (step : σ → Parse (σ ⊕ β)) : Parse β := do
  repeated step ((← get).remaining + 1) init

/--
Items up to a closing punctuator, which is passed too. Each item decides about its separator.
-/
def itemsUntil {α : Type} (closer : Punct) (item : Parse α) : Parse (List α) := do
  let items ← loop ([] : List α) fun acc => do
    if ← atPunct closer then return .inr acc.reverse
    return .inl ((← item) :: acc)
  expect closer
  return items

/-- After an item of a list: a comma, unless the list ends. -/
def comma (closer : Punct) : Parse Unit := do
  unless ← atPunct closer do expect .comma

end Parse

end Typings
