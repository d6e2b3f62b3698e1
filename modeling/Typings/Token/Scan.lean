import Typings.Source.Span
import Typings.Token.Basic
import Typings.Token.Escape
import Typings.Token.Numeral

namespace Typings

inductive LexFault
  | unexpectedCharacter (c : Char)
  | unterminatedString
  | unterminatedTemplate
  | unterminatedComment
deriving DecidableEq, Repr, Inhabited

structure LexError where
  fault : LexFault
  place : Mark
deriving DecidableEq, Repr, Inhabited

namespace LexError

def message (e : LexError) : String :=
  let place := " at " ++ toString e.place.line ++ ":" ++ toString e.place.column
  match e.fault with
  | .unexpectedCharacter c => "Unexpected character '" ++ c.toString ++ "'" ++ place
  | .unterminatedString => "Unterminated string literal" ++ place
  | .unterminatedTemplate => "Unterminated template literal" ++ place
  | .unterminatedComment => "Unterminated block comment" ++ place

def report (e : LexError) (source : String) : String :=
  Typings.report e.message e.place.line e.place.column source

end LexError

namespace Scan

def isNameStart (c : Char) : Bool :=
  ('a' ≤ c && c ≤ 'z') || ('A' ≤ c && c ≤ 'Z') || c == '_' || c == '$'

def isNamePart (c : Char) : Bool := isNameStart c || isDigit c

/-- The body of a string up to its closing quote. A backslash takes any character but a line feed. -/
def stringBody? (quote : Char) : List Char → Option (List Char)
  | [] => none
  | c :: cs =>
    if c == quote then some []
    else if c == '\\' then
      match cs with
      | [] => none
      | d :: ds => if d == '\n' then none else (stringBody? quote ds).map (c :: d :: ·)
    else (stringBody? quote cs).map (c :: ·)

/-- What stands at the start of a text. -/
inductive Piece
  | token (t : Token) (length : Nat)
  | junk (length : Nat)
  | openString

def nameToken (name : List Char) : Token :=
  let text := String.ofList name
  match Keyword.ofText? text with
  | some k => .keyword k
  | none => .identifier text

/-- The longest token at the start of a text that begins with `c`. -/
def piece (c : Char) (cs : List Char) : Piece :=
  if isNameStart c then
    let name := c :: cs.takeWhile isNamePart
    .token (nameToken name) name.length
  else if c == '"' || c == '\'' then
    match stringBody? c cs with
    | some body => .token (.string (String.ofList (Escape.cook body))) (body.length + 2)
    | none => .openString
  else match Numeral.read? (c :: cs) with
    | some (length, some value) => .token (.number value) length
    | some (length, none) => .junk length
    | none =>
      match Punct.longest? (c :: cs) with
      | some p => .token (.punct p) p.text.length
      | none => .junk 1

/-- Split a block comment's text after its opening at the closing, which belongs to the comment. -/
def comment? : List Char → Option (List Char)
  | [] => none
  | '*' :: '/' :: _ => some ['*', '/']
  | c :: cs => (comment? cs).map (c :: ·)

/-- The text of a substitution up to its closing brace, and what follows that. Braces nest. -/
def substitution? (depth : Nat) : List Char → Option (List Char × List Char)
  | [] => none
  | c :: cs =>
    if c == '{' then (substitution? (depth + 1) cs).map fun (a, b) => (c :: a, b)
    else if c == '}' then
      match depth with
      | 0 => some ([], cs)
      | d + 1 => (substitution? d cs).map fun (a, b) => (c :: a, b)
    else (substitution? depth cs).map fun (a, b) => (c :: a, b)

theorem length_substitution? {depth : Nat} {cs a b : List Char}
    (h : substitution? depth cs = some (a, b)) : a.length + b.length < cs.length := by
  fun_induction substitution? depth cs generalizing a b with
  | case1 => simp at h
  | case2 depth c cs hc ih =>
    obtain ⟨⟨a', b'⟩, h', heq⟩ := Option.map_eq_some_iff.1 h
    have := ih h'
    cases heq
    simp only [List.length_cons]
    omega
  | case3 c cs hc hd => cases h; simp
  | case4 d c cs hc hd ih =>
    obtain ⟨⟨a', b'⟩, h', heq⟩ := Option.map_eq_some_iff.1 h
    have := ih h'
    cases heq
    simp only [List.length_cons]
    omega
  | case5 depth c cs hc hd ih =>
    obtain ⟨⟨a', b'⟩, h', heq⟩ := Option.map_eq_some_iff.1 h
    have := ih h'
    cases heq
    simp only [List.length_cons]
    omega

/-- A piece of a template as written; a substitution has the offset of its `$`. -/
inductive RawPart
  | text (raw : List Char)
  | substitution (offset : Nat) (inner : List Char)

/-- How a template ends: with the text behind it, or never. -/
inductive Ending
  | closed (rest : List Char)
  | openSubstitution (offset : Nat)
  | openTemplate

/-- A template as written. `lead` is its text up to the first of the `parts`. -/
structure RawTemplate where
  lead : List Char
  parts : List RawPart
  ending : Ending

def RawTemplate.pieces (r : RawTemplate) : List RawPart :=
  if r.lead.isEmpty then r.parts else .text r.lead :: r.parts

def textPart (raw : List Char) : TemplatePart := .text (String.ofList (Escape.cook raw))

/-- Divide a template, after its opening, into its pieces. A backslash keeps the next character. -/
def rawTemplate (offset : Nat) (cs : List Char) : RawTemplate :=
  match cs with
  | [] => ⟨[], [], .openTemplate⟩
  | '`' :: rest => ⟨[], [], .closed rest⟩
  | ['\\'] => ⟨['\\'], [], .openTemplate⟩
  | '\\' :: c :: rest =>
    let r := rawTemplate (offset + 1 + c.utf8Size) rest
    { r with lead := '\\' :: c :: r.lead }
  | '$' :: '{' :: rest =>
    match h : substitution? 0 rest with
    | none => ⟨[], [], .openSubstitution offset⟩
    | some (inner, after) =>
      let r := rawTemplate (offset + 3 + byteLength inner) after
      ⟨[], .substitution offset inner :: r.pieces, r.ending⟩
  | c :: rest =>
    let r := rawTemplate (offset + c.utf8Size) rest
    { r with lead := c :: r.lead }
termination_by cs.length
decreasing_by
  all_goals simp only [List.length_cons]
  · omega
  · have := length_substitution? h; omega
  · omega

/-- A substitution is shorter than the template that holds it. -/
theorem length_inner {offset o : Nat} {cs inner : List Char}
    (h : .substitution o inner ∈ (rawTemplate offset cs).parts) : inner.length < cs.length := by
  fun_induction rawTemplate offset cs with
  | case1 | case2 | case3 => simp at h
  | case4 offset c rest r ih => have := ih h; simp only [List.length_cons]; omega
  | case5 => simp at h
  | case6 offset rest inner' after hs r ih =>
    have hlen := length_substitution? hs
    simp only [List.mem_cons, RawPart.substitution.injEq, RawTemplate.pieces] at h
    simp only [List.length_cons]
    rcases h with ⟨-, rfl⟩ | h
    · omega
    · have : .substitution o inner ∈ (rawTemplate (offset + 3 + byteLength inner') after).parts := by
        split at h <;> simpa using h
      have := ih this
      omega
  | case7 offset c rest _ _ _ _ r ih => have := ih h; simp only [List.length_cons]; omega

/-- What follows a template is shorter than the template and it together. -/
theorem length_closed {offset : Nat} {cs rest : List Char}
    (h : (rawTemplate offset cs).ending = .closed rest) : rest.length < cs.length := by
  fun_induction rawTemplate offset cs with
  | case1 => simp at h
  | case2 => cases h; simp
  | case3 => simp at h
  | case4 offset c rest r ih => have := ih h; simp only [List.length_cons]; omega
  | case5 => simp at h
  | case6 offset rest inner' after hs r ih =>
    have := ih h
    have := length_substitution? hs
    simp only [List.length_cons]
    omega
  | case7 offset c rest _ _ _ _ r ih => have := ih h; simp only [List.length_cons]; omega

def firstError {ε α : Type} : List (Except ε α) → Except ε (List α)
  | [] => .ok []
  | .ok a :: rest => (firstError rest).map (a :: ·)
  | .error e :: _ => .error e

def isSpace (c : Char) : Bool := c == ' ' || c == '\t' || c == '\r' || c == '\n'

/-- The tokens of a text, and what is wrong with it. After an open string or template it stops. -/
def tokens (cs : List Char) (place : Mark) : List Lexeme × List LexError :=
  match cs with
  | [] => ([(.eof, place.span place.offset)], [])
  | c :: rest =>
    if isSpace c then tokens rest (place.next c)
    else if c == '/' && rest.head? == some '/' then
      tokens (rest.dropWhile (· != '\n')) (place.afterBytes (c :: rest.takeWhile (· != '\n')))
    else if c == '/' && rest.head? == some '*' then
      match comment? (rest.drop 1) with
      | some body => tokens (rest.drop (body.length + 1)) (place.afterBytes (c :: '*' :: body))
      | none => ([], [⟨.unterminatedComment, place⟩])
    else if c == '\ufeff' then tokens rest { place with offset := place.offset + c.utf8Size }
    else if c == '`' then
      let raw := rawTemplate (place.offset + 1) rest
      let parts := (if raw.lead.isEmpty then [] else [.ok (textPart raw.lead)]) ++
        raw.parts.attach.map fun
          | ⟨.text t, _⟩ => .ok (textPart t)
          | ⟨.substitution offset inner, _⟩ =>
            let (ts, es) := tokens inner (Mark.origin (offset + 2))
            if es.isEmpty then .ok (.substitution (ts.filter (!·.1.isEof))) else .error offset
      let fail := fun offset => ([], [⟨.unterminatedTemplate, { place with offset := offset }⟩])
      match firstError parts, h : raw.ending with
      | .error offset, _ => fail offset
      | .ok _, .openSubstitution offset => fail offset
      | .ok _, .openTemplate => fail place.offset
      | .ok parts, .closed after =>
        let stop := place.after (c :: rest.take (rest.length - after.length))
        let (ts, es) := tokens after stop
        ((.template parts, place.span stop.offset) :: ts, es)
    else match piece c rest with
      | .token t length =>
        let stop := place.after (c :: rest.take (length - 1))
        let (ts, es) := tokens (rest.drop (length - 1)) stop
        ((t, place.span stop.offset) :: ts, es)
      | .junk length =>
        let (ts, es) := tokens (rest.drop (length - 1)) (place.after (c :: rest.take (length - 1)))
        (ts, ⟨.unexpectedCharacter c, place⟩ :: es)
      | .openString => ([], [⟨.unterminatedString, place⟩])
termination_by cs.length
decreasing_by
  · simp
  · have := (List.dropWhile_suffix (· != '\n') (l := rest)).length_le
    simp only [List.length_cons]
    omega
  · simp only [List.length_drop, List.length_cons]
    omega
  · simp
  · rename_i hmem
    have := length_inner hmem
    simp only [List.length_cons]
    omega
  · have := length_closed h
    simp only [List.length_cons]
    omega
  · simp only [List.length_drop, List.length_cons]
    omega
  · simp only [List.length_drop, List.length_cons]
    omega

end Scan

def Token.scan (source : String) : Except (List LexError) (List Lexeme) :=
  let (ts, es) := Scan.tokens source.toList (Mark.origin 0)
  if es.isEmpty then .ok ts else .error es

end Typings
