import Typings.Text.Character

namespace Typings

inductive Pattern
  | text (word : String)
  | one (accepts : Char → Bool)
  /-- As many characters of a class as possible, perhaps none. -/
  | many (accepts : Char → Bool)
  | seq (first second : Pattern)
  | alt (first second : Pattern)
  | optional (inner : Pattern)
  | group (inner : Pattern)
  /-- Nothing, at the start of a line. -/
  | lineStart
  /-- Nothing, where a word begins or ends. -/
  | wordBoundary

namespace Pattern

instance : Append Pattern := ⟨seq⟩

def isLineStart (before : Option Char) : Bool := before.all (· == '\n')

def isWordBoundary (before after : Option Char) : Bool := before.any isWord != after.any isWord

def downFrom {α : Type} (answer : Nat → Option α) : Nat → Option α
  | 0 => answer 0
  | n + 1 => answer (n + 1) <|> downFrom answer n

/--
Match a pattern at the start of a text, behind the character `before`, and go on with `next`, which
gets the number of characters that were taken and the groups. Where `next` has no answer, the next way
to match is tried.
-/
def run {α : Type} : Pattern → Option Char → List Char → (Nat → List (List Char) → Option α) → Option α
  | text word, _, cs, next => if word.toList.isPrefixOf cs then next word.length [] else none
  | one accepts, _, cs, next => if cs.head?.any accepts then next 1 [] else none
  | many accepts, _, cs, next => downFrom (next · []) (cs.takeWhile accepts).length
  | seq p q, before, cs, next =>
    p.run before cs fun n groups =>
      q.run ((cs.take n).getLast?.or before) (cs.drop n) fun m groups' =>
        next (n + m) (groups ++ groups')
  | alt p q, before, cs, next => p.run before cs next <|> q.run before cs next
  | optional p, before, cs, next => p.run before cs next <|> next 0 []
  | group p, before, cs, next => p.run before cs fun n groups => next n (cs.take n :: groups)
  | lineStart, before, _, next => if isLineStart before then next 0 [] else none
  | wordBoundary, before, cs, next => if isWordBoundary before cs.head? then next 0 [] else none

def match? (p : Pattern) (before : Option Char) (cs : List Char) : Option (Nat × List (List Char)) :=
  p.run before cs fun n groups => some (n, groups)

/--
The groups of all matches in a text, each match behind the one before it. The next `skip` characters
belong to the last match. A match without characters does not count.
-/
def search (p : Pattern) : Nat → Option Char → List Char → List (List (List Char))
  | _, _, [] => []
  | skip + 1, _, c :: cs => p.search skip (some c) cs
  | 0, before, c :: cs =>
    match p.match? before (c :: cs) with
    | some (n + 1, groups) => groups :: p.search n (some c) cs
    | _ => p.search 0 (some c) cs

def findAll (p : Pattern) (cs : List Char) : List (List (List Char)) := p.search 0 none cs

end Pattern

end Typings
