import Typings.Text.Split
import Typings.Text.Character

namespace Typings

structure Path where
  text : String
deriving DecidableEq, Repr, Inhabited

inductive Component
  | root
  | current
  | parent
  | name (s : String)
deriving DecidableEq, Repr, Inhabited

namespace Path

def pieces (cs : List Char) : List String := (splitChars '/' cs).map String.ofList

def isAbsolute (p : Path) : Bool := p.text.startsWith "/"

/-- An absolute second path stands alone; otherwise a slash joins the two. -/
def join (p q : Path) : Path :=
  if q.isAbsolute then q
  else if p.text.isEmpty || p.text.endsWith "/" then ⟨p.text ++ q.text⟩
  else ⟨p.text ++ "/" ++ q.text⟩

def child (p : Path) (name : String) : Path := p.join ⟨name⟩

/-- A piece that is not a step: nothing between two slashes, or a lone point. -/
def isFiller (piece : String) : Bool := piece.isEmpty || piece == "."

def component (piece : String) : Component := if piece == ".." then .parent else .name piece

/-- Where the path starts: at the root, at a leading point, or with nothing said. -/
def split (p : Path) : String × List String :=
  match p.text.toList with
  | '/' :: rest => ("/", pieces rest)
  | ['.'] => (".", [])
  | '.' :: '/' :: rest => (".", "" :: pieces rest)
  | cs => ("", pieces cs)

/-- The steps of a path. Doubled slashes and inner points are no steps. -/
def components (p : Path) : List Component :=
  let (start, body) := p.split
  let body := (body.filter (!isFiller ·)).map component
  match start with
  | "/" => .root :: body
  | "." => .current :: body
  | _ => body

def same (p q : Path) : Bool := p.components == q.components

def trimFiller (body : List String) : List String := (body.reverse.dropWhile isFiller).reverse

/-- The path without its last step; the root and the empty path have none. -/
def parent? (p : Path) : Option Path :=
  let (start, body) := p.split
  match (trimFiller body).reverse with
  | _ :: before =>
    some ⟨start ++ "/".intercalate (trimFiller before.reverse)⟩
  | [] => if start == "." then some ⟨""⟩ else none

/-- A path and as many of its parents as asked for, from the path up. -/
def upTo : Nat → Path → List Path
  | 0, p => [p]
  | n + 1, p =>
    match p.parent? with
    | some up => p :: upTo n up
    | none => [p]

def ancestors (p : Path) : List Path := p.upTo p.components.length

def fileName? (p : Path) : Option String :=
  match p.components.getLast? with
  | some (.name s) => some s
  | _ => none

def withEnding (p : Path) (ending : String) : Path := ⟨p.text ++ ending⟩

def quotedList (ps : List Path) : String :=
  "[" ++ ", ".intercalate (ps.map fun p => quoted p.text) ++ "]"

end Path

end Typings
