import Typings.Files.Path

namespace Typings

inductive IoFault
  | notFound
  | notDirectory
  | isDirectory
  | alreadyExists
  | invalidPath
  | invalidText
deriving DecidableEq, Repr, Inhabited

def IoFault.message : IoFault → String
  | notFound => "No such file or directory (os error 2)"
  | notDirectory => "Not a directory (os error 20)"
  | isDirectory => "Is a directory (os error 21)"
  | alreadyExists => "File exists (os error 17)"
  | invalidPath => "file name contained an unexpected NUL byte"
  | invalidText => "stream did not contain valid UTF-8"

inductive Entry
  | file (content : ByteArray)
  | directory
deriving Inhabited

/-- Where an entry is: the names on the way from the root. -/
abbrev Location := List String

/-- Files and directories under the root, and the directory that relative paths start from. -/
structure FileTree where
  entries : List (Location × Entry) := []
  workingDirectory : Location := []
deriving Inhabited

namespace FileTree

def entry? (t : FileTree) (place : Location) : Option Entry :=
  if place.isEmpty then some .directory else t.entries.lookup place

def isDirectoryAt (t : FileTree) (place : Location) : Bool :=
  match t.entry? place with
  | some .directory => true
  | _ => false

/-- Follow the pieces of a path; every piece but a name stays where it is or goes up. -/
def walk (t : FileTree) : Location → List String → Except IoFault Location
  | place, [] => .ok place
  | place, piece :: rest =>
    if t.isDirectoryAt place then
      if Path.isFiller piece then walk t place rest
      else if piece == ".." then walk t place.dropLast rest
      else
        let next := place ++ [piece]
        if (t.entry? next).isSome then walk t next rest else .error .notFound
    else .error .notDirectory

def start (t : FileTree) (p : Path) : Location × List String :=
  match p.text.toList with
  | '/' :: rest => ([], Path.pieces rest)
  | cs => (t.workingDirectory, Path.pieces cs)

def locate (t : FileTree) (p : Path) : Except IoFault Location :=
  if p.text.isEmpty then .error .notFound
  else if p.text.toList.contains '\x00' then .error .invalidPath
  else
    let (place, pieces) := t.start p
    t.walk place pieces

def pathOf (place : Location) : Path := ⟨"/" ++ "/".intercalate place⟩

def canonical (t : FileTree) (p : Path) : Except IoFault Path := pathOf <$> t.locate p

def lookup? (t : FileTree) (p : Path) : Option Entry := do
  match t.locate p with
  | .ok place => t.entry? place
  | .error _ => none

def isFile (t : FileTree) (p : Path) : Bool :=
  match t.lookup? p with
  | some (.file _) => true
  | _ => false

def isDirectory (t : FileTree) (p : Path) : Bool :=
  match t.lookup? p with
  | some .directory => true
  | _ => false

def has (t : FileTree) (p : Path) : Bool := (t.lookup? p).isSome

def readBytes (t : FileTree) (p : Path) : Except IoFault ByteArray := do
  match t.entry? (← t.locate p) with
  | some (.file content) => .ok content
  | some .directory => .error .isDirectory
  | none => .error .notFound

def readText (t : FileTree) (p : Path) : Except IoFault String := do
  match String.fromUTF8? (← t.readBytes p) with
  | some s => .ok s
  | none => .error .invalidText

end FileTree

end Typings
