import Typings.Files.Tree

namespace Typings.FileTree

def put (t : FileTree) (place : Location) (e : Entry) : FileTree :=
  if t.entries.any (·.1 = place) then
    { t with entries := t.entries.map fun (p, old) => if p = place then (p, e) else (p, old) }
  else { t with entries := t.entries ++ [(place, e)] }

def erase (t : FileTree) (place : Location) : FileTree :=
  { t with entries := t.entries.filter (·.1 ≠ place) }

def putDirectory (t : FileTree) (place : Location) : FileTree :=
  if (t.entry? place).isSome then t else t.put place .directory

/-- Put an entry and the directories above it. A directory that is there stays. -/
def add (t : FileTree) (place : Location) (e : Entry) : FileTree :=
  let t := (List.range place.length).foldl (fun t n => t.putDirectory (place.take n)) t
  match e with
  | .directory => t.putDirectory place
  | .file _ => t.put place e

/-- The files of a later tree that are new or hold something else. -/
def changedFiles (before after : FileTree) : List (Location × ByteArray) :=
  after.entries.filterMap fun (place, e) =>
    match e, before.entry? place with
    | .file new, some (.file old) => if new.toList == old.toList then none else some (place, new)
    | .file new, _ => some (place, new)
    | .directory, _ => none

/-- Where a file of this path is or would be: its directory must be there. -/
def target (t : FileTree) (p : Path) : Except IoFault Location := do
  if p.text.isEmpty then .error .notFound
  if p.text.toList.contains '\x00' then .error .invalidPath
  let (start, pieces) := t.start p
  let place ← t.walk start pieces.dropLast
  let name := pieces.getLastD ""
  if !t.isDirectoryAt place then .error .notDirectory
  if Path.isFiller name || name == ".." then .error .isDirectory
  match t.entry? (place ++ [name]) with
  | some .directory => .error .isDirectory
  | _ => .ok (place ++ [name])

def writeBytes (t : FileTree) (p : Path) (content : ByteArray) : Except IoFault FileTree := do
  return t.put (← t.target p) (.file content)

def writeText (t : FileTree) (p : Path) (text : String) : Except IoFault FileTree :=
  t.writeBytes p text.toUTF8

def appendText (t : FileTree) (p : Path) (text : String) : Except IoFault FileTree := do
  let place ← t.locate p
  match t.entry? place with
  | some (.file content) => .ok (t.put place (.file (content ++ text.toUTF8)))
  | _ => .error .isDirectory

/-- Make one directory, in one that is there. Slashes at the end do not count. -/
def makeDirectory (t : FileTree) (p : Path) : Except IoFault FileTree := do
  if p.text.isEmpty then .error .notFound
  if p.text.toList.contains '\x00' then .error .invalidPath
  let (start, pieces) := t.start p
  let pieces := (pieces.reverse.dropWhile (·.isEmpty)).reverse
  let place ← t.walk start pieces.dropLast
  let name := pieces.getLastD ""
  if !t.isDirectoryAt place then .error .notDirectory
  if Path.isFiller name || name == ".." then .error .alreadyExists
  if (t.entry? (place ++ [name])).isSome then .error .alreadyExists
  return t.put (place ++ [name]) .directory

/-- A failure to make a directory does not count when it is there. -/
def unlessThere (t : FileTree) (p : Path) (fault : IoFault) : Except IoFault FileTree :=
  if t.isDirectory p then .ok t else .error fault

/-- Make the first of some directories, each in the next one; the next ones only if they are needed. -/
def makeFirst (t : FileTree) : List Path → Except IoFault FileTree
  | [] => .error .notFound
  | p :: up =>
    if p.text.isEmpty then .ok t
    else match t.makeDirectory p with
      | .ok t => .ok t
      | .error .notFound => do
        let t ← makeFirst t up
        match t.makeDirectory p with
        | .ok t => return t
        | .error fault => t.unlessThere p fault
      | .error fault => t.unlessThere p fault

def makeDirectories (t : FileTree) (p : Path) : Except IoFault FileTree := t.makeFirst p.ancestors

def moveFile (t : FileTree) (source target : Path) : Except IoFault FileTree := do
  let place ← t.locate source
  return (← t.writeBytes target (← t.readBytes source)).erase place

def names (t : FileTree) (p : Path) : Except IoFault (List String) := do
  let place ← t.locate p
  if !t.isDirectoryAt place then .error .notDirectory
  return (t.entries.filter fun (q, _) => q.length = place.length + 1 ∧ q.dropLast = place).map
    fun (q, _) => q.getLastD ""

end Typings.FileTree
