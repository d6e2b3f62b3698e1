import Typings.Compile.Tool
import Typings.Digest.Sha256
import Typings.Json.Read

namespace Typings

inductive FetchFault
  | request (reason : String)
  | io (fault : IoFault)
  | checksumMismatch (expected actual : String)
  | noCacheDirectory
  | missingJar (path : Path)
deriving DecidableEq, Repr, Inhabited

namespace FetchFault

def message : FetchFault → String
  | request reason => "HTTP request failed: " ++ reason
  | io fault => "IO error: " ++ fault.message
  | checksumMismatch expected actual =>
    "Checksum mismatch: expected " ++ expected ++ ", got " ++ actual
  | noCacheDirectory => "no cache directory on this platform"
  | missingJar path => "compiler jar not found: " ++ path.text

def chain (fault : FetchFault) : List String :=
  fault.message :: match fault with
    | io cause => [cause.message]
    | _ => []

end FetchFault

/-- The version that is used when none is asked for and none is installed. -/
def defaultVersion : String := "4.13.2"

def downloadBase : String := "https://www.antlr.org/download"

def jarFileName (version : String) : String := "antlr-" ++ version ++ "-complete.jar"

def downloadUrl (version : String) : String := downloadBase ++ "/" ++ jarFileName version

def packageVersion? (text : String) : Option String := do
  (← (← JsonValue.read? text).field? "version").asString?

/-- The version of the runtime that is installed nearest, in a directory or one above it. -/
def runtimeVersion? (t : FileTree) (start : Path) : Option String :=
  start.ancestors.findSome? fun directory =>
    let path := ((directory.child "node_modules").child "antlr4").child "package.json"
    (t.readText path).toOption.bind packageVersion?

abbrev Download := String → Except FetchFault ByteArray

structure JarCache where
  root : Path
  checksum : Option String := none
deriving DecidableEq, Repr, Inhabited

namespace JarCache

def jarPath (c : JarCache) (version : String) : Path := c.root.child (jarFileName version)

def cached? (c : JarCache) (t : FileTree) (version : String) : Option Path :=
  if t.isFile (c.jarPath version) then some (c.jarPath version) else none

def sameIgnoringCase (a b : String) : Bool := a.toList.map Char.toLower == b.toList.map Char.toLower

def verify (c : JarCache) (content : ByteArray) : Except FetchFault Unit :=
  let actual := sha256 content
  match c.checksum with
  | none => .ok ()
  | some expected =>
    if sameIgnoringCase expected actual then .ok () else .error (.checksumMismatch expected actual)

/-- Store a compiler. It is written aside and then moved, so that no part of one is ever in its place. -/
def store (c : JarCache) (version : String) (content : ByteArray) : FilesM FetchFault Path := do
  FilesM.look fun _ => c.verify content
  let aside := c.root.child "tmp"
  let part := aside.child (jarFileName version ++ ".tmp")
  FilesM.change .io (·.makeDirectories aside)
  FilesM.change .io (·.writeBytes part content)
  FilesM.change .io (·.moveFile part (c.jarPath version))
  return c.jarPath version

def ensure (c : JarCache) (download : Download) (version : String) : FilesM FetchFault Path := do
  match c.cached? (← get) version with
  | some path => return path
  | none => c.store version (← FilesM.look fun _ => download (downloadUrl version))

end JarCache

end Typings
