namespace Typings

def coreModules : List String :=
  ["assert", "buffer", "crypto", "events", "fs", "module", "os", "path", "process", "stream", "url",
    "util"]

/-- Says which host module a specifier that names no file stands for, if any. -/
abbrev HostResolver := String → Option String

/-- The packages that count as modules of the host. -/
structure HostModules where
  names : List String := ["antlr4"]
deriving DecidableEq, Repr, Inhabited

namespace HostModules

/-- The package that a specifier names: all before the first slash. -/
def packageOf (specifier : String) : String :=
  String.ofList (specifier.toList.takeWhile (· != '/'))

def find? (h : HostModules) (specifier : String) : Option String :=
  if specifier.startsWith "node:" then some (String.ofList (specifier.toList.drop 5))
  else
    let package := packageOf specifier
    if coreModules.contains package || h.names.contains package then some package else none

def key (name : String) : String := "node:" ++ name

instance : Coe HostModules HostResolver := ⟨find?⟩

end HostModules

/-- Whether a specifier names a file, seen from the importing one. -/
def isRelative (specifier : String) : Bool :=
  specifier.startsWith "./" || specifier.startsWith "../" || specifier.startsWith "/"

end Typings
