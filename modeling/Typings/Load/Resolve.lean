import Typings.Files.Tree
import Typings.Load.Host

namespace Typings

inductive ResolveFault
  | moduleNotFound (specifier : String) (importer : Path) (tried : List Path)
  | unknownModule (specifier : String) (importer : Path)
  | noParentDirectory (specifier : String)
  | io (path : Path) (fault : IoFault)
deriving DecidableEq, Repr, Inhabited

def ResolveFault.message : ResolveFault → String
  | moduleNotFound specifier importer tried =>
    "Module not found: '" ++ specifier ++ "' imported from " ++ importer.text ++
      " (tried: " ++ Path.quotedList tried ++ ")"
  | unknownModule specifier importer =>
    "Unknown module '" ++ specifier ++ "' imported from " ++ importer.text
  | noParentDirectory specifier =>
    "Cannot resolve '" ++ specifier ++ "': importing file has no parent directory"
  | io path fault => "IO error: Failed to canonicalize " ++ path.text ++ ": " ++ fault.message

def candidates (base : Path) : List Path :=
  [base, base.withEnding ".js", base.withEnding ".mjs", base.child "index.js"]

/-- The file that a specifier means, seen from the importing file. -/
def FileTree.resolve (t : FileTree) (specifier : String) (importer : Path) :
    Except ResolveFault Path :=
  match importer.parent? with
  | none => .error (.noParentDirectory specifier)
  | some directory =>
    let tried := candidates (directory.join ⟨specifier⟩)
    match tried.find? t.isFile with
    | none => .error (.moduleNotFound specifier importer tried)
    | some path => (t.canonical path).mapError (.io path)

end Typings
