import Typings.Files.Tree
import Typings.Text.Split

namespace Typings

def baseName (grammarFile : Path) : String :=
  let name := (grammarFile.fileName?.getD "").toList
  if ".g4".toList.isSuffixOf name then String.ofList (name.take (name.length - 3)) else String.ofList name

/-- Whether a file name belongs to a base name; listeners and visitors only when they are wanted. -/
def isGenerated (base : String) (listener visitor : Bool) (name : String) : Bool :=
  base.toList.isPrefixOf name.toList &&
    (listener || !containsAny ["Listener.".toList] name.toList) &&
    (visitor || !containsAny ["Visitor.".toList] name.toList)

def generatedNames (base : String) (listener visitor : Bool) (names : List String) : List String :=
  (names.filter (isGenerated base listener visitor)).mergeSort fun a b => decide (a ≤ b)

def isRecognizer (name : String) : Bool := containsAny ["Lexer.".toList, "Parser.".toList] name.toList

/-- What stands in a file name before the word for a lexer or a parser. -/
def recognizerBase (name : String) : String :=
  String.ofList (beforeAny ["Lexer".toList, "Parser".toList] name.toList)

/-- The grammar that generated files belong to: that of the first lexer or parser, else the base name. -/
def grammarName (names : List String) (base : String) : String :=
  ((names.find? isRecognizer).map recognizerBase).getD base

/-- Generated files by grammar, in the order they were seen. -/
structure CompileResults where
  groups : List (String × List Path) := []
deriving DecidableEq, Repr, Inhabited

def addPath (paths : List Path) (p : Path) : List Path :=
  if paths.any (·.same p) then paths else paths ++ [p]

def CompileResults.add (r : CompileResults) (grammar : String) (files : List Path) : CompileResults :=
  if r.groups.any (·.1 = grammar) then
    ⟨r.groups.map fun (g, paths) => if g = grammar then (g, files.foldl addPath paths) else (g, paths)⟩
  else ⟨r.groups ++ [(grammar, files.foldl addPath [])]⟩

end Typings
