namespace Typings

inductive Language
  | typeScript
  | javaScript
  | python3
  | go
deriving DecidableEq, Repr, Inhabited

namespace Language

def target : Language → String
  | typeScript | javaScript => "JavaScript"
  | python3 => "Python3"
  | go => "Go"

def name : Language → String
  | typeScript => "TypeScript"
  | language => language.target

def emitsDeclarations (language : Language) : Bool := language = typeScript

/-- The language of a name; ASCII letters may be large or small. -/
def ofName? (name : String) : Option Language :=
  match String.ofList (name.toList.map Char.toLower) with
  | "ts" | "typescript" => some typeScript
  | "js" | "javascript" => some javaScript
  | "py3" | "python3" => some python3
  | "go" => some go
  | _ => none

def unsupportedMessage (name : String) : String :=
  "Unsupported language: " ++ name ++
    " (expected ts, typescript, js, javascript, py3, python3 or go)"

end Language

end Typings
