namespace Typings

inductive TypeRef
  | context (name : String)
  /-- A type that the source names, taken as it stands. -/
  | named (name : String)
  | parameter (name : String)
  | terminalNode
  | string
  | boolean
  | number
  | void
  | any
  | list (element : TypeRef)
  /-- Not found out, and never guessed. -/
  | unknown
deriving DecidableEq, Repr, Inhabited

namespace TypeRef

def isUnknown : TypeRef → Bool
  | unknown => true
  | _ => false

def text : TypeRef → String
  | context n | named n | parameter n => n
  | terminalNode => "TerminalNode"
  | string => "string"
  | boolean => "boolean"
  | number => "number"
  | void => "void"
  | any => "any"
  | list t => t.text ++ "[]"
  | unknown => "unknown"

end TypeRef

end Typings
