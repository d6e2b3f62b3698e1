namespace Typings

inductive Builtin
  | parseInt | parseFloat | isNaN
  | charAt | textIndexOf | textIncludes | startsWith | endsWith | textSlice
  | toUpperCase | toLowerCase | trim | toText
  | push | pop | arrayIndexOf | arrayIncludes | join | arraySlice | concat | map | filter | forEach
deriving DecidableEq, Repr, Inhabited

namespace Builtin

def name : Builtin → String
  | parseInt => "parseInt"
  | parseFloat => "parseFloat"
  | isNaN => "isNaN"
  | charAt => "charAt"
  | textIndexOf | arrayIndexOf => "indexOf"
  | textIncludes | arrayIncludes => "includes"
  | startsWith => "startsWith"
  | endsWith => "endsWith"
  | textSlice | arraySlice => "slice"
  | toUpperCase => "toUpperCase"
  | toLowerCase => "toLowerCase"
  | trim => "trim"
  | toText => "toString"
  | push => "push"
  | pop => "pop"
  | join => "join"
  | concat => "concat"
  | map => "map"
  | filter => "filter"
  | forEach => "forEach"

def arity : Builtin → Nat
  | toUpperCase | toLowerCase | trim | toText | pop => 0
  | parseInt | textSlice | arraySlice => 2
  | _ => 1

def globals : List Builtin := [parseInt, parseFloat, isNaN]

def textMethods : List Builtin :=
  [charAt, textIndexOf, textIncludes, startsWith, endsWith, textSlice, toUpperCase, toLowerCase,
    trim, toText]

def arrayMethods : List Builtin :=
  [push, pop, arrayIndexOf, arrayIncludes, join, arraySlice, concat, map, filter, forEach]

end Builtin

def hostGlobals : List String :=
  ["Object", "Array", "Math", "JSON", "String", "Number", "Boolean", "Symbol", "Error", "TypeError",
    "RangeError", "Map", "Set", "Promise", "Reflect", "console", "globalThis"]

end Typings
