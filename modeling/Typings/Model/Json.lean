import Typings.Json.Basic
import Typings.Model.Declaration

namespace Typings

open JsonValue

def TypeRef.toJson : TypeRef → JsonValue
  | context n => object [("kind", .string "context"), ("of", .string n)]
  | named n => object [("kind", .string "named"), ("of", .string n)]
  | parameter n => object [("kind", .string "parameter"), ("of", .string n)]
  | terminalNode => object [("kind", .string "terminal_node")]
  | string => object [("kind", .string "string")]
  | boolean => object [("kind", .string "boolean")]
  | number => object [("kind", .string "number")]
  | void => object [("kind", .string "void")]
  | any => object [("kind", .string "any")]
  | list t => object [("kind", .string "list"), ("of", t.toJson)]
  | unknown => object [("kind", .string "unknown")]

def MemberKind.word : MemberKind → String
  | field => "field"
  | method => "method"

def Arity.word : Arity → String
  | single => "single"
  | list => "list"
  | indexed => "indexed"

def DeclarationKind.word : DeclarationKind → String
  | lexer => "lexer"
  | parser => "parser"
  | context => "context"
  | label => "label"
  | listener => "listener"
  | visitor => "visitor"

def flagField (key : String) (b : Bool) : List (String × JsonValue) :=
  if b then [(key, boolean true)] else []

def Parameter.toJson (p : Parameter) : JsonValue :=
  object ([("name", string p.name), ("ty", p.ty.toJson)] ++ flagField "optional" p.optional)

def TypeParam.toJson (p : TypeParam) : JsonValue :=
  object [("name", string p.name), ("bound", string p.bound)]

def Member.toJson (m : Member) : JsonValue :=
  object ([("name", string m.name), ("kind", string m.kind.word), ("arity", string m.arity.word),
    ("params", array (m.params.map (·.toJson))), ("ty", m.ty.toJson)] ++
    (m.typeParam.map fun p => ("type_param", p.toJson)).toList ++ flagField "is_static" m.isStatic)

def Declaration.toJson (d : Declaration) : JsonValue :=
  object ([("name", string d.name), ("superclass", ofOption string d.superclass),
    ("kind", string d.kind.word)] ++ (d.rule.map fun r => ("rule", string r)).toList ++
    [("polymorphic", boolean d.polymorphic), ("members", array (d.members.map (·.toJson)))])

def Unresolved.toJson (u : Unresolved) : JsonValue :=
  object [("class", string u.className), ("field", string u.field)]

def ParserModel.toJson (p : ParserModel) : JsonValue :=
  object [("class", p.parser.toJson), ("contexts", array (p.contexts.map (·.toJson)))]

def GrammarModel.toJson (g : GrammarModel) : JsonValue :=
  object [("grammar", string g.grammar), ("rule_names", strings g.ruleNames),
    ("symbolic_names", strings g.symbolicNames), ("lexer", ofOption (·.toJson) g.lexer),
    ("parser", ofOption (·.toJson) g.parser), ("listener", ofOption (·.toJson) g.listener),
    ("visitor", ofOption (·.toJson) g.visitor),
    ("unresolved", array (g.unresolved.map (·.toJson)))]

end Typings
