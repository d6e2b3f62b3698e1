import Typings.Model.Type
import Typings.Text.Character
import Typings.Text.Pattern

namespace Typings

namespace Annotation

def isGap (c : Char) : Bool := c == ' ' || c == '\t'

def after? (start : List Char) (cs : List Char) : Option (List Char) :=
  if start.isPrefixOf cs then some (cs.drop start.length) else none

def gap : Pattern := .many isGap

def name : Pattern := .one startsName ++ .many continuesName

def receiver : Pattern := .alt (.wordBoundary ++ .text "this.") (.lineStart ++ gap)

def assigned : Pattern := receiver ++ .group name ++ gap ++ .text "=" ++ gap

def emptyValue : Pattern := .alt (.text "null") (.text "[" ++ gap ++ .text "]")

def semicolon : Pattern := .optional (.text ";")

/-- An empty value, and the type that a comment behind it names; the word `of` may stand before that. -/
def typedValue : Pattern :=
  .group emptyValue ++ gap ++ semicolon ++ gap ++ .text "//" ++ gap ++
    .optional (.text "of" ++ .one isGap ++ gap) ++ .group name ++ gap ++ semicolon

def commented : Pattern := assigned ++ typedValue

def literal : Pattern := assigned ++ .group (.many fun c => c != ';' && c != '\n')

/-- Without one `s` at the end. -/
def singular (name : List Char) : List Char :=
  match name.reverse with
  | 's' :: rest => rest.reverse
  | _ => name

/-- The type that is named for a value: for an array, that of its items in the plural. -/
def namedType (value name : List Char) : TypeRef :=
  if value.head? == some '[' then .list (.named (String.ofList (singular name)))
  else .named (String.ofList name)

def beforeComment : List Char → List Char
  | '/' :: '/' :: _ => []
  | [] => []
  | c :: rest => c :: beforeComment rest

def exponentEnd (cs : List Char) : Bool :=
  match cs with
  | [] => true
  | c :: rest =>
    if c == 'e' || c == 'E' then
      let digits := match rest with
        | '+' :: r | '-' :: r => r
        | r => r
      !digits.isEmpty && digits.all isDecimalDigit
    else false

def isNumber (cs : List Char) : Bool :=
  let cs := match cs with
    | '-' :: rest => rest
    | _ => cs
  let isHex := match cs with
    | '0' :: x :: digits => (x == 'x' || x == 'X') && !digits.isEmpty && digits.all isHexDigit
    | _ => false
  let whole := cs.takeWhile isDecimalDigit
  let rest := cs.dropWhile isDecimalDigit
  let isDecimal := match rest with
    | '.' :: fraction =>
      (!whole.isEmpty || fraction.head?.any isDecimalDigit)
        && exponentEnd (fraction.dropWhile isDecimalDigit)
    | _ => !whole.isEmpty && exponentEnd rest
  isHex || isDecimal

def literalType? (cs : List Char) : Option TypeRef :=
  let cs := trim (beforeComment (trim cs))
  match cs with
  | [] => none
  | c :: _ =>
    if c == '"' || c == '\'' || c == '\x60' then some .string
    else if cs == "true".toList || cs == "false".toList then some .boolean
    else if isNumber cs then some .number
    else none

end Annotation

inductive AnnotationStrategy
  | comment
  | literal
deriving DecidableEq, Repr, Inhabited

namespace AnnotationStrategy

open Annotation

def pattern : AnnotationStrategy → Pattern
  | comment => commented
  | literal => Annotation.literal

/-- The type that a match gives to its field, which is the first group. -/
def typeOf? (strategy : AnnotationStrategy) (groups : List (List Char)) : Option TypeRef :=
  match strategy with
  | comment => some (namedType (groups.getD 1 []) (groups.getD 2 []))
  | literal => literalType? (groups.getD 1 [])

/-- The type that the first match with an answer gives to a field. -/
def annotate? (strategy : AnnotationStrategy) (field source : String) : Option TypeRef :=
  ((strategy.pattern.findAll source.toList).filter (·.getD 0 [] == field.toList)).findSome?
    strategy.typeOf?

end AnnotationStrategy

def defaultStrategies : List AnnotationStrategy := [.comment, .literal]

/-- The type of a field, by the first strategy that finds one in some source. -/
def annotate? (strategies : List AnnotationStrategy) (field : String) (sources : List String) :
    Option TypeRef :=
  strategies.findSome? fun strategy => sources.findSome? (strategy.annotate? field)

end Typings
