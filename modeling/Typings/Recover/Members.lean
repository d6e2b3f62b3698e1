import Typings.Model.Declaration
import Typings.Recover.Annotation
import Typings.Recover.Rules
import Typings.Reflect.Class

namespace Typings

/-- Members that every context class has. -/
def ignoredMembers : List String :=
  ["constructor", "enterRule", "exitRule", "accept", "copyFrom", "getRuleIndex", "parentCtx",
    "children", "start", "stop", "ruleIndex", "exception", "invokingState", "parser"]

def isIgnored (name : String) : Bool := name.startsWith "_" || ignoredMembers.contains name

/-- Types of accessors and fields by the rule or terminal they are named after. -/
structure TypeResolver where
  rules : RuleModel
  polymorphic : List String := []
deriving DecidableEq, Repr, Inhabited

namespace TypeResolver

def typeParameter : String := "T"

/-- The type of an accessor. A context with labels is given through a type parameter. -/
def accessor? (r : TypeResolver) (name : String) : Option (TypeRef × Option TypeParam) :=
  match r.rules.contextForRule? name with
  | some context =>
    if r.polymorphic.contains context then
      some (.parameter typeParameter, some ⟨typeParameter, context⟩)
    else some (.context context, none)
  | none => if r.rules.isTerminal name then some (.terminalNode, none) else none

def field? (r : TypeResolver) (name : String) : Option TypeRef :=
  match r.rules.contextForRule? name with
  | some context => some (.context context)
  | none => if r.rules.isTerminal name then some .terminalNode else none

def accessors (r : TypeResolver) (name : String) (arity : Nat) : List RawMember :=
  match r.accessor? name, arity with
  | some (ty, typeParam), 0 => [{ RawMember.method name [] ty with typeParam }]
  | some (ty, typeParam), 1 =>
    [{ RawMember.method name [] (.list ty) with arity := .list, typeParam },
      { RawMember.method name [⟨"index", .number, false⟩] ty with arity := .indexed, typeParam }]
  | _, _ => []

/-- The members that something found under a name stands for. -/
def membersOf (r : TypeResolver) (strategies : List AnnotationStrategy) (sources : List String)
    (name : String) : Except String Probe → List RawMember
  | .error _ | .ok .absent => []
  | .ok (.value _) => [{ name, ty := r.field? name <|> annotate? strategies name sources }]
  | .ok (.function arity) => r.accessors name arity

/-- The members among the names of a class, in order; a name that is ignored is not looked at. -/
def reflect {m : Type → Type} [Monad m] (r : TypeResolver) (strategies : List AnnotationStrategy)
    (sources : List String) (probe : String → m (Except String Probe)) :
    List String → m (List RawMember)
  | [] => return []
  | name :: names => do
    if isIgnored name then reflect r strategies sources probe names
    else
      let found := r.membersOf strategies sources name (← probe name)
      return found ++ (← reflect r strategies sources probe names)

end TypeResolver

def Subject.members (t : Subject) (r : TypeResolver) : EvalM (List RawMember) := do
  let sources := (← get).sourceTexts t.classRef
  r.reflect defaultStrategies sources t.probe (← t.memberNames)

end Typings
