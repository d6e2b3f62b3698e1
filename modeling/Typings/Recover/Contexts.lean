import Typings.Recover.Rules
import Typings.Reflect.Class

namespace Typings

inductive ContextRole
  | canonical | label
deriving DecidableEq, Repr, Inhabited

structure ContextClass where
  name : String
  superclass : Option String
  rule : String
  role : ContextRole
  /-- Whether some label has the same rule. -/
  polymorphic : Bool := false
  classRef : Nat
deriving DecidableEq, Repr, Inhabited

def Store.parentName? (s : Store) (c : Nat) : Option String :=
  (s.classCell c).superclass.class?.map fun p => (s.classCell p).name

/-- The rule of the nearest proper ancestor that is a rule context. -/
def Store.ancestorRule? (s : Store) (rules : RuleModel) (c : Nat) : Option String :=
  (s.lineage c).tail.findSome? fun a => rules.ruleForContext? (s.classCell a).name

/--
What a class is among the contexts. A class that extends a rule context is a label, whatever its own
name. Otherwise its own name decides; a name ending in `Context` is a label of the rule of an
ancestor.
-/
def contextClass? (s : Store) (rules : RuleModel) (c : Nat) : Option ContextClass :=
  let name := (s.classCell c).name
  let parent := s.parentName? c
  match parent.bind rules.ruleForContext?, rules.ruleForContext? name with
  | some rule, _ => some { name, superclass := parent, rule, role := .label, classRef := c }
  | none, some rule =>
    some { name, superclass := s.superclassName? c, rule, role := .canonical, classRef := c }
  | none, none =>
    if name.endsWith "Context" then
      (s.ancestorRule? rules c).map fun rule =>
        { name, superclass := parent, rule, role := .label, classRef := c }
    else none

structure ContextPartition where
  canonical : List ContextClass := []
  labels : List ContextClass := []
deriving DecidableEq, Repr, Inhabited

namespace ContextPartition

/-- Sort classes, each once, into rule contexts and labels. -/
def ofClasses (s : Store) (rules : RuleModel) (classes : List Nat) : ContextPartition :=
  let found := classes.eraseDups.filterMap (contextClass? s rules)
  let labels := found.filter (·.role = .label)
  let canonical := (found.filter (·.role = .canonical)).map fun c =>
    { c with polymorphic := labels.any (·.rule = c.rule) }
  { canonical, labels }

def all (p : ContextPartition) : List ContextClass := p.canonical ++ p.labels

def polymorphicBases (p : ContextPartition) : List String :=
  (p.canonical.filter (·.polymorphic)).map (·.name)

def names (p : ContextPartition) : List String := p.all.map (·.name)

end ContextPartition

end Typings
