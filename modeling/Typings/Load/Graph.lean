namespace Typings

inductive GraphFault
  /-- A way from a module back to itself, with that module at both ends. -/
  | circular (cycle : List String)
  | notFound (key : String)
deriving DecidableEq, Repr, Inhabited

def GraphFault.message : GraphFault → String
  | circular cycle => "Circular dependency detected: " ++ " -> ".intercalate cycle
  | notFound key => "Module not found in graph: " ++ key

/-- Modules in the order they were added, each with its imports in order. -/
structure ImportGraph where
  nodes : List (String × List String) := []
deriving DecidableEq, Repr, Inhabited

namespace ImportGraph

def imports? (g : ImportGraph) (key : String) : Option (List String) := g.nodes.lookup key

def contains (g : ImportGraph) (key : String) : Bool := (g.imports? key).isSome

def size (g : ImportGraph) : Nat := g.nodes.length

def add (g : ImportGraph) (key : String) : ImportGraph :=
  if g.contains key then g else ⟨g.nodes ++ [(key, [])]⟩

def addImport (key : String) (imports : List String) : List String :=
  if imports.contains key then imports else imports ++ [key]

def connect (g : ImportGraph) (importer imported : String) : ImportGraph :=
  ⟨((g.add importer).add imported).nodes.map fun (key, imports) =>
    if key = importer then (key, addImport imported imports) else (key, imports)⟩

/-- The part of a way, innermost first, from `key` on, closed at `key`. -/
def cycleAt (key : String) (path : List String) : List String :=
  key :: (path.takeWhile (· ≠ key)).reverse ++ [key]

/--
Put a module after everything it imports. `path` is the way from the root, innermost first, and
`order` holds the modules that are done. A way without repetition is no longer than the graph, which
`levels` counts down.
-/
def visit (g : ImportGraph) : Nat → List String → List String → String →
    Except GraphFault (List String)
  | levels, path, order, key =>
    if order.contains key then .ok order
    else if path.contains key then .error (.circular (cycleAt key path))
    else match levels, g.imports? key with
      | levels + 1, some imports => do
        let order ← imports.foldlM (fun order key' => visit g levels (key :: path) order key') order
        return order ++ [key]
      | _, _ => .error (.notFound key)

/-- Everything that a module needs, imports first, the module last. -/
def order (g : ImportGraph) (root : String) : Except GraphFault (List String) :=
  g.visit g.size [] [] root

end ImportGraph

end Typings
