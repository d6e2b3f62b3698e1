import Std.Data.TreeMap
import Typings.Eval.Value

namespace Typings

structure PropertyMap where
  entries : Array (String × Property) := #[]
  index : Std.TreeMap String Nat := {}
deriving Inhabited

namespace PropertyMap

def empty : PropertyMap := {}

def size (m : PropertyMap) : Nat := m.entries.size

def isEmpty (m : PropertyMap) : Bool := m.entries.isEmpty

def get? (m : PropertyMap) (key : String) : Option Property := do
  let i ← m.index[key]?
  let (_, p) ← m.entries[i]?
  return p

def contains (m : PropertyMap) (key : String) : Bool := m.index.contains key

/-- An existing key keeps its place. -/
def insert (m : PropertyMap) (key : String) (p : Property) : PropertyMap :=
  match m.index[key]? with
  | some i => { m with entries := m.entries.modify i fun e => (e.1, p) }
  | none => ⟨m.entries.push (key, p), m.index.insert key m.entries.size⟩

/-- Join the halves that are given to an accessor that is there; otherwise insert them. -/
def insertAccessor (m : PropertyMap) (key : String) (get set : Option Value) (enumerable : Bool) :
    PropertyMap :=
  match m.get? key with
  | some ⟨.accessor get' set', enumerable'⟩ =>
    m.insert key ⟨.accessor (get <|> get') (set <|> set'), enumerable'⟩
  | _ => m.insert key ⟨.accessor get set, enumerable⟩

def erase (m : PropertyMap) (key : String) : PropertyMap :=
  match m.index[key]? with
  | some i =>
    ⟨m.entries.eraseIdxIfInBounds i,
      (m.index.erase key).map fun _ j => if i < j then j - 1 else j⟩
  | none => m

/-- Without a key, and whether it was there. -/
def remove (m : PropertyMap) (key : String) : PropertyMap × Bool := (m.erase key, m.contains key)

def keys (m : PropertyMap) : List String := m.entries.toList.map (·.1)

def enumerableKeys (m : PropertyMap) : List String :=
  (m.entries.toList.filter (·.2.enumerable)).map (·.1)

end PropertyMap

end Typings
