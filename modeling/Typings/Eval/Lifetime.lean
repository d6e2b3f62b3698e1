import Typings.Eval.Scope
import Typings.Eval.Lineage

namespace Typings

/-- A cell of the store. A frame is part of its scope. -/
inductive Cell
  | scope (ref : Nat)
  | object (ref : Nat)
  | array (ref : Nat)
  | function (ref : Nat)
  | classOf (ref : Nat)
deriving DecidableEq, Repr, Inhabited

namespace Value

def cell? : Value → Option Cell
  | array r => some (.array r)
  | object r => some (.object r)
  | function r => some (.function r)
  | classOf r => some (.classOf r)
  | _ => none

def refersTo (v : Value) (c : Cell) : Bool := v.cell? == some c

end Value

def Binding.holds : Binding → Cell → Bool
  | .mutable v, c | .constant v, c => v.refersTo c
  | .imported target _, c => c == .scope target

def Slot.holds : Slot → Cell → Bool
  | .data v, c => v.refersTo c
  | .accessor get set, c => get.any (·.refersTo c) || set.any (·.refersTo c)

def PropertyMap.holds (m : PropertyMap) (c : Cell) : Bool := m.entries.any (·.2.slot.holds c)

/-- The home of a running method is not held by its frame. -/
def Frame.holds (f : Frame) (c : Cell) : Bool :=
  f.receiver.any (·.refersTo c) || f.pending.any (·.refersTo c)
    || f.constructorOf.any (c == .classOf ·)

def Code.holds : Code → Cell → Bool
  | .script _ env _, c => c == .scope env
  | .builtin _, _ => false

namespace Store

def holds (s : Store) (holder c : Cell) : Bool :=
  match holder with
  | .scope r =>
    (s.scope r).outer.head?.any (c == .scope ·) || (s.scope r).bindings.any (fun _ b => b.holds c)
      || (s.scope r).frame.any fun f => (s.frame f).holds c
  | .object r => (s.object r).class?.any (c == .classOf ·) || (s.object r).props.holds c
  | .array r => (s.array r).any (·.refersTo c)
  | .function r => (s.function r).code.holds c || (s.function r).props.holds c
  | .classOf r =>
    let cell := s.classCell r
    cell.superclass.refersTo c || c == .scope cell.env || cell.shared.holds c || cell.statics.holds c

/-- Whether something other than a cell holds a cell: a module, or evaluation under way. -/
def isAnchored (s : Store) : Cell → Bool
  | .scope r => r == globalScope || (s.scope r).source.isSome || s.running.contains r
  | c => s.held.any (·.any (·.refersTo c))

/-- Go over every cell, oldest first within each kind, until a step fails. -/
def foldCells? {α : Type} (s : Store) (step : Cell → α → Option α) (start : α) : Option α :=
  let visit := fun (count : Nat) (cell : Nat → Cell) => count.foldM fun i _ => step (cell i)
  visit s.classes.size .classOf start >>= visit s.scopes.size .scope
    >>= visit s.objects.size .object >>= visit s.arrays.size .array
    >>= visit s.functions.size .function

/--
Add `c`, and what holds it, to the cells that are known to be loose; none when `c` is kept. `path` are
the cells that `c` is looked at for, and `c` among them is held in a circle. No path is longer than
the number of cells, which bounds the depth.
-/
def loose? (s : Store) : Nat → List Cell → Cell → List Cell → Option (List Cell)
  | 0, _, _, _ => none
  | depth + 1, path, c, known =>
    if known.contains c then some known
    else if path.contains c || s.isAnchored c then none
    else do
      let known ← s.foldCells? (fun holder known =>
        if s.holds holder c then loose? s depth (c :: path) holder known else some known) known
      return c :: known

def cellCount (s : Store) : Nat :=
  s.classes.size + s.scopes.size + s.objects.size + s.arrays.size + s.functions.size

def isKept (s : Store) (c : Cell) : Bool := (s.loose? (s.cellCount + 1) [] c []).isNone

/-- The class that the running method of a frame belongs to, as long as it is kept. -/
def homeOf? (s : Store) (f : Frame) : Option Nat :=
  f.home.filter fun c => f.receiver.any (s.belongsTo · c) || s.isKept (.classOf c)

end Store

end Typings
