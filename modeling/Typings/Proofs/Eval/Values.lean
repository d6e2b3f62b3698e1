import Mathlib.Data.List.Basic
import Typings.Eval.Program

namespace Typings

variable {P P' : Value → Prop} {s : Store} {v : Value} {key name : String}

def Slot.All (P : Value → Prop) : Slot → Prop
  | .data v => P v
  | .accessor get set => (∀ v ∈ get, P v) ∧ ∀ v ∈ set, P v

def PropertyMap.All (P : Value → Prop) (m : PropertyMap) : Prop := ∀ e ∈ m.entries, e.2.slot.All P

def Binding.All (P : Value → Prop) : Binding → Prop
  | .mutable v | .constant v => P v
  | .imported .. => True

def Scope.All (P : Value → Prop) (c : Scope) : Prop :=
  ∀ (name : String) (b : Binding), c.bindings[name]? = some b → b.All P

def Frame.All (P : Value → Prop) (f : Frame) : Prop :=
  (∀ v ∈ f.receiver, P v) ∧ ∀ v ∈ f.pending, P v

def ObjectCell.All (P : Value → Prop) (o : ObjectCell) : Prop :=
  (∀ c ∈ o.class?, P (.classOf c)) ∧ o.props.All P

def ClassCell.All (P : Value → Prop) (c : ClassCell) : Prop :=
  P c.superclass ∧ c.shared.All P ∧ c.statics.All P

structure Store.All (P : Value → Prop) (s : Store) : Prop where
  scopes : ∀ r, (s.scope r).All P
  frames : ∀ r, (s.frame r).All P
  objects : ∀ r, (s.object r).All P
  arrays : ∀ r, ∀ v ∈ s.array r, P v
  functions : ∀ r, (s.function r).props.All P
  classes : ∀ r, (s.classCell r).All P

section
variable (hP : ∀ v, P v → P' v)
include hP

theorem Slot.All.mono {slot : Slot} (h : slot.All P) : slot.All P' := by
  cases slot with
  | data v => exact hP v h
  | accessor get set => exact ⟨fun v hv => hP v (h.1 v hv), fun v hv => hP v (h.2 v hv)⟩

theorem PropertyMap.All.mono {m : PropertyMap} (h : m.All P) : m.All P' :=
  fun e he => (h e he).mono hP

theorem Binding.All.mono {b : Binding} (h : b.All P) : b.All P' := by
  cases b with
  | mutable v => exact hP v h
  | constant v => exact hP v h
  | imported _ _ => trivial

theorem Store.All.mono (h : s.All P) : s.All P' where
  scopes r name b hb := (h.scopes r name b hb).mono hP
  frames r := ⟨fun v hv => hP v ((h.frames r).1 v hv), fun v hv => hP v ((h.frames r).2 v hv)⟩
  objects r := ⟨fun c hc => hP _ ((h.objects r).1 c hc), (h.objects r).2.mono hP⟩
  arrays r v hv := hP v (h.arrays r v hv)
  functions r := (h.functions r).mono hP
  classes r := ⟨hP _ (h.classes r).1, (h.classes r).2.1.mono hP, (h.classes r).2.2.mono hP⟩

end

section
variable (hP : ∀ v, P v)
include hP

theorem PropertyMap.All.of_forall (m : PropertyMap) : m.All P := by
  intro e _
  cases e.2.slot with
  | data v => exact hP v
  | accessor get set => exact ⟨fun v _ => hP v, fun v _ => hP v⟩

theorem Store.All.of_forall (s : Store) : s.All P where
  scopes r name b _ := by cases b <;> first | exact hP _ | trivial
  frames r := ⟨fun v _ => hP v, fun v _ => hP v⟩
  objects r := ⟨fun c _ => hP _, .of_forall hP _⟩
  arrays r v _ := hP v
  functions r := .of_forall hP _
  classes r := ⟨hP _, .of_forall hP _, .of_forall hP _⟩

end

namespace PropertyMap

variable {m : PropertyMap} {p : Property} {get set : Option Value} {enumerable : Bool}

theorem All.empty : PropertyMap.empty.All P := by
  intro e he
  simp [PropertyMap.empty] at he

theorem All.get? (h : m.All P) (hp : m.get? key = some p) : p.slot.All P := by
  simp only [PropertyMap.get?, Option.bind_eq_bind, Option.bind_eq_some_iff] at hp
  obtain ⟨i, _, ⟨key', p'⟩, he, hp⟩ := hp
  cases hp
  exact h _ (Array.mem_of_getElem? he)

theorem All.insert (h : m.All P) (hp : p.slot.All P) (key : String) : (m.insert key p).All P := by
  unfold PropertyMap.insert
  split
  · intro e he
    obtain ⟨j, hj⟩ := Array.mem_iff_getElem?.1 he
    rw [Array.getElem?_modify] at hj
    split at hj
    · obtain ⟨e', _, rfl⟩ := Option.map_eq_some_iff.1 hj
      exact hp
    · exact h e (Array.mem_of_getElem? hj)
  · intro e he
    rcases Array.mem_push.1 he with he | rfl
    · exact h e he
    · exact hp

theorem All.insertAccessor (h : m.All P) (hget : ∀ v ∈ get, P v) (hset : ∀ v ∈ set, P v)
    (key : String) (enumerable : Bool) : (m.insertAccessor key get set enumerable).All P := by
  have horElse : ∀ {a b : Option Value}, (∀ v ∈ a, P v) → (∀ v ∈ b, P v) → ∀ v ∈ a <|> b, P v := by
    rintro (_ | a) b ha hb
    · exact hb
    · exact ha
  unfold PropertyMap.insertAccessor
  split
  · rename_i hp
    have hslot := h.get? hp
    refine h.insert ?_ key
    exact ⟨horElse hget hslot.1, horElse hset hslot.2⟩
  · refine h.insert ?_ key
    exact ⟨hget, hset⟩

theorem All.erase (h : m.All P) (key : String) : (m.erase key).All P := by
  unfold PropertyMap.erase
  split
  · intro e he
    rw [Array.eraseIdxIfInBounds_eq] at he
    split at he
    · exact h e (Array.mem_of_mem_eraseIdx he)
    · exact h e he
  · exact h

end PropertyMap

theorem Scope.All.insert {c : Scope} {b : Binding} (h : c.All P) (hb : b.All P) (name : String) :
    Scope.All P { c with bindings := c.bindings.insert name b } := by
  intro name' b' hb'
  rw [Std.TreeMap.getElem?_insert] at hb'
  split at hb'
  · cases hb'
    exact hb
  · exact h name' b' hb'

/--
The class that a value refers to is one of the first `k`. With `lax` it need not be, so that what is
true of every store, whatever it refers to, can be said in the same words.
-/
def Value.Known (lax : Prop) (k : Nat) : Value → Prop
  | .classOf c => c < k ∨ lax
  | _ => True

theorem Value.Known.mono {lax : Prop} {k k' : Nat} (h : v.Known lax k) (hk : k ≤ k') :
    v.Known lax k' := by
  cases v with
  | classOf c => exact h.imp_left fun hc => Nat.lt_of_lt_of_le hc hk
  | _ => trivial

def Value.AllKnown (lax : Prop) (k : Nat) (vs : List Value) : Prop := ∀ v ∈ vs, v.Known lax k

namespace Value.AllKnown

variable {lax : Prop} {k : Nat} {vs vs' : List Value}

theorem nil : AllKnown lax k [] := fun _ h => nomatch h

theorem cons (h : v.Known lax k) (hvs : AllKnown lax k vs) : AllKnown lax k (v :: vs) := by
  rintro v' (_ | hv')
  · exact h
  · exact hvs v' (by assumption)

theorem append (h : AllKnown lax k vs) (h' : AllKnown lax k vs') : AllKnown lax k (vs ++ vs') :=
  fun v hv => (List.mem_append.1 hv).elim (h v) (h' v)

end Value.AllKnown

namespace Store

def Knows (lax : Prop) (s : Store) (v : Value) : Prop := v.Known lax s.classes.size

def KnowsAll (lax : Prop) (s : Store) (vs : List Value) : Prop :=
  Value.AllKnown lax s.classes.size vs

/-- What bounds the arrays: the limit, and the longest that was put together without a look at it. -/
def arrayBound (s : Store) : Nat := max maxDenseLength s.gathered

theorem limit_le_arrayBound (s : Store) : maxDenseLength ≤ s.arrayBound := Nat.le_max_left ..

/--
Every value refers to known classes, every class is younger than the one it extends, and every array
is in bounds.
-/
structure Sound (lax : Prop) (s : Store) : Prop where
  values : s.All (s.Knows lax)
  lines : ∀ c p, (s.classCell c).superclass = .classOf p → p < c ∨ lax
  lengths : ∀ r, (s.array r).size ≤ s.arrayBound ∨ lax

/-- Every class is younger than the one it extends. -/
def Lines (s : Store) : Prop := ∀ c p, (s.classCell c).superclass = .classOf p → p < c

theorem Sound.toLines {s : Store} (h : s.Sound False) : s.Lines := fun c p hp =>
  (h.lines c p hp).resolve_right id

theorem Lines.lineage_eq {s : Store} (h : s.Lines) {c p : Nat}
    (hp : (s.classCell c).superclass = .classOf p) : s.lineage c = c :: s.lineage p := by
  rw [lineage, hp]
  simp [h c p hp]

end Store

end Typings
