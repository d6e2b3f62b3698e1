import Mathlib.Logic.Relation
import Typings.Proofs.Eval.Values

namespace Typings.Store

variable {lax : Prop} {s s' s'' : Store} {r c p t : Nat} {name n : String} {v : Value}

/-- One change. The values that it puts into the store are known there. -/
inductive Change (lax : Prop) (s : Store) : Store → Prop
  | addScope (c : Scope) (hc : c.bindings = {}) : Change lax s (s.addScope c).2
  | addFrame (f : Frame) (hf : f.All (s.Knows lax)) : Change lax s (s.addFrame f).2
  | addObject (o : ObjectCell) (ho : o.All (s.Knows lax)) : Change lax s (s.addObject o).2
  | addArray (items : Array Value) (hi : ∀ v ∈ items, s.Knows lax v)
    (hsize : items.size ≤ s.arrayBound ∨ lax) : Change lax s (s.addArray items).2
  | addFunction (f : FunctionCell) (hf : f.props.All (s.Knows lax)) :
    Change lax s (s.addFunction f).2
  | addClass (c : ClassCell) (hc : c.All (s.Knows lax)) : Change lax s (s.addClass c).2
  | addHost (path : String) : Change lax s (s.addHost path).2
  | declare (r : Nat) (name : String) (v : Value) (hv : s.Knows lax v) :
    Change lax s (s.declare r name v)
  | declareConstant (r : Nat) (name : String) (v : Value) (hv : s.Knows lax v) :
    Change lax s (s.declareConstant r name v)
  | setFrame (r : Nat) (f : Frame → Frame) (hf : (f (s.frame r)).All (s.Knows lax)) :
    Change lax s { s with frames := s.frames.modify r f }
  | setObject (r : Nat) (f : ObjectCell → ObjectCell) (hf : (f (s.object r)).All (s.Knows lax)) :
    Change lax s (s.setObject r f)
  | setArray (r : Nat) (f : Array Value → Array Value) (hf : ∀ v ∈ f (s.array r), s.Knows lax v)
    (hsize : (f (s.array r)).size ≤ s.arrayBound ∨ lax) : Change lax s (s.setArray r f)
  | setFunction (r : Nat) (f : FunctionCell → FunctionCell)
    (hf : (f (s.function r)).props.All (s.Knows lax)) : Change lax s (s.setFunction r f)
  | setClass (r : Nat) (f : ClassCell → ClassCell) (hf : (f (s.classCell r)).All (s.Knows lax))
    (hsuper : (f (s.classCell r)).superclass = (s.classCell r).superclass) :
    Change lax s (s.setClass r f)
  /-- What is only noted of the calls that are under way, and of arrays that are put together. -/
  | note (depth deepest gathered : Nat) (running : List Nat) (held : List (List Value))
    (hgathered : s.gathered ≤ gathered) :
    Change lax s { s with depth, deepest, gathered, running, held }

/-- Any number of changes. -/
def Evolves (lax : Prop) : Store → Store → Prop := Relation.ReflTransGen (Change lax)

theorem Evolves.refl : s.Evolves lax s := Relation.ReflTransGen.refl

theorem Evolves.trans (h : s.Evolves lax s') (h' : s'.Evolves lax s'') : s.Evolves lax s'' :=
  Relation.ReflTransGen.trans h h'

theorem Change.evolves (h : Change lax s s') : s.Evolves lax s' := .single h

theorem Evolves.noted (depth deepest : Nat) (running : List Nat) (held : List (List Value)) :
    s.Evolves lax { s with depth, deepest, running, held } :=
  (Change.note depth deepest s.gathered running held (Nat.le_refl _)).evolves

theorem classCell_of_size_le (h : s.classes.size ≤ c) : s.classCell c = default := by
  simp [classCell, Array.getD_eq_getD_getElem?, h]

theorem lt_of_constructor? {body : FunctionDef} (h : (s.classCell c).constructor? = some body) :
    c < s.classes.size := by
  by_contra hc
  rw [classCell_of_size_le (Nat.le_of_not_lt hc)] at h
  cases h

theorem getD_push {α : Type} (cells : Array α) (x d : α) (r : Nat) :
    (cells.push x).getD r d = if r = cells.size then x else cells.getD r d := by
  rw [Array.getD_eq_getD_getElem?, Array.getElem?_push]
  split
  · rfl
  · rw [Array.getD_eq_getD_getElem?]

theorem getD_modify {α : Type} (cells : Array α) (i : Nat) (f : α → α) (d : α) (r : Nat) :
    (cells.modify i f).getD r d =
      if i = r ∧ r < cells.size then f (cells.getD r d) else cells.getD r d := by
  rw [Array.getD_eq_getD_getElem?, Array.getElem?_modify, Array.getD_eq_getD_getElem?]
  by_cases hi : i = r
  · by_cases hr : r < cells.size
    · simp [hi, hr]
    · simp [hi, hr]
  · simp [hi]

theorem forall_getD_push {α : Type} {Q : Nat → α → Prop} {cells : Array α} {x d : α}
    (h : ∀ r, Q r (cells.getD r d)) (hx : Q cells.size x) (r : Nat) :
    Q r ((cells.push x).getD r d) := by
  rw [getD_push]
  split
  · rename_i hr
    rwa [hr]
  · exact h r

theorem forall_getD_modify {α : Type} {Q : Nat → α → Prop} {cells : Array α} {i : Nat} {f : α → α}
    {d : α} (h : ∀ r, Q r (cells.getD r d)) (hf : Q i (f (cells.getD i d))) (r : Nat) :
    Q r ((cells.modify i f).getD r d) := by
  rw [getD_modify]
  split
  · rename_i hi
    rw [← hi.1]
    exact hf
  · exact h r

theorem Change.classes_le (h : Change lax s s') : s.classes.size ≤ s'.classes.size := by
  cases h with
  | addClass c hc => simp [Store.addClass]
  | setClass r f hf hsuper => simp [Store.setClass]
  | _ => exact Nat.le_refl _

theorem Evolves.classes_le (h : s.Evolves lax s') : s.classes.size ≤ s'.classes.size := by
  induction h with
  | refl => exact Nat.le_refl _
  | tail _ hc ih => exact Nat.le_trans ih hc.classes_le

theorem Change.gathered_le (h : Change lax s s') : s.gathered ≤ s'.gathered := by
  cases h with
  | note _ _ _ _ _ hgathered => exact hgathered
  | _ => exact Nat.le_refl _

theorem Evolves.gathered_le (h : s.Evolves lax s') : s.gathered ≤ s'.gathered := by
  induction h with
  | refl => exact Nat.le_refl _
  | tail _ hc ih => exact Nat.le_trans ih hc.gathered_le

theorem Evolves.inBounds (h : s.Evolves lax s') {len : Nat} (hlen : len ≤ s.arrayBound ∨ lax) :
    len ≤ s'.arrayBound ∨ lax := by
  have hgathered := h.gathered_le
  refine hlen.imp_left fun hlen => ?_
  unfold arrayBound at hlen ⊢
  omega

theorem Knows.later (hv : s.Knows lax v) (h : s.Evolves lax s') : s'.Knows lax v :=
  hv.mono h.classes_le

theorem KnowsAll.later {vs : List Value} (hvs : s.KnowsAll lax vs) (h : s.Evolves lax s') :
    s'.KnowsAll lax vs :=
  fun v hv => Knows.later (hvs v hv) h

theorem Change.values (h : Change lax s s') (hs : s.All (s.Knows lax)) : s'.All (s.Knows lax) := by
  cases h with
  | addScope c hc =>
    refine { hs with scopes := ?_ }
    refine forall_getD_push (Q := fun _ => Scope.All (s.Knows lax)) hs.scopes ?_
    intro name b hb
    simp [hc] at hb
  | addFrame f hf =>
    refine { hs with frames := ?_ }
    exact forall_getD_push (Q := fun _ => Frame.All (s.Knows lax)) hs.frames hf
  | addObject o ho =>
    refine { hs with objects := ?_ }
    exact forall_getD_push (Q := fun _ => ObjectCell.All (s.Knows lax)) hs.objects ho
  | addArray items hi _ =>
    refine { hs with arrays := ?_ }
    exact forall_getD_push (Q := fun _ items => ∀ v ∈ items, s.Knows lax v) hs.arrays hi
  | addFunction f hf =>
    refine { hs with functions := ?_ }
    exact forall_getD_push (Q := fun _ (f : FunctionCell) => f.props.All (s.Knows lax))
      hs.functions hf
  | addClass c hc =>
    refine { hs with classes := ?_ }
    exact forall_getD_push (Q := fun _ => ClassCell.All (s.Knows lax)) hs.classes hc
  | addHost path => exact { hs with }
  | declare r name v hv =>
    have hscope := (hs.scopes r).insert (b := .mutable v) hv name
    refine { hs with scopes := ?_ }
    exact forall_getD_modify (Q := fun _ => Scope.All (s.Knows lax)) hs.scopes hscope
  | declareConstant r name v hv =>
    have hscope := (hs.scopes r).insert (b := .constant v) hv name
    refine { hs with scopes := ?_ }
    exact forall_getD_modify (Q := fun _ => Scope.All (s.Knows lax)) hs.scopes hscope
  | setFrame r f hf =>
    refine { hs with frames := ?_ }
    exact forall_getD_modify (Q := fun _ => Frame.All (s.Knows lax)) hs.frames hf
  | setObject r f hf =>
    refine { hs with objects := ?_ }
    exact forall_getD_modify (Q := fun _ => ObjectCell.All (s.Knows lax)) hs.objects hf
  | setArray r f hf _ =>
    refine { hs with arrays := ?_ }
    exact forall_getD_modify (Q := fun _ items => ∀ v ∈ items, s.Knows lax v) hs.arrays hf
  | setFunction r f hf =>
    refine { hs with functions := ?_ }
    exact forall_getD_modify (Q := fun _ (f : FunctionCell) => f.props.All (s.Knows lax))
      hs.functions hf
  | setClass r f hf _ =>
    refine { hs with classes := ?_ }
    exact forall_getD_modify (Q := fun _ => ClassCell.All (s.Knows lax)) hs.classes hf
  | note => exact { hs with }

theorem Change.lengths (h : Change lax s s') (hs : ∀ r, (s.array r).size ≤ s.arrayBound ∨ lax) :
    ∀ r, (s'.array r).size ≤ s'.arrayBound ∨ lax := by
  cases h with
  | addArray items _ hsize =>
    exact forall_getD_push (Q := fun _ (items : Array Value) => items.size ≤ s.arrayBound ∨ lax) hs
      hsize
  | setArray r f _ hsize =>
    exact forall_getD_modify (Q := fun _ (items : Array Value) => items.size ≤ s.arrayBound ∨ lax)
      hs hsize
  | note _ _ gathered _ _ hgathered =>
    have hbound : s.arrayBound ≤ max maxDenseLength gathered := by
      unfold arrayBound
      omega
    exact fun r => (hs r).imp_left fun hr => Nat.le_trans hr hbound
  | _ => exact hs

theorem Change.sound (h : Change lax s s') (hs : s.Sound lax) : s'.Sound lax := by
  refine ⟨(h.values hs.values).mono fun v hv => hv.later h.evolves, ?_, h.lengths hs.lengths⟩
  cases h with
  | addClass c hc =>
    refine forall_getD_push
      (Q := fun r (c : ClassCell) => ∀ p, c.superclass = .classOf p → p < r ∨ lax) hs.lines ?_
    intro p hp
    have hknown := hc.1
    rwa [hp] at hknown
  | setClass r f hf hsuper =>
    refine forall_getD_modify
      (Q := fun r (c : ClassCell) => ∀ p, c.superclass = .classOf p → p < r ∨ lax) hs.lines ?_
    intro p hp
    exact hs.lines r p (hsuper ▸ hp)
  | _ => exact hs.lines

theorem Evolves.sound (h : s.Evolves lax s') (hs : s.Sound lax) : s'.Sound lax := by
  induction h with
  | refl => exact hs
  | tail _ hc ih => exact hc.sound ih

end Typings.Store
