import Typings.Eval.Program
import Typings.Proofs.Outcome

namespace Typings

/-- An edit of values: of bindings, properties, items of arrays, and cells that hold nothing else. -/
inductive Store.Write (s : Store) : Store → Prop
  | addHost (path : String) : Write s (s.addHost path).2
  | addObject : Write s (s.addObject {}).2
  | addArray (items : Array Value) : Write s (s.addArray items).2
  | gather (items : Array Value) : Write s (s.gather items).2
  | addBuiltin (b : Builtin) : Write s (s.addFunction { name := b.name, code := .builtin b }).2
  | setBinding (r : Nat) (name : String) (b : Binding) : Write s (s.setBinding r name b)
  | setArray (r : Nat) (f : Array Value → Array Value) : Write s (s.setArray r f)
  | extend (r : Nat) (items : Array Value) : Write s (s.extend r items)
  | setObject (r : Nat) (f : PropertyMap → PropertyMap) :
    Write s (s.setObject r fun o => { o with props := f o.props })
  | setFunction (r : Nat) (f : PropertyMap → PropertyMap) :
    Write s (s.setFunction r fun cell => { cell with props := f cell.props })
  | setStatics (c : Nat) (f : PropertyMap → PropertyMap) :
    Write s (s.setClass c fun cell => { cell with statics := f cell.statics })

/-- An edit of values, or a new cell of code. A frame for the constructor of a class is none. -/
inductive Store.Edit (s : Store) : Store → Prop
  | write {s' : Store} (h : s.Write s') : Edit s s'
  | addScope (c : Scope) : Edit s (s.addScope c).2
  | addFrame (f : Frame) (hf : f.pending = none) : Edit s (s.addFrame f).2
  | addFunction (f : FunctionCell) : Edit s (s.addFunction f).2
  | addClass (c : ClassCell) : Edit s (s.addClass c).2
  | setShared (c : Nat) (f : PropertyMap → PropertyMap) :
    Edit s (s.setClass c fun cell => { cell with shared := f cell.shared })

abbrev StepProperty : Type 1 := ∀ α : Type, EvalM α → Prop

/-- Steps that are put together from those with `B`. -/
inductive Composed (B : StepProperty) : ∀ {α : Type}, EvalM α → Prop
  | given {α : Type} {x : EvalM α} (h : B α x) : Composed B x
  | pure {α : Type} (a : α) : Composed B (Pure.pure a : EvalM α)
  | throw {α : Type} (stop : Stop) : Composed B (MonadExcept.throw stop : EvalM α)
  | bind {α β : Type} {x : EvalM α} {f : α → EvalM β} (hx : Composed B x)
    (hf : ∀ a, Composed B (f a)) : Composed B (x >>= f)
  /-- Which step is taken may depend on the store. -/
  | choose {α : Type} {x : EvalM α} (y : Store → EvalM α) (hy : ∀ s, Composed B (y s))
    (h : ∀ s, x s = y s s) : Composed B x
  | holding {α : Type} {x : EvalM α} (hx : Composed B x) (vs : List Value) :
    Composed B (EvalM.holding vs x)
  | inScope {α : Type} {x : EvalM α} (hx : Composed B x) (scope : Nat) :
    Composed B (EvalM.inScope scope x)
  | relabel {α : Type} {x : EvalM α} (hx : Composed B x) (label : String) :
    Composed B (EvalM.relabel label x)

/-- A property that is kept when steps are put together. -/
structure StepRules (S : StepProperty) : Prop where
  pure : ∀ {α : Type} (a : α), S α (Pure.pure a)
  throw : ∀ {α : Type} (stop : Stop), S α (MonadExcept.throw stop)
  bind : ∀ {α β : Type} {x : EvalM α} {f : α → EvalM β}, S α x → (∀ a, S β (f a)) → S β (x >>= f)
  choose : ∀ {α : Type} {x : EvalM α} (y : Store → EvalM α), (∀ s, S α (y s)) →
    (∀ s, x s = y s s) → S α x
  holding : ∀ {α : Type} {x : EvalM α}, S α x → ∀ vs, S α (EvalM.holding vs x)
  inScope : ∀ {α : Type} {x : EvalM α}, S α x → ∀ scope, S α (EvalM.inScope scope x)
  relabel : ∀ {α : Type} {x : EvalM α}, S α x → ∀ label, S α (EvalM.relabel label x)

namespace Composed

variable {B S : StepProperty} {α β : Type} {x : EvalM α} {f : α → EvalM β}

theorem has (hx : Composed B x) (rules : StepRules S) (hB : ∀ {α : Type} {x : EvalM α}, B α x → S α x) :
    S α x := by
  induction hx with
  | given h => exact hB h
  | pure a => exact rules.pure a
  | throw stop => exact rules.throw stop
  | bind _ _ ihx ihf => exact rules.bind ihx ihf
  | choose y _ h ih => exact rules.choose y ih h
  | holding _ vs ih => exact rules.holding ih vs
  | inScope _ scope ih => exact rules.inScope ih scope
  | relabel _ label ih => exact rules.relabel ih label

theorem fail (e : Fault) : Composed B (EvalM.fail e : EvalM α) := .throw _

theorem map (hx : Composed B x) (f : α → β) : Composed B (f <$> x) := by
  rw [map_eq_pure_bind]
  exact hx.bind fun a => .pure (f a)

theorem discard (hx : Composed B x) : Composed B (discard x) := hx.map _

theorem read {f : Store → EvalM α} (h : ∀ s, Composed B (f s)) :
    Composed B (MonadState.get >>= f) :=
  .choose f h fun _ => rfl

theorem get {f : Store → EvalM α} (h : ∀ s, ∃ y : EvalM α, Composed B y ∧ f s s = y s) :
    Composed B (MonadState.get >>= f) :=
  .choose (fun s => (h s).choose) (fun s => (h s).choose_spec.1) fun s => (h s).choose_spec.2

theorem forM {f : α → EvalM PUnit} {l : List α} (hf : ∀ a ∈ l, Composed B (f a)) :
    Composed B (l.forM f) := by
  induction l with
  | nil => exact .pure _
  | cons a l ih =>
    obtain ⟨ha, hl⟩ := List.forall_mem_cons.1 hf
    exact ha.bind fun _ => ih hl

theorem mapM (hf : ∀ a, Composed B (f a)) (l : List α) : Composed B (l.mapM f) := by
  induction l with
  | nil => exact .pure _
  | cons a l ih =>
    rw [List.mapM_cons]
    exact (hf a).bind fun b => ih.bind fun bs => .pure _

end Composed

/-- The parts that steps on values are put together from. -/
structure ValueParts (m : Machine) (B : StepProperty) : Prop where
  call : ∀ f this args, B _ (m.call f this args)
  new : ∀ c args, B _ (EvalM.construct m (.classOf c) args)
  write : ∀ {α : Type} {add : Store → α × Store}, (∀ s : Store, s.Write (add s).2) → B α (EvalM.make add)

/-- The parts that running code is put together from. -/
structure CodeParts (m : Machine) (B : StepProperty) : Prop extends ValueParts m B where
  superCall : ∀ scope args, B _ (m.superCall scope args)
  edit : ∀ {α : Type} {add : Store → α × Store}, (∀ s : Store, s.Edit (add s).2) → B α (EvalM.make add)

section

variable {m : Machine} {B : StepProperty} {α : Type} {add : Store → α × Store} {f : Store → Store}

theorem ValueParts.made (hB : ValueParts m B) (h : ∀ s : Store, s.Write (add s).2) :
    Composed B (EvalM.make add) :=
  .given (hB.write h)

theorem ValueParts.modified (hB : ValueParts m B) (h : ∀ s : Store, s.Write (f s)) :
    Composed B (modify f : EvalM Unit) :=
  have hmade : Composed B (EvalM.make fun s => ((), f s)) := hB.made h
  hmade

theorem CodeParts.created (hB : CodeParts m B) (h : ∀ s : Store, s.Edit (add s).2) :
    Composed B (EvalM.make add) :=
  .given (hB.edit h)

end

end Typings
