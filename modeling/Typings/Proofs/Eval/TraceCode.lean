import Typings.Proofs.Eval.ComposedCode
import Typings.Proofs.Eval.Provenance

namespace Typings

variable {Γ : Places} {m : Machine} {scope env : Nat} {source : ModuleSource}

/-- Calls and constructions leave a traced store traced. -/
structure Machine.Traces (m : Machine) : Prop where
  call : ∀ {Γ} f this args, Typings.Traces Γ (m.call f this args)
  build : ∀ {Γ} c this args, Typings.Traces Γ (m.build c this args)
  superCall : ∀ {Γ} scope args, Typings.Traces Γ (m.superCall scope args)

theorem Store.Write.sameCode {s s' : Store} (h : s.Write s') : s.SameCode s' := by
  cases h with
  | addBuiltin b => exact s.sameCode_addBuiltin b.name b
  | setBinding r name b => exact s.sameCode_setBinding r name b
  | setFunction r f => exact s.sameCode_setFunction r fun _ => rfl
  | setStatics c f => exact s.sameCode_setClass c fun _ => ⟨rfl, rfl, rfl⟩
  | _ => exact .of_eq rfl rfl rfl

theorem Traces.rules : StepRules fun _ x => Traces Γ x where
  pure := .pure
  throw := .throw
  bind := .bind
  choose _ hy h := fun s hs hΓ => h s ▸ hy s hs hΓ
  holding := .holding
  inScope := .inScope
  relabel := .relabel

theorem Composed.traces {α : Type} {x : EvalM α} (hx : Composed (fun _ x => Traces Γ x) x) :
    Traces Γ x :=
  hx.has Traces.rules id

theorem Machine.Traces.parts (hm : m.Traces) : ValueParts m fun _ x => Typings.Traces Γ x where
  call := hm.call
  new c args := Typings.Traces.bind (.make fun _ => .of_eq rfl rfl rfl) fun this =>
    ((hm.build c this args).holding _).bind fun _ => .pure this
  write h := .make fun s => (h s).sameCode

namespace Traces

theorem newScript {body : FunctionDef} (hbody : source.Has (.function body)) (r : Nat)
    (name : String) (home : Option Nat) :
    Traces [(r, source)] (EvalM.make (·.addFunction { name, code := .script body r home })) := by
  intro s hs hplace
  refine hs.addFunction fun body' env' home' hcode => ?_
  cases hcode
  exact ⟨source, hplace _ List.mem_cons_self, hbody⟩

/-- What runs after a class is made may rely on the file of the scope around its members. -/
theorem newClass {α : Type} {f : Nat → Nat → EvalM α} {body : ClassDef}
    (hbody : source.Has (.classOf body)) (r : Nat) (superclass : Value) (name : String)
    (hf : ∀ c env, Traces [(env, source)] (f c env)) :
    Traces [(r, source)] (do
      let s ← MonadState.get
      let env ← EvalM.make (·.addScope (s.inside r))
      let c ← EvalM.make (·.addClass { name, superclass, body, env, source := s.sourceOf? r })
      f c env) := by
  intro s hs hplace
  have hr : s.ReadFrom r source := hplace _ List.mem_cons_self
  have hmade := hs.addScope (c := s.inside r) rfl
  have henv : (s.addScope (s.inside r)).2.ReadFrom s.scopes.size source := hr.inside none
  let cell : ClassCell :=
    { name, superclass, body, env := s.scopes.size, source := s.sourceOf? r }
  have hclass := hmade.traced.addClass cell ⟨hr.source, henv, hbody⟩
  refine hmade.trans (hclass.trans (hf s.classes.size s.scopes.size hclass.traced ?_))
  exact (henv.later hclass.scopes).confirms

theorem addFrame (frame : Frame) : Traces Γ (EvalM.make (·.addFrame frame)) :=
  .make fun _ => .of_eq rfl rfl rfl

end Traces

theorem Machine.Traces.rules (hm : m.Traces) (source : ModuleSource) :
    CodeRules m source.Has fun r _ x => Typings.Traces [(r, source)] x where
  values _ := hm.parts
  superCall _ := hm.superCall
  children := ModuleSource.Has.children
  script := .newScript
  frame _ f _ := .addFrame f
  setShared _ c _ := .modify fun s => s.sameCode_setClass c fun _ => ⟨rfl, rfl, rfl⟩
  inside _ _ hf := .given (.inside fun inner => (hf inner).traces)
  newClass hbody r superclass name hf :=
    .given (.newClass hbody r superclass name fun c env => (hf c env).traces)

namespace EvalM

theorem frameScope_traces {α : Type} {f : Nat × Nat → EvalM α} (frame : Frame)
    (hf : ∀ r inner, Traces [(inner, source)] (f (r, inner))) :
    Traces [(env, source)] (frameScope env frame >>= f) := by
  simp only [frameScope, bind_assoc, pure_bind]
  exact (Traces.addFrame frame).bind fun r => .inside (hf r)

section
variable (hm : m.Traces)
include hm

theorem callFunction_traces (f : Nat) (this : Value) (args : List Value) :
    Traces Γ (callFunction m f this args) := by
  refine Traces.asCall (Traces.holding (.get fun s hs hΓ => ?_) _)
  cases hcode : (s.function f).code with
  | builtin b => exact (runBuiltin_composed hm.parts b this args).traces.holding _ hs hΓ
  | script body env home =>
    obtain ⟨source, henv, hbody⟩ := hs.functions f body env home hcode
    have hrun : Traces [(env, source)] (do
        let scope ← callScope body env home this
        inScope scope (runFunction m body (s.function f).name scope args)) :=
      (callScope_composed (hm.rules source) env body home this fun inner =>
        (runFunction_composed (hm.rules source) inner hbody _ args).inScope inner).traces
    exact hrun hs henv.confirms

theorem refusing_traces :
    ({ m with superCall := fun _ _ => fail .unexpectedSuper } : Machine).Traces :=
  ⟨hm.call, hm.build, fun _ _ => .fail _⟩

omit hm in
theorem fields_have {cell : ClassCell} (h : source.Has (.classOf cell.body)) :
    ∀ field ∈ cell.fields, Node.Each source.Has (field.2.toList.map .expr) := by
  intro field hfield
  have hmembers : Node.Each source.Has (cell.body.members.flatMap (·.kind.nodes)) :=
    (Node.each_append.1 h.children).2
  obtain ⟨member, hmember, heq⟩ := List.mem_filterMap.1 hfield
  have hnodes := hmembers.of_mem hmember
  split at heq
  · cases heq
    exact hnodes
  · cases heq

omit hm in
theorem frameScope_traces_of_unknown {α : Type} {f : Nat × Nat → EvalM α} (frame : Frame)
    (hf : ∀ out, Traces Γ (f out)) : Traces Γ (frameScope env frame >>= f) := by
  have hscope : ∀ r, Traces Γ (make fun s => s.addScope { s.inside env with frame := some r }) :=
    fun r s hs _ => hs.addScope rfl
  exact Traces.bind ((Traces.addFrame frame).bind fun r => (hscope r).bind fun _ => .pure _) hf

omit hm in
theorem noteFields_traces (c : Nat) (object : Value) : Traces Γ (noteFields c object) := by
  cases object with
  | object r => exact .modify fun _ => .of_eq rfl rfl rfl
  | _ => exact .pure _

theorem initializeFields_traces (c : Nat) (this : Value) :
    Traces Γ (initializeFields m c this) := by
  refine (noteFields_traces c this).bind fun _ => .get fun s hs hΓ => ?_
  by_cases hc : c < s.classes.size
  · obtain ⟨source, hclass⟩ := hs.classes c hc
    have hrun : Traces [((s.classCell c).env, source)] (do
        let made ← frameScope (s.classCell c).env { receiver := some this, home := some c }
        inScope made.2 <| addFields { m with superCall := fun _ _ => fail .unexpectedSuper } made.2 this
          (s.classCell c).fields) :=
      frameScope_traces _ fun _ inner =>
        (addFields_composed ((refusing_traces hm).rules source) inner this _
          (fields_have hclass.body)).traces.inScope inner
    exact hrun hs hclass.env.confirms
  · have hrun : Traces Γ (do
        let made ← frameScope 0 { receiver := some this, home := some c }
        inScope made.2 <| addFields { m with superCall := fun _ _ => fail .unexpectedSuper } made.2 this
          []) :=
      frameScope_traces_of_unknown _ fun out => Traces.inScope (.pure _) out.2
    simp only [Store.classCell_of_size_le (Nat.le_of_not_lt hc)]
    exact hrun hs hΓ

theorem constructSuper_traces (c : Nat) (this : Value) (args : List Value) :
    Traces Γ (constructSuper m c this args) := by
  refine .read fun s => ?_
  cases (s.classCell c).superclass with
  | classOf parent =>
    exact (hm.build parent this args).bind fun _ => initializeFields_traces hm c this
  | function f =>
    exact (hm.call f this args).discard.bind fun _ => initializeFields_traces hm c this
  | _ => exact (initializeFields_traces hm c this).holding args

theorem runOwnConstructor_traces {cell : ClassCell} {body : FunctionDef}
    (hbody : source.Has (.function body)) (c : Nat) (this : Value) (args : List Value) :
    Traces [(cell.env, source)] (runOwnConstructor m c cell body this args) := by
  refine frameScope_traces _ fun f inner => ?_
  have hrun := (runFunction_composed (hm.rules source) inner hbody cell.name args).traces
  refine (hrun.inScope inner).discard.bind fun _ => .read fun s => ?_
  split
  · exact .fail _
  · exact .pure _

theorem runConstructor_traces (c : Nat) (this : Value) (args : List Value) :
    Traces Γ (runConstructor m c this args) := by
  refine .get fun s hs hΓ => ?_
  dsimp only
  cases hconstructor : (s.classCell c).constructor? with
  | none => exact constructSuper_traces hm c this args hs hΓ
  | some body =>
    obtain ⟨source, hclass⟩ := hs.classes c (Store.lt_of_constructor? hconstructor)
    have hbody : source.Has (.function body) := by
      refine hclass.body.children _ ?_
      have hbody : (s.classCell c).body.constructor? = some body := hconstructor
      simp [Node.children, ClassDef.nodes, hbody]
    have hrun : Traces [((s.classCell c).env, source)]
        (runOwnConstructor m c (s.classCell c) body this args) :=
      runOwnConstructor_traces hm hbody c this args
    split
    · exact hrun hs hclass.env.confirms
    · exact ((initializeFields_traces hm c this).holding args).bind (fun _ => hrun) hs
        hclass.env.confirms

theorem superCall_traces (scope : Nat) (args : List Value) : Traces Γ (superCall m scope args) := by
  refine .read fun s => ?_
  cases s.frameOf? scope with
  | none => exact .fail _
  | some f =>
    dsimp only
    cases (s.frame f).constructorOf with
    | none => exact .fail _
    | some c =>
      dsimp only
      cases (s.frame f).pending with
      | none =>
        split
        · exact Traces.bind (.fail _) fun _ => .fail _
        · exact .fail _
      | some this =>
        have hrest : Traces Γ (do
            modify (·.enter f)
            constructSuper m c this args
            modify (·.bindFrame f this) : EvalM Unit) :=
          Traces.bind (.modify fun _ => .of_eq rfl rfl rfl) fun _ =>
            (constructSuper_traces hm c this args).bind fun _ => .modify fun _ => .of_eq rfl rfl rfl
        split
        · exact Traces.bind (.fail _) fun _ => hrest
        · exact hrest

end

end EvalM

namespace Machine

variable {m : Machine}

theorem exhausted_traces : exhausted.Traces :=
  ⟨fun _ _ _ => .throw _, fun _ _ _ => .throw _, fun _ _ => .throw _⟩

theorem deeper_traces (hm : m.Traces) : m.deeper.Traces := by
  have hcalls : Machine.Traces
      { m.deeper with superCall := fun _ _ => EvalM.fail .unexpectedSuper } :=
    { call := EvalM.callFunction_traces hm
      build := fun c this args => (EvalM.runConstructor_traces hm c this args).asCall
      superCall := fun _ _ => .fail _ }
  exact { call := hcalls.call
          build := hcalls.build
          superCall := EvalM.superCall_traces hcalls }

theorem levels_traces (n : Nat) : (levels n).Traces := by
  induction n with
  | zero => exact exhausted_traces
  | succ n ih => exact deeper_traces ih

theorem full_traces : full.Traces := levels_traces _

end Machine

namespace EvalM

theorem runModule_traces {body : Module} (h : Module.ofSource source.text = .ok body) :
    Traces [(scope, source)] (runModule scope body) :=
  (runModule_composed (Machine.full_traces.rules source) scope fun _ hitem _ hn =>
    ⟨body, h, .item hitem hn⟩).traces

end EvalM

end Typings
