import Typings.Eval.Program
import Typings.Proofs.Eval.Expression
import Typings.Proofs.Syntax.Progress

namespace Typings

def Completion.Known (lax : Prop) (k : Nat) : Completion → Prop
  | .normal => True
  | .returned v => v.Known lax k

theorem ParseError.stop_allowed {lax : Prop} {n : Nat} {s s' : Store} {e : ParseError}
    (h : e.fault ≠ .exhausted) (name : String) : (e.stop name).Allowed lax n s s' := by
  unfold ParseError.stop
  split
  · rename_i hfault
    exact absurd hfault h
  · trivial

namespace EvalM

variable {lax : Prop} {n : Nat} {m : Machine} {s : Store} {this v : Value} {args : List Value}
  {c : Nat}

theorem declare_behaves (hv : s.Knows lax v) (scope : Nat) (name : String) :
    Behaves lax n s (fun _ _ => True) ((modify (·.declare scope name v) : EvalM Unit) s) :=
  .change (.declare scope name v hv) trivial rfl rfl

theorem declareConstant_behaves (hv : s.Knows lax v) (scope : Nat) (name : String) :
    Behaves lax n s (fun _ _ => True) ((modify (·.declareConstant scope name v) : EvalM Unit) s) :=
  .change (.declareConstant scope name v hv) trivial rfl rfl

theorem addScope_behaves {f : Store → Scope} (h : (f s).bindings = {}) :
    Behaves lax n s (fun _ _ => True) (make (fun s => s.addScope (f s)) s) :=
  .change (.addScope _ h) trivial rfl rfl

theorem declareVar_behaves (scope : Nat) (name : String) :
    Behaves lax n s (fun _ _ => True) (declareVar scope name s) := by
  change Behaves lax n s (fun _ _ => True)
    (.ok (), if s.binds name scope then s else s.declare scope name .undefined)
  split
  · exact .still trivial
  · exact .change (.declare scope name _ trivial) trivial rfl rfl

theorem hoistStatement_behaves (hs : s.Ready lax) (scope : Nat) (vars : Bool) (st : Statement) :
    Behaves lax n s (fun _ _ => True) (hoistStatement scope vars st s) := by
  unfold hoistStatement
  split
  · rename_i body
    cases body.name with
    | some name =>
      exact (newFunction_behaves _ scope none).bind hs fun f _ _ _ hf =>
        declare_behaves hf scope name
    | none => exact .pure trivial
  · split
    · exact .forM hs fun name _ _ _ _ => declareVar_behaves scope name
    · exact .pure trivial

theorem hoist_behaves (hs : s.Ready lax) (scope : Nat) (vars : Bool) (ss : List Statement) :
    Behaves lax n s (fun _ _ => True) (hoist scope vars ss s) :=
  .forM hs fun st _ _ _ hs' => hoistStatement_behaves hs' scope vars st

theorem writeVar_behaves (hv : s.Knows lax v) (scope : Nat) (name : String) :
    Behaves lax n s (fun _ _ => True) (writeVar scope name v s) := by
  refine .get ?_
  cases s.assignmentScope scope name with
  | ok r => exact declare_behaves hv r name
  | error f => exact declare_behaves hv scope name

theorem bindVariable_behaves (hs : s.Ready lax) (hv : s.Knows lax v) (scope : Nat)
    (kind : VariableKind) (name : String) (initialized : Bool) :
    Behaves lax n s (fun _ _ => True) (bindVariable scope kind name initialized v s) := by
  cases kind with
  | lexical => exact declare_behaves hv scope name
  | constant => exact declareConstant_behaves hv scope name
  | var =>
    unfold bindVariable
    dsimp only
    split
    · exact writeVar_behaves hv scope name
    · refine (lookup_behaves hs scope name).bind hs fun found s₁ h₁ _ _ => ?_
      split
      · exact writeVar_behaves (hv.later h₁) scope name
      · exact .pure trivial

section
variable (hm : m.Sound lax n)
include hm

theorem declarations_behaves (hs : s.Ready lax) (scope : Nat) (kind : VariableKind)
    (ds : List (String × Option Expr)) :
    Behaves lax n s (fun _ _ => True) (declarations m scope kind ds s) := by
  induction ds generalizing s with
  | nil => exact .pure trivial
  | cons d ds ih =>
    refine (fieldValue_safe hm scope d.1 d.2 hs).bind hs fun v s₁ _ hs₁ hv => ?_
    refine (bindVariable_behaves hs₁ hv scope kind d.1 d.2.isSome).bind hs₁ fun _ _ _ hs₂ _ => ?_
    exact ih hs₂

end

mutual

theorem exec_safe (hm : m.Sound lax n) (scope : Nat) :
    ∀ st : Statement, Safe lax n (Completion.Known lax) (exec m scope st)
  | .declaration kind ds _ => fun s hs => by
    rw [exec]
    exact (declarations_behaves hm hs scope kind ds).bind hs fun _ _ _ _ _ => .pure trivial
  | .function _ | .empty _ | .returns none _ => fun s hs => by
    rw [exec]
    exact .pure trivial
  | .classOf body => fun s hs => by
    rw [exec]
    refine (classValue_safe hm scope none body hs).bind hs fun c s₁ _ hs₁ hc => ?_
    have hdeclare : Behaves lax n s₁ (fun _ _ => True)
        ((modify fun s => s.declare scope (s.classCell c).name (.classOf c) : EvalM Unit) s₁) :=
      .change (.declare scope _ _ hc) trivial rfl rfl
    exact hdeclare.bind hs₁ fun _ _ _ _ _ => .pure trivial
  | .expression e _ => fun s hs => by
    rw [exec]
    exact (eval_behaves hm hs scope e).discard.bind hs fun _ _ _ _ _ => .pure trivial
  | .returns (some e) _ => fun s hs => by
    rw [exec]
    exact (eval_behaves hm hs scope e).bind hs fun _ _ _ _ hv => .pure hv
  | .branch condition consequent alternate _ => fun s hs => by
    rw [exec]
    refine (eval_behaves hm hs scope condition).bind hs fun v s₁ _ hs₁ _ => ?_
    split
    · exact exec_safe hm scope consequent hs₁
    · exact execElse_safe hm scope alternate hs₁
  | .block ss _ => fun s hs => by
    rw [exec]
    refine (addScope_behaves rfl).bind hs fun inner s₁ _ hs₁ _ => .inScope hs₁ fun s₂ _ hs₂ => ?_
    refine (hoist_behaves hs₂ inner false ss).bind hs₂ fun _ _ _ hs₃ _ => ?_
    exact execAll_safe hm inner ss hs₃
  | .throws e _ => fun s hs => by
    rw [exec]
    exact (eval_behaves hm hs scope e).bind hs fun _ _ _ _ hv => .thrown hv
  | .unsupported construct _ => fun s hs => by
    rw [exec]
    exact .fail _

theorem execAll_safe (hm : m.Sound lax n) (scope : Nat) :
    ∀ ss : List Statement, Safe lax n (Completion.Known lax) (execAll m scope ss)
  | [] => fun s hs => by
    rw [execAll]
    exact .pure trivial
  | st :: ss => fun s hs => by
    rw [execAll]
    refine (exec_safe hm scope st hs).bind hs fun done s₁ _ hs₁ hdone => ?_
    cases done with
    | returned v => exact .pure hdone
    | normal => exact execAll_safe hm scope ss hs₁

theorem execElse_safe (hm : m.Sound lax n) (scope : Nat) :
    ∀ st : Option Statement, Safe lax n (Completion.Known lax) (execElse m scope st)
  | none => fun s hs => by
    rw [execElse]
    exact .pure trivial
  | some st => fun s hs => by
    rw [execElse]
    exact exec_safe hm scope st hs

end

section
variable (hm : m.Sound lax n)
include hm

theorem parameterValue_behaves (hs : s.Ready lax) (scope : Nat) (p : Param)
    (ha : s.KnowsAll lax args) :
    Behaves lax n s (Value.Known lax) (parameterValue m scope p args s) := by
  unfold parameterValue
  split
  · exact gather_behaves ha
  have hhead : s.Knows lax (args.headD .undefined) := by
    cases args with
    | nil => trivial
    | cons v args => exact ha v (by simp)
  generalize args.headD .undefined = v at hhead
  cases v with
  | undefined =>
    cases p.default? with
    | none => exact .pure trivial
    | some e => exact evalNamed_behaves hm hs scope p.name e
  | _ => exact .pure hhead

theorem bindParams_behaves (hs : s.Ready lax) (scope : Nat) (ps : List Param)
    (ha : s.KnowsAll lax args) :
    Behaves lax n s (fun _ _ => True) (bindParams m scope ps args s) := by
  induction ps generalizing s args with
  | nil => exact .pure trivial
  | cons p ps ih =>
    refine (parameterValue_behaves hm hs scope p ha).bind hs fun v s₁ h₁ hs₁ hv => ?_
    refine (declare_behaves hv scope p.name).bind hs₁ fun _ s₂ h₂ hs₂ _ => ?_
    exact ih hs₂ fun v hv => (ha.later (h₁.trans h₂)) v (List.mem_of_mem_tail hv)

theorem runBody_behaves (hs : s.Ready lax) (name : String) (scope : Nat) (body : FunctionBody) :
    Behaves lax n s (Value.Known lax) (runBody m name scope body s) := by
  cases body with
  | concise e => exact eval_behaves hm hs scope e
  | block tokens =>
    have hread := Statement.ofTokens_ends tokens
    unfold runBody
    dsimp only
    cases hss : Statement.ofTokens tokens with
    | error e => exact .still (ParseError.stop_allowed (hread.error hss) name)
    | ok ss =>
      refine (hoist_behaves hs scope true ss).bind hs fun _ s₁ _ hs₁ _ => ?_
      refine (execAll_safe hm scope ss hs₁).bind hs₁ fun done s₂ _ _ hdone => ?_
      cases done with
      | returned v => exact .pure hdone
      | normal => exact .pure trivial

theorem runFunction_behaves (hs : s.Ready lax) (body : FunctionDef) (name : String) (scope : Nat)
    (ha : s.KnowsAll lax args) :
    Behaves lax n s (Value.Known lax) (runFunction m body name scope args s) := by
  refine (Behaves.holding hs fun s₁ h₁ hs₁ =>
    bindParams_behaves hm hs₁ scope body.params (ha.later h₁)).bind hs fun _ s₂ h₂ hs₂ _ => ?_
  split
  · exact .holding hs₂ fun _ _ hs₃ => runBody_behaves hm hs₃ name scope body.body
  · refine (gather_behaves (ha.later h₂)).bind hs₂ fun v s₃ _ hs₃ hv => ?_
    refine (declare_behaves hv scope "arguments").bind hs₃ fun _ s₄ _ hs₄ _ => ?_
    exact runBody_behaves hm hs₄ name scope body.body

omit hm in
theorem frameScope_behaves (hs : s.Ready lax) (env : Nat) {frame : Frame}
    (hf : frame.All (s.Knows lax)) :
    Behaves lax n s (fun _ _ => True) (frameScope env frame s) := by
  have hframe : Behaves lax n s (fun _ _ => True) (make (·.addFrame frame) s) :=
    .change (.addFrame frame hf) trivial rfl rfl
  refine hframe.bind hs fun f s₁ _ hs₁ _ => ?_
  exact (addScope_behaves rfl).bind hs₁ fun _ _ _ _ _ => .pure trivial

omit hm in
theorem callScope_behaves (hs : s.Ready lax) (body : FunctionDef) (env : Nat) (home : Option Nat)
    (ht : s.Knows lax this) :
    Behaves lax n s (fun _ _ => True) (callScope body env home this s) := by
  unfold callScope
  split
  · exact addScope_behaves rfl
  · refine (frameScope_behaves hs env ⟨?_, by simp⟩).bind hs fun _ _ _ _ _ => .pure trivial
    simpa using ht

theorem callFunction_behaves (hs : s.Ready lax) (f : Nat) (ht : s.Knows lax this)
    (ha : s.KnowsAll lax args) :
    Behaves lax (n + 1) s (Value.Known lax) (callFunction m f this args s) := by
  refine .asCall hs fun s₁ h₁ hs₁ => .holding hs₁ fun s₂ h₂ hs₂ => .get ?_
  replace ht := ht.later (h₁.trans h₂)
  replace ha := ha.later (h₁.trans h₂)
  cases (s₂.function f).code with
  | builtin b =>
    exact .holding hs₂ fun _ h₃ hs₃ => runBuiltin_behaves hm hs₃ b (ht.later h₃) (ha.later h₃)
  | script body env home =>
    refine (callScope_behaves hs₂ body env home ht).bind hs₂ fun scope s₃ h₃ hs₃ _ => ?_
    exact .inScope hs₃ fun _ h₄ hs₄ => runFunction_behaves hm hs₄ body _ scope
      (ha.later (h₃.trans h₄))

theorem addFields_behaves (hs : s.Ready lax) (scope : Nat) (object : Value)
    (fields : List (String × Option Expr)) :
    Behaves lax n s (fun _ _ => True) (addFields m scope object fields s) := by
  induction fields generalizing s with
  | nil => exact .pure trivial
  | cons field fields ih =>
    refine (fieldValue_safe hm scope field.1 field.2 hs).bind hs fun v s₁ _ hs₁ hv => ?_
    exact (setData_behaves hs₁ object field.1 hv).bind hs₁ fun _ _ _ hs₂ _ => ih hs₂

omit hm in
theorem refusing_sound (hm : m.Sound lax n) :
    ({ m with superCall := fun _ _ => fail .unexpectedSuper } : Machine).Sound lax n :=
  ⟨hm.call, hm.build, fun _ _ _ _ => .fail _⟩

omit hm in
theorem noteFields_behaves (hs : s.Ready lax) (c : Nat) (object : Value) :
    Behaves lax n s (fun _ _ => True) (noteFields c object s) := by
  cases object with
  | object r => exact .change (.setObject r _ (hs.sound.values.objects r)) trivial rfl rfl
  | _ => exact .pure trivial

theorem initializeFields_behaves (hs : s.Ready lax) (c : Nat) (ht : s.Knows lax this) :
    Behaves lax n s (fun _ _ => True) (initializeFields m c this s) := by
  refine (noteFields_behaves hs c this).bind hs fun _ s₁ h₁ hs₁ _ => .get ?_
  refine (frameScope_behaves hs₁ _ ⟨by simpa using ht.later h₁, by simp⟩).bind hs₁
    fun frame s₂ _ hs₂ _ => ?_
  exact .inScope hs₂ fun _ _ hs₃ => addFields_behaves (refusing_sound hm) hs₃ frame.2 this _

theorem constructSuper_behaves (hs : s.Ready lax) (c : Nat) (ht : s.Knows lax this)
    (ha : s.KnowsAll lax args) :
    Behaves lax n s (fun _ _ => True) (constructSuper m c this args s) := by
  refine .get ?_
  cases (s.classCell c).superclass with
  | classOf parent =>
    exact (hm.build parent hs ht ha).bind hs fun _ _ h₁ hs₁ _ =>
      initializeFields_behaves hm hs₁ c (ht.later h₁)
  | function f =>
    exact (hm.call f hs ht ha).discard.bind hs fun _ _ h₁ hs₁ _ =>
      initializeFields_behaves hm hs₁ c (ht.later h₁)
  | _ => exact .holding hs fun _ h₁ hs₁ => initializeFields_behaves hm hs₁ c (ht.later h₁)

theorem runOwnConstructor_behaves (hs : s.Ready lax) (c : Nat) (cell : ClassCell)
    (body : FunctionDef) (ht : s.Knows lax this) (ha : s.KnowsAll lax args) :
    Behaves lax n s (fun _ _ => True) (runOwnConstructor m c cell body this args s) := by
  refine (frameScope_behaves hs _ ⟨?_, by simpa using ht⟩).bind hs fun frame s₁ h₁ hs₁ _ => ?_
  · dsimp only
    split
    · simp
    · simpa using ht
  refine (Behaves.inScope hs₁ fun _ h₂ hs₂ =>
    runFunction_behaves hm hs₂ body cell.name frame.2 (ha.later (h₁.trans h₂))).discard.bind hs₁
      fun _ s₃ _ _ _ => ?_
  refine .get ?_
  split
  · exact .fail _
  · exact .pure trivial

theorem runConstructor_behaves (hs : s.Ready lax) (c : Nat) (ht : s.Knows lax this)
    (ha : s.KnowsAll lax args) :
    Behaves lax n s (fun _ _ => True) (runConstructor m c this args s) := by
  refine .get ?_
  dsimp only
  cases (s.classCell c).constructor? with
  | none => exact constructSuper_behaves hm hs c ht ha
  | some body =>
    dsimp only
    split
    · exact runOwnConstructor_behaves hm hs c _ body ht ha
    · refine (Behaves.holding hs fun _ h₁ hs₁ =>
        initializeFields_behaves hm hs₁ c (ht.later h₁)).bind hs fun _ _ h₂ hs₂ _ => ?_
      exact runOwnConstructor_behaves hm hs₂ c _ body (ht.later h₂) (ha.later h₂)

theorem build_behaves (hs : s.Ready lax) (c : Nat) (ht : s.Knows lax this)
    (ha : s.KnowsAll lax args) :
    Behaves lax (n + 1) s (fun _ _ => True) (asCall (runConstructor m c this args) s) :=
  .asCall hs fun _ h₁ hs₁ => runConstructor_behaves hm hs₁ c (ht.later h₁) (ha.later h₁)

theorem superCall_behaves (hs : s.Ready lax) (scope : Nat) (ha : s.KnowsAll lax args) :
    Behaves lax n s (fun _ _ => True) (superCall m scope args s) := by
  refine .get ?_
  cases s.frameOf? scope with
  | none => exact .fail _
  | some f =>
    have hframe := hs.sound.values.frames f
    dsimp only
    cases (s.frame f).constructorOf with
    | none => exact .fail _
    | some c =>
      dsimp only
      split
      · exact .fail_bind ..
      cases hpending : (s.frame f).pending with
      | none => exact .fail _
      | some this =>
        have ht : s.Knows lax this := hframe.2 this hpending
        have henter : Behaves lax n s (fun _ _ => True) ((modify (·.enter f) : EvalM Unit) s) :=
          .change (.setFrame f _ hframe) trivial rfl rfl
        refine henter.bind hs fun _ s₁ h₁ hs₁ _ => ?_
        refine (constructSuper_behaves hm hs₁ c (ht.later h₁) (ha.later h₁)).bind hs₁
          fun _ s₂ h₂ hs₂ _ => ?_
        refine .change (.setFrame f _ ⟨?_, (hs₂.sound.values.frames f).2⟩) trivial rfl rfl
        simpa using ht.later (h₁.trans h₂)

end

end EvalM

namespace Machine

variable {lax : Prop} {n : Nat} {m : Machine}

theorem exhausted_sound : exhausted.Sound lax 0 := by
  have hno : ∀ {s : Store}, s.Ready lax → ¬ s.Enough 0 := fun hs henough =>
    absurd henough.levels (by simpa using hs.depth_le)
  exact ⟨fun _ _ _ hs _ _ => .still (hno hs), fun _ _ _ hs _ _ => .still (hno hs),
    fun _ _ hs _ => .still (hno hs)⟩

theorem deeper_sound (hm : m.Sound lax n) : m.deeper.Sound lax (n + 1) := by
  -- a super call is no call of its own: it runs on the same level, whose calls come first
  have hcalls : Machine.Sound lax (n + 1)
      { m.deeper with superCall := fun _ _ => EvalM.fail .unexpectedSuper } :=
    { call := fun f _ _ hs ht ha => EvalM.callFunction_behaves hm hs f ht ha
      build := fun c _ _ hs ht ha => EvalM.build_behaves hm hs c ht ha
      superCall := fun _ _ _ _ => .fail _ }
  exact { call := hcalls.call
          build := hcalls.build
          superCall := fun scope _ hs ha => EvalM.superCall_behaves hcalls hs scope ha }

theorem levels_sound (n : Nat) : (levels n).Sound lax n := by
  induction n with
  | zero => exact exhausted_sound
  | succ n ih => exact deeper_sound ih

theorem full_sound : full.Sound lax (maxCallDepth + 1) := levels_sound _

end Machine

namespace EvalM

variable {lax : Prop} {n : Nat} {m : Machine} {s : Store}

theorem bindName_behaves (hs : s.Ready lax) {v : Value} (hv : s.Knows lax v) (scope : Nat)
    (name? : Option String) : Behaves lax n s (Value.Known lax) (bindName scope name? v s) := by
  cases name? with
  | some name =>
    exact (declare_behaves hv scope name).bind hs fun _ _ h _ _ => .pure (hv.later h)
  | none => exact .pure hv

section
variable (hm : m.Sound lax n)
include hm

theorem defaultValue_behaves (hs : s.Ready lax) (scope : Nat) (value : DefaultExport) :
    Behaves lax n s (Value.Known lax) (defaultValue m scope value s) := by
  cases value with
  | classOf body =>
    refine (classValue_safe hm scope _ body hs).bind hs fun c s₁ _ hs₁ hc => ?_
    exact bindName_behaves hs₁ hc scope body.name
  | function body =>
    refine (newFunction_behaves body scope _).bind hs fun f s₁ _ hs₁ hf => ?_
    exact bindName_behaves hs₁ hf scope body.name
  | expression e => exact evalNamed_behaves hm hs scope _ e

theorem runItem_behaves (hs : s.Ready lax) (scope : Nat) (item : ModuleItem) :
    Behaves lax n s (fun _ _ => True) (runItem m scope item s) := by
  cases item with
  | importDecl _ => exact .pure trivial
  | exportNamed _ _ => exact .pure trivial
  | exportDefault value _ =>
    exact (defaultValue_behaves hm hs scope value).bind hs fun v _ _ _ hv =>
      declareConstant_behaves hv scope _
  | exportDeclaration st => exact (exec_safe hm scope st hs).discard
  | statement st => exact (exec_safe hm scope st hs).discard

end

theorem runModule_behaves (hs : s.Ready lax) (scope : Nat) (body : Module) :
    Behaves lax (maxCallDepth + 1) s (fun _ _ => True) (runModule scope body s) := by
  refine (hoist_behaves hs scope true _).bind hs fun _ _ _ hs₁ _ => ?_
  exact .forM hs₁ fun item _ _ _ hs₂ => runItem_behaves Machine.full_sound hs₂ scope item

end EvalM

end Typings
