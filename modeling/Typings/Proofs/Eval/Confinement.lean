import Typings.Proofs.Eval.Session

namespace Typings

/--
The scope in which a `var` of the scope `r` binds a name: that of the nearest binding, or `r` itself
if there is none that can be assigned.
-/
def Store.varScope (s : Store) (r : Nat) (name : String) : Nat :=
  (s.assignmentScope r name).toOption.getD r

/-- Steps under watch: none when a `var` has bound a name outside of its activation. -/
abbrev WatchedM := ExceptT Stop (StateT Store Option)

instance : MonadLift EvalM WatchedM := ⟨fun x s => some (x s)⟩

namespace WatchedM

def holding {α : Type} (vs : List Value) (x : WatchedM α) : WatchedM α := fun s =>
  (x { s with held := vs :: s.held }).map fun out => (out.1, { out.2 with held := s.held })

def inScope {α : Type} (scope : Nat) (x : WatchedM α) : WatchedM α := fun s =>
  (x { s with running := scope :: s.running }).map fun out =>
    (out.1, { out.2 with running := s.running })

def asCall {α : Type} (x : WatchedM α) : WatchedM α := fun s =>
  if s.depth < maxCallDepth then
    (x { s with depth := s.depth + 1, deepest := max s.deepest (s.depth + 1) }).map fun out =>
      (out.1, { out.2 with depth := out.2.depth - 1 })
  else some (.error (.fault .callDepth), s)

def bindVariable (own : List Nat) (scope : Nat) (kind : VariableKind) (name : String)
    (initialized : Bool) (v : Value) : WatchedM Unit := fun s =>
  if kind = .var ∧ s.varScope scope name ∉ own then none
  else some (EvalM.bindVariable scope kind name initialized v s)

def declarations (m : Machine) (own : List Nat) (scope : Nat) (kind : VariableKind) :
    List (String × Option Expr) → WatchedM Unit
  | [] => return ()
  | d :: rest => do
    let v ← EvalM.fieldValue m scope d.1 d.2
    bindVariable own scope kind d.1 d.2.isSome v
    declarations m own scope kind rest

mutual

/-- Execute a statement; `around` are the scopes of the activation around that of the statement. -/
def exec (m : Machine) (around : List Nat) (scope : Nat) : Statement → WatchedM Completion
  | .declaration kind ds _ => do
    declarations m (scope :: around) scope kind ds
    return .normal
  | .branch condition consequent alternate _ => do
    if (← EvalM.eval m scope condition).isTruthy then exec m around scope consequent
    else execElse m around scope alternate
  | .block ss _ => do
    let inner ← EvalM.make fun s => s.addScope (s.inside scope)
    inScope inner do
      EvalM.hoist inner false ss
      execAll m (scope :: around) inner ss
  | st => EvalM.exec m scope st

def execAll (m : Machine) (around : List Nat) (scope : Nat) : List Statement → WatchedM Completion
  | [] => return .normal
  | st :: ss => do
    match ← exec m around scope st with
    | .returned v => return .returned v
    | .normal => execAll m around scope ss

def execElse (m : Machine) (around : List Nat) (scope : Nat) : Option Statement → WatchedM Completion
  | none => return .normal
  | some st => exec m around scope st

end

def runBody (m : Machine) (name : String) (scope : Nat) : FunctionBody → WatchedM Value
  | .concise e => EvalM.eval m scope e
  | .block tokens _ =>
    match Statement.ofTokens tokens with
    | .error e => throw (e.stop name)
    | .ok ss => do
      EvalM.hoist scope true ss
      match ← execAll m [] scope ss with
      | .returned v => return v
      | .normal => return .undefined

def runFunction (m : Machine) (body : FunctionDef) (name : String) (scope : Nat)
    (args : List Value) : WatchedM Value := do
  EvalM.holding args (EvalM.bindParams m scope body.params args)
  if body.isArrow then holding args (runBody m name scope body.body)
  else
    let v ← EvalM.make (·.gather args.toArray)
    (modify (·.declare scope "arguments" v) : EvalM Unit)
    runBody m name scope body.body

def callFunction (m : Machine) (f : Nat) (this : Value) (args : List Value) : WatchedM Value :=
  asCall <| holding [.function f] do
    let cell := (← get).function f
    match cell.code with
    | .builtin b => EvalM.holding (this :: args) (EvalM.runBuiltin m b this args)
    | .script body env home =>
      let scope ← EvalM.callScope body env home this
      inScope scope (runFunction m body cell.name scope args)

def runItem (m : Machine) (scope : Nat) : ModuleItem → WatchedM Unit
  | .exportDeclaration st | .statement st => do
    let _ ← exec m [] scope st
    return ()
  | item => EvalM.runItem m scope item

def runModule (scope : Nat) (body : Module) : WatchedM Unit := do
  EvalM.hoist scope true body.statements
  body.items.forM (runItem .full scope)

end WatchedM

namespace Store

variable {s s' : Store} {scope : Nat} {around : List Nat} {names : List String} {name : String}

theorem binds_declare {r : Nat} (h : r < s.scopes.size) (name : String) (v : Value) :
    (s.declare r name v).binds name r = true := by
  rw [binds, declare, scope_setBinding, if_pos ⟨rfl, h⟩]
  exact Std.TreeMap.contains_insert_self

/--
The scope `scope` lies inside the scopes `around`, nearest first, and some names are bound in one of
them.
-/
structure Inside (s : Store) (scope : Nat) (around : List Nat) (names : List String) : Prop where
  lt : scope < s.scopes.size
  enclosed : around <+: (s.scope scope).outer
  bound : ∀ name ∈ names, ∃ r ∈ scope :: around, s.binds name r = true

theorem Inside.later (h : s.Inside scope around names) (hk : s.ImportsKept s') :
    s'.Inside scope around names where
  lt := Nat.lt_of_lt_of_le h.lt hk.size
  enclosed := hk.outer scope h.lt ▸ h.enclosed
  bound name hname :=
    have ⟨r, hr, hb⟩ := h.bound name hname
    ⟨r, hr, hk.binds r name hb⟩

theorem Inside.mono {names' : List String} (h : s.Inside scope around names)
    (hsub : ∀ name ∈ names', name ∈ names) : s.Inside scope around names' :=
  { h with bound := fun name hname => h.bound name (hsub name hname) }

theorem Inside.addScope (h : s.Inside scope around names) :
    (s.addScope (s.inside scope)).2.Inside s.scopes.size (scope :: around) names where
  lt := by simp [Store.addScope]
  enclosed := by
    rw [scope_addScope, if_pos rfl]
    exact (List.prefix_cons_inj scope).2 h.enclosed
  bound name hname :=
    have ⟨r, hr, hb⟩ := h.bound name hname
    ⟨r, List.mem_cons_of_mem _ hr, (ImportsKept.addScope rfl).binds r name hb⟩

theorem Inside.varScope_mem (h : s.Inside scope around names) (hname : name ∈ names) :
    s.varScope scope name ∈ scope :: around := by
  obtain ⟨rest, hrest⟩ := h.enclosed
  obtain ⟨r, hr, hb⟩ := h.bound name hname
  have hchain : s.chain scope = (scope :: around) ++ rest := by rw [chain, ← hrest, List.cons_append]
  have hfound : ((scope :: around).find? (s.binds name)).isSome := List.find?_isSome.2 ⟨r, hr, hb⟩
  obtain ⟨r₀, hr₀⟩ := Option.isSome_iff_exists.1 hfound
  have hnear : s.nearest? scope name = some r₀ := by
    rw [nearest?, hchain, List.find?_append, hr₀, Option.some_or]
  have hmem : r₀ ∈ scope :: around := List.mem_of_find?_eq_some hr₀
  rw [varScope, assignmentScope, hnear]
  dsimp only
  split
  · exact List.mem_cons_self
  · exact List.mem_cons_self
  · exact hmem

end Store

namespace EvalM

variable {n : Nat} {m : Machine} {s s' : Store} {scope : Nat} {around : List Nat} {α β : Type}
  {P : Nat → α → Prop}

/-- What a `var` does: nothing, or the name is bound anew in the scope that was found for it. -/
theorem bindVariable_var (scope : Nat) (name : String) (initialized : Bool) (v : Value) (s : Store) :
    (bindVariable scope .var name initialized v s).2 = s ∨
      bindVariable scope .var name initialized v s =
        (.ok (), s.declare (s.varScope scope name) name v) := by
  have hwrite : writeVar scope name v s = (.ok (), s.declare (s.varScope scope name) name v) := by
    rw [writeVar, get_bind, Store.varScope]
    cases s.assignmentScope scope name <;> rfl
  rw [bindVariable]
  cases initialized with
  | true => exact .inr hwrite
  | false =>
    have hlookup : (lookup scope name s).2 = s := by
      rw [lookup, get_bind]
      cases s.search? scope name <;> rfl
    rcases hout : lookup scope name s with ⟨stop | found, s₁⟩
    · rw [if_neg Bool.false_ne_true, bind_error hout]
      exact .inl ((congrArg Prod.snd hout).symm.trans hlookup)
    · obtain rfl : s₁ = s := (congrArg Prod.snd hout).symm.trans hlookup
      rw [if_neg Bool.false_ne_true, bind_ok hout]
      split
      · exact .inr hwrite
      · exact .inl rfl

theorem declareVar_binds (hlt : scope < s.scopes.size) (name : String) :
    (declareVar scope name s).2.binds name scope = true := by
  change (if s.binds name scope then s else s.declare scope name .undefined).binds name scope = true
  split
  · assumption
  · exact Store.binds_declare hlt name .undefined

theorem forM_declareVar_binds {names : List String} {name : String} (hs : s.Ready True)
    (hlt : scope < s.scopes.size) (h : names.forM (declareVar scope) s = (.ok (), s'))
    (hname : name ∈ names) : s'.binds name scope = true := by
  induction names generalizing s with
  | nil => cases hname
  | cons x names ih =>
    obtain ⟨_, s₁, hrun, hrest⟩ := bind_run_ok h
    have hx : Behaves True 0 s _ (declareVar scope x s) := declareVar_behaves scope x
    rw [hrun] at hx
    have hkept := hx.evolves.importsKept
    have hs₁ := hs.later hx.evolves hx.depth
    rcases List.mem_cons.1 hname with rfl | hname
    · have hall : Behaves True 0 s₁ _ (names.forM (declareVar scope) s₁) :=
        .forM hs₁ fun y _ _ _ _ => declareVar_behaves scope y
      have hbinds := declareVar_binds hlt name
      rw [hrun] at hbinds
      rw [hrest] at hall
      exact hall.evolves.importsKept.binds scope name hbinds
    · exact ih hs₁ (Nat.lt_of_lt_of_le hlt hkept.size) hrest hname

/-- What is hoisted into the scope of a call or a module binds every name that a `var` declares. -/
theorem hoist_binds {ss : List Statement} {name : String} (hs : s.Ready True)
    (hlt : scope < s.scopes.size) (h : hoist scope true ss s = (.ok (), s'))
    (hname : name ∈ Statement.varNamesAll ss) : s'.binds name scope = true := by
  induction ss generalizing s with
  | nil => cases hname
  | cons st ss ih =>
    obtain ⟨_, s₁, hrun, hrest⟩ := bind_run_ok h
    have hst : Behaves True 0 s _ (hoistStatement scope true st s) :=
      hoistStatement_behaves hs scope true st
    rw [hrun] at hst
    have hs₁ := hs.later hst.evolves hst.depth
    rw [Statement.varNamesAll, List.mem_append] at hname
    rcases hname with hname | hname
    · have hall : Behaves True 0 s₁ _ (hoist scope true ss s₁) := hoist_behaves hs₁ scope true ss
      have hbinds : s₁.binds name scope = true := by
        cases st with
        | function body => cases hname
        | _ => exact forM_declareVar_binds hs hlt hrun hname
      change hoist scope true ss s₁ = _ at hrest
      rw [hrest] at hall
      exact hall.evolves.importsKept.binds scope name hbinds
    · exact ih hs₁ (Nat.lt_of_lt_of_le hlt hst.evolves.importsKept.size) hrest hname

theorem hoist_inside {ss : List Statement} (hs : s.Ready True) (hlt : scope < s.scopes.size)
    (h : hoist scope true ss s = (.ok (), s')) (hk : s.ImportsKept s') :
    s'.Inside scope [] (Statement.varNamesAll ss) where
  lt := Nat.lt_of_lt_of_le hlt hk.size
  enclosed := List.nil_prefix
  bound _ hname := ⟨scope, List.mem_cons_self, hoist_binds hs hlt h hname⟩

end EvalM

namespace WatchedM

variable {n : Nat} {m : Machine} {s : Store} {scope : Nat} {around : List Nat} {α β : Type}
  {P : Nat → α → Prop} {x : EvalM α} {f : α → EvalM β} {y : WatchedM α} {g : α → WatchedM β}

theorem bind_eq (hs : s.Ready True) (hx : Behaves True n s P (x s)) (hy : y s = some (x s))
    (hg : ∀ a s', x s = (.ok a, s') → s.ImportsKept s' → s'.Ready True → g a s' = some (f a s')) :
    (y >>= g) s = some ((x >>= f) s) := by
  have hrun : (y >>= g) s = (y s).bind fun out => ExceptT.bindCont g out.1 out.2 := rfl
  rw [hrun, hy]
  rcases hout : x s with ⟨stop | a, s'⟩
  · rw [bind_error hout]
    rfl
  · rw [hout] at hx
    rw [bind_ok hout]
    exact hg a s' hout hx.evolves.importsKept (hs.later hx.evolves hx.depth)

theorem holding_eq (hs : s.Ready True) (vs : List Value)
    (h : ∀ s', s.ImportsKept s' → s'.Ready True → y s' = some (x s')) :
    holding vs y s = some (EvalM.holding vs x s) := by
  have hstart : s.Evolves True { s with held := vs :: s.held } := .noted ..
  rw [holding, h _ hstart.importsKept (hs.later hstart rfl)]
  rfl

theorem inScope_eq (hs : s.Ready True) (scope : Nat)
    (h : ∀ s', s.ImportsKept s' → s'.Ready True → y s' = some (x s')) :
    inScope scope y s = some (EvalM.inScope scope x s) := by
  have hstart : s.Evolves True { s with running := scope :: s.running } := .noted ..
  rw [inScope, h _ hstart.importsKept (hs.later hstart rfl)]
  rfl

theorem asCall_eq (h : ∀ s', s'.Ready True → y s' = some (x s')) :
    asCall y s = some (EvalM.asCall x s) := by
  unfold asCall EvalM.asCall
  split
  · rename_i hlt
    have hready : Store.Ready True
        { s with depth := s.depth + 1, deepest := max s.deepest (s.depth + 1) } :=
      Store.ready_of_depth_le hlt
    rw [h _ hready]
    rfl
  · rfl

theorem declarations_eq (hm : m.Sound True n) (hs : s.Ready True) {kind : VariableKind}
    {ds : List (String × Option Expr)}
    (hin : kind = .var → s.Inside scope around (ds.map (·.1))) :
    declarations m (scope :: around) scope kind ds s = some (EvalM.declarations m scope kind ds s) := by
  induction ds generalizing s with
  | nil => rfl
  | cons d ds ih =>
    refine bind_eq hs (EvalM.fieldValue_safe hm scope d.1 d.2 hs) rfl fun v s₁ _ h₁ hs₁ => ?_
    have hbind : bindVariable (scope :: around) scope kind d.1 d.2.isSome v s₁ =
        some (EvalM.bindVariable scope kind d.1 d.2.isSome v s₁) := by
      refine if_neg ?_
      rintro ⟨hvar, hnot⟩
      exact hnot (((hin hvar).later h₁).varScope_mem List.mem_cons_self)
    refine bind_eq (n := n) hs₁ (EvalM.bindVariable_behaves hs₁ (Store.knows_of_lax ..) ..) hbind
      fun _ s₂ _ h₂ hs₂ => ih hs₂ fun hvar => ?_
    exact (((hin hvar).later h₁).later h₂).mono fun name hname => List.mem_cons_of_mem _ hname

mutual

theorem exec_eq (hm : m.Sound True n) (scope : Nat) (around : List Nat) :
    ∀ (st : Statement) {s : Store}, s.Ready True → s.Inside scope around st.varNames →
      exec m around scope st s = some (EvalM.exec m scope st s)
  | .declaration kind ds _, s, hs, hin => by
    rw [exec, EvalM.exec]
    have hds : kind = .var → s.Inside scope around (ds.map (·.1)) := by
      rintro rfl
      exact hin
    exact bind_eq hs (EvalM.declarations_behaves hm hs scope kind ds) (declarations_eq hm hs hds)
      fun _ _ _ _ _ => rfl
  | .branch condition consequent alternate _, s, hs, hin => by
    rw [Statement.varNames] at hin
    rw [exec, EvalM.exec]
    refine bind_eq hs (EvalM.eval_behaves hm hs scope condition) rfl fun v s₁ _ h₁ hs₁ => ?_
    have hin₁ := hin.later h₁
    split
    · exact exec_eq hm scope around consequent hs₁ (hin₁.mono fun _ => List.mem_append_left _)
    · exact execElse_eq hm scope around alternate hs₁ (hin₁.mono fun _ => List.mem_append_right _)
  | .block ss _, s, hs, hin => by
    rw [Statement.varNames] at hin
    rw [exec, EvalM.exec]
    refine bind_eq (n := n) hs (EvalM.addScope_behaves rfl) rfl ?_
    rintro _ s₁ ⟨⟩ _ hs₁
    refine inScope_eq hs₁ _ fun s₂ h₂ hs₂ => ?_
    refine bind_eq (n := n) hs₂ (EvalM.hoist_behaves hs₂ _ false ss) rfl fun _ s₃ _ h₃ hs₃ => ?_
    exact execAll_eq hm _ (scope :: around) ss hs₃ ((hin.addScope.later h₂).later h₃)
  | .function _, _, _, _ | .empty _, _, _, _ | .classOf _, _, _, _ | .expression _ _, _, _, _
  | .returns _ _, _, _, _ | .throws _ _, _, _, _ | .unsupported _ _, _, _, _ => rfl

theorem execAll_eq (hm : m.Sound True n) (scope : Nat) (around : List Nat) :
    ∀ (ss : List Statement) {s : Store}, s.Ready True →
      s.Inside scope around (Statement.varNamesAll ss) →
      execAll m around scope ss s = some (EvalM.execAll m scope ss s)
  | [], _, _, _ => rfl
  | st :: ss, s, hs, hin => by
    rw [Statement.varNamesAll] at hin
    rw [execAll, EvalM.execAll]
    have hst := exec_eq hm scope around st hs (hin.mono fun _ => List.mem_append_left _)
    refine bind_eq hs (EvalM.exec_safe hm scope st hs) hst fun done s₁ _ h₁ hs₁ => ?_
    cases done with
    | returned v => rfl
    | normal =>
      exact execAll_eq hm scope around ss hs₁
        ((hin.later h₁).mono fun _ => List.mem_append_right _)

theorem execElse_eq (hm : m.Sound True n) (scope : Nat) (around : List Nat) :
    ∀ (st : Option Statement) {s : Store}, s.Ready True →
      s.Inside scope around (Statement.varNamesElse st) →
      execElse m around scope st s = some (EvalM.execElse m scope st s)
  | none, _, _, _ => rfl
  | some st, s, hs, hin => by
    rw [Statement.varNamesElse] at hin
    rw [execElse, EvalM.execElse]
    exact exec_eq hm scope around st hs hin

end

theorem runBody_eq (hm : m.Sound True n) (hs : s.Ready True) (hlt : scope < s.scopes.size)
    (name : String) (body : FunctionBody) :
    runBody m name scope body s = some (EvalM.runBody m name scope body s) := by
  cases body with
  | concise e => rfl
  | block tokens opening =>
    rw [runBody, EvalM.runBody]
    cases Statement.ofTokens tokens with
    | error e => rfl
    | ok ss =>
      refine bind_eq (n := n) hs (EvalM.hoist_behaves hs scope true ss) rfl
        fun _ s₁ hrun h₁ hs₁ => ?_
      have hin := EvalM.hoist_inside hs hlt hrun h₁
      refine bind_eq hs₁ (EvalM.execAll_safe hm scope ss hs₁) (execAll_eq hm scope [] ss hs₁ hin)
        fun done _ _ _ _ => ?_
      cases done <;> rfl

theorem runFunction_eq (hm : m.Sound True n) (hs : s.Ready True) (hlt : scope < s.scopes.size)
    (body : FunctionDef) (name : String) (args : List Value) :
    runFunction m body name scope args s = some (EvalM.runFunction m body name scope args s) := by
  have hparams : Behaves True n s (fun _ _ => True)
      (EvalM.holding args (EvalM.bindParams m scope body.params args) s) :=
    .holding hs fun s₁ _ hs₁ =>
      EvalM.bindParams_behaves hm hs₁ scope body.params fun v _ => s₁.knows_of_lax v
  refine bind_eq hs hparams rfl fun _ s₁ _ h₁ hs₁ => ?_
  have hlt₁ := Nat.lt_of_lt_of_le hlt h₁.size
  split
  · exact holding_eq hs₁ args fun s₂ h₂ hs₂ =>
      runBody_eq hm hs₂ (Nat.lt_of_lt_of_le hlt₁ h₂.size) name body.body
  · refine bind_eq (n := n) hs₁ (EvalM.gather_behaves fun v _ => s₁.knows_of_lax v) rfl
      fun v s₂ _ h₂ hs₂ => ?_
    refine bind_eq (n := n) hs₂ (EvalM.declare_behaves (s₂.knows_of_lax v) scope _) rfl
      fun _ s₃ _ h₃ hs₃ => ?_
    exact runBody_eq hm hs₃ (Nat.lt_of_lt_of_le hlt₁ (h₂.trans h₃).size) name body.body

theorem callScope_new (body : FunctionDef) (env : Nat) (home : Option Nat) (this : Value) (s : Store) :
    ∃ s', EvalM.callScope body env home this s = (.ok s.scopes.size, s') ∧
      s'.scopes.size = s.scopes.size + 1 := by
  unfold EvalM.callScope
  split
  · exact ⟨_, rfl, Array.size_push ..⟩
  · exact ⟨_, rfl, Array.size_push ..⟩

theorem callFunction_eq (hm : m.Sound True n) (f : Nat) (this : Value) (args : List Value) (s : Store) :
    callFunction m f this args s = some (EvalM.callFunction m f this args s) := by
  refine asCall_eq fun s₁ hs₁ => holding_eq hs₁ _ fun s₂ _ hs₂ => ?_
  have hget : Behaves True n s₂ (fun _ _ => True) ((get : EvalM Store) s₂) := .still trivial
  refine bind_eq hs₂ hget rfl ?_
  rintro _ _ ⟨⟩ _ _
  dsimp only
  cases (s₂.function f).code with
  | builtin b => rfl
  | script body env home =>
    have hscope : Behaves True n s₂ (fun _ _ => True) (EvalM.callScope body env home this s₂) :=
      EvalM.callScope_behaves hs₂ body env home (s₂.knows_of_lax this)
    refine bind_eq hs₂ hscope rfl fun scope s₃ hrun _ hs₃ => ?_
    obtain ⟨s', hnew, hsize⟩ := callScope_new body env home this s₂
    obtain ⟨rfl, rfl⟩ : scope = s₂.scopes.size ∧ s₃ = s' := by
      rw [hnew] at hrun
      cases hrun
      exact ⟨rfl, rfl⟩
    refine inScope_eq hs₃ _ fun s₄ h₄ hs₄ => ?_
    exact runFunction_eq hm hs₄ (Nat.lt_of_lt_of_le (hsize ▸ Nat.lt_succ_self _) h₄.size) body _ args

theorem runItem_eq (hm : m.Sound True n) (hs : s.Ready True) {item : ModuleItem}
    (hin : ∀ st, item = .statement st ∨ item = .exportDeclaration st →
      s.Inside scope [] st.varNames) :
    runItem m scope item s = some (EvalM.runItem m scope item s) := by
  have hexec : ∀ st : Statement, s.Inside scope [] st.varNames →
      (do let _ ← exec m [] scope st; return () : WatchedM Unit) s =
        some (discard (EvalM.exec m scope st) s) := by
    intro st hst
    have hdiscard : discard (EvalM.exec m scope st) = (fun _ => ()) <$> EvalM.exec m scope st := rfl
    rw [hdiscard, map_eq_pure_bind]
    exact bind_eq hs (EvalM.exec_safe hm scope st hs) (exec_eq hm scope [] st hs hst)
      fun _ _ _ _ _ => rfl
  cases item with
  | statement st => exact hexec st (hin st (.inl rfl))
  | exportDeclaration st => exact hexec st (hin st (.inr rfl))
  | importDecl | exportNamed | exportDefault => rfl

theorem forM_runItem_eq (hm : m.Sound True n) (hs : s.Ready True) {names : List String}
    (hin : s.Inside scope [] names) {items : List ModuleItem}
    (hnames : ∀ item ∈ items, ∀ st, item = .statement st ∨ item = .exportDeclaration st →
      ∀ name ∈ st.varNames, name ∈ names) :
    items.forM (runItem m scope) s = some (items.forM (EvalM.runItem m scope) s) := by
  induction items generalizing s with
  | nil => rfl
  | cons item items ih =>
    have hitem := runItem_eq hm hs fun st hst => hin.mono (hnames item List.mem_cons_self st hst)
    refine bind_eq hs (EvalM.runItem_behaves hm hs scope item) hitem fun _ s₁ _ h₁ hs₁ => ?_
    exact ih hs₁ (hin.later h₁) fun item' hitem' => hnames item' (List.mem_cons_of_mem _ hitem')

end WatchedM

theorem Statement.mem_varNamesAll {st : Statement} {ss : List Statement} (h : st ∈ ss) {name : String}
    (hname : name ∈ st.varNames) : name ∈ varNamesAll ss := by
  induction ss with
  | nil => cases h
  | cons st' ss ih =>
    rw [varNamesAll, List.mem_append]
    rcases List.mem_cons.1 h with rfl | h
    · exact .inl hname
    · exact .inr (ih h)

theorem WatchedM.runModule_eq {s : Store} {scope : Nat} (hs : s.Ready True)
    (hlt : scope < s.scopes.size) (body : Module) :
    runModule scope body s = some (EvalM.runModule scope body s) := by
  refine bind_eq (n := 0) hs (EvalM.hoist_behaves hs scope true body.statements) rfl
    fun _ s₁ hrun h₁ hs₁ => ?_
  have hin := EvalM.hoist_inside hs hlt hrun h₁
  refine forM_runItem_eq Machine.full_sound hs₁ hin fun item hitem st hst name hname => ?_
  refine Statement.mem_varNamesAll (List.mem_filterMap.2 ⟨item, hitem, ?_⟩) hname
  rcases hst with rfl | rfl <;> rfl

/--
A `var` never binds a name outside of its activation. Watched calls of functions, and of those in a
scope that is given to them, and watched modules end as they end unwatched. A `var` changes nothing
but the binding that it is watched for, and the scope of a call is new.
-/
theorem var_binds_in_activation (n : Nat) :
    (∀ f this args s, WatchedM.callFunction (.levels n) f this args s =
      some (EvalM.callFunction (.levels n) f this args s)) ∧
    (∀ body name scope args (s : Store), scope < s.scopes.size → s.depth ≤ maxCallDepth →
      WatchedM.runFunction (.levels n) body name scope args s =
        some (EvalM.runFunction (.levels n) body name scope args s)) ∧
    (∀ scope body (s : Store), scope < s.scopes.size → s.depth ≤ maxCallDepth →
      WatchedM.runModule scope body s = some (EvalM.runModule scope body s)) ∧
    (∀ scope name initialized v s,
      (EvalM.bindVariable scope .var name initialized v s).2 = s ∨
        EvalM.bindVariable scope .var name initialized v s =
          (.ok (), s.declare (s.varScope scope name) name v)) ∧
    ∀ body env home this (s : Store), ∃ s',
      EvalM.callScope body env home this s = (.ok s.scopes.size, s') := by
  have hm : (Machine.levels n).Sound True n := Machine.levels_sound n
  refine ⟨WatchedM.callFunction_eq hm, ?_, ?_, EvalM.bindVariable_var, ?_⟩
  · intro body name scope args s hlt hdepth
    exact WatchedM.runFunction_eq hm (Store.ready_of_depth_le hdepth) hlt body name args
  · intro scope body s hlt hdepth
    exact WatchedM.runModule_eq (Store.ready_of_depth_le hdepth) hlt body
  · intro body env home this s
    obtain ⟨s', hnew, _⟩ := WatchedM.callScope_new body env home this s
    exact ⟨s', hnew⟩

/-- A module inside a global scope that binds `x`. -/
def Store.withGlobal : Store :=
  (((({} : Store).addScope {}).2.declare globalScope "x" (.string "outside")).addModule ⟨"/m.js", ""⟩).2

/-- A `var` in a block of the module makes a variable of the module; the global one stays. -/
theorem var_binds_in_activation_inBlock :
    let body : Module :=
      ⟨[.statement (.block [.declaration .var [("x", some (.string "inside" default))] default] default)],
        default⟩
    let out := EvalM.runModule 1 body .withGlobal
    (1 < Store.withGlobal.scopes.size ∧ Store.withGlobal.depth ≤ maxCallDepth) ∧
      WatchedM.runModule 1 body .withGlobal = some out ∧
      out.2.lookup? 1 "x" = some (.string "inside") ∧
      out.2.lookup? 0 "x" = some (.string "outside") := by
  intro body out
  have hlt : 1 < Store.withGlobal.scopes.size := by decide
  have hdepth : Store.withGlobal.depth ≤ maxCallDepth := by decide
  exact ⟨⟨hlt, hdepth⟩, (var_binds_in_activation 0).2.2.1 1 body .withGlobal hlt hdepth,
    by decide +kernel, by decide +kernel⟩

end Typings
