import Typings.Eval.Program
import Typings.Proofs.Eval.Search
import Typings.Proofs.Outcome
import Typings.Proofs.Syntax.Parts

namespace Typings

/-- The text of a file is a module that has the node somewhere in it. -/
def ModuleSource.Has (source : ModuleSource) (n : Node) : Prop :=
  ∃ m, Module.ofSource source.text = .ok m ∧ m.Has n

theorem ModuleSource.Has.children {source : ModuleSource} {n : Node} (h : source.Has n) :
    Node.Each source.Has n.children := by
  obtain ⟨m, hm, h⟩ := h
  exact fun n' hn' => ⟨m, hm, h.child hn'⟩

/-- Scopes that are known to lie in a file. -/
abbrev Places := List (Nat × ModuleSource)

namespace Store

variable {s s' s'' : Store} {r : Nat} {source : ModuleSource} {n : Node}

/-- The scope lies in the file, and all scopes around it are there. -/
structure ReadFrom (s : Store) (r : Nat) (source : ModuleSource) : Prop where
  known : ∀ o ∈ s.chain r, o < s.scopes.size
  source : s.sourceOf? r = some source

structure ScopesKept (s s' : Store) : Prop where
  size_le : s.scopes.size ≤ s'.scopes.size
  kept : ∀ r < s.scopes.size,
    (s'.scope r).outer = (s.scope r).outer ∧ (s'.scope r).source = (s.scope r).source

/-- Scopes and classes stay where they are, and new scopes lie inside others. -/
structure Extends (s s' : Store) : Prop extends ScopesKept s s' where
  added : ∀ r, s.scopes.size ≤ r → (s'.scope r).source = none
  classes_le : s.classes.size ≤ s'.classes.size
  classes : ∀ c < s.classes.size,
    (s'.classCell c).source = (s.classCell c).source ∧ (s'.classCell c).body = (s.classCell c).body

theorem scope_of_size_le (h : s.scopes.size ≤ r) : s.scope r = {} := by
  simp [scope, Array.getD_eq_getD_getElem?, h]

theorem Extends.refl : s.Extends s where
  size_le := Nat.le_refl _
  kept _ _ := ⟨rfl, rfl⟩
  added r hr := by rw [scope_of_size_le hr]
  classes_le := Nat.le_refl _
  classes _ _ := ⟨rfl, rfl⟩

theorem Extends.trans (h : s.Extends s') (h' : s'.Extends s'') : s.Extends s'' where
  size_le := Nat.le_trans h.size_le h'.size_le
  kept r hr :=
    have hkept := h.kept r hr
    have hkept' := h'.kept r (Nat.lt_of_lt_of_le hr h.size_le)
    ⟨hkept'.1.trans hkept.1, hkept'.2.trans hkept.2⟩
  added r hr := by
    by_cases hr' : r < s'.scopes.size
    · rw [(h'.kept r hr').2, h.added r hr]
    · exact h'.added r (Nat.le_of_not_lt hr')
  classes_le := Nat.le_trans h.classes_le h'.classes_le
  classes c hc :=
    have hkept := h.classes c hc
    have hkept' := h'.classes c (Nat.lt_of_lt_of_le hc h.classes_le)
    ⟨hkept'.1.trans hkept.1, hkept'.2.trans hkept.2⟩

theorem Extends.classText?_eq (h : s.Extends s') {c : Nat} (hc : c < s.classes.size) :
    s'.classText? c = s.classText? c := by
  rw [classText?, classText?, (h.classes c hc).1, (h.classes c hc).2]

theorem ScopesKept.chain_eq (h : s.ScopesKept s') (hr : r < s.scopes.size) :
    s'.chain r = s.chain r := by
  rw [chain, chain, (h.kept r hr).1]

theorem findSome?_congr {α β : Type} {f g : α → Option β} {l : List α} (h : ∀ a ∈ l, f a = g a) :
    l.findSome? f = l.findSome? g := by
  induction l with
  | nil => rfl
  | cons a l ih =>
    rw [List.findSome?_cons, List.findSome?_cons, h a (by simp), ih fun a ha => h a (by simp [ha])]

theorem ReadFrom.kept (h : s.ReadFrom r source) (he : s.ScopesKept s') : s'.ReadFrom r source := by
  have hchain : s'.chain r = s.chain r := he.chain_eq (h.known r List.mem_cons_self)
  refine ⟨fun o ho => ?_, ?_⟩
  · exact Nat.lt_of_lt_of_le (h.known o (hchain ▸ ho)) he.size_le
  · rw [sourceOf?, hchain, findSome?_congr fun o ho => (he.kept o (h.known o ho)).2]
    exact h.source

theorem ReadFrom.later (h : s.ReadFrom r source) (he : s.Extends s') : s'.ReadFrom r source :=
  h.kept he.toScopesKept

theorem ReadFrom.exists_module (h : s.ReadFrom r source) : ∃ o, (s.scope o).source = some source := by
  obtain ⟨o, _, ho⟩ := List.exists_of_findSome?_eq_some h.source
  exact ⟨o, ho⟩

/-- The scope lies in a file that has the node. -/
def Holds (s : Store) (r : Nat) (n : Node) : Prop := ∃ source, s.ReadFrom r source ∧ source.Has n

theorem Holds.later (h : s.Holds r n) (he : s.Extends s') : s'.Holds r n := by
  obtain ⟨source, hr, hn⟩ := h
  exact ⟨source, hr.later he, hn⟩

/-- The class is written in the file that it names, and was made in a scope of that file. -/
structure TracesClass (s : Store) (cell : ClassCell) (source : ModuleSource) : Prop where
  named : cell.source = some source
  env : s.ReadFrom cell.env source
  body : source.Has (.classOf cell.body)

theorem TracesClass.later {cell : ClassCell} (h : s.TracesClass cell source) (he : s.Extends s') :
    s'.TracesClass cell source :=
  ⟨h.named, h.env.later he, h.body⟩

/-- Every function and every class was made in a scope of the file that it is written in. -/
structure Traced (s : Store) : Prop where
  functions : ∀ f body env home, (s.function f).code = .script body env home →
    s.Holds env (.function body)
  classes : ∀ c < s.classes.size, ∃ source, s.TracesClass (s.classCell c) source

/-- What a step does to a store that is traced. -/
structure Leads (s s' : Store) : Prop where
  scopes : s.Extends s'
  traced : s'.Traced

theorem Traced.leads (hs : s.Traced) : s.Leads s := ⟨.refl, hs⟩

theorem Leads.trans (h : s.Leads s') (h' : s'.Leads s'') : s.Leads s'' :=
  ⟨h.scopes.trans h'.scopes, h'.traced⟩

/-- Two stores with the same scopes, functions and classes but for the values in them. -/
structure SameCode (s s' : Store) : Prop where
  size : s'.scopes.size = s.scopes.size
  scopes : ∀ r, (s'.scope r).outer = (s.scope r).outer ∧ (s'.scope r).source = (s.scope r).source
  functions : ∀ f body env home, (s'.function f).code = .script body env home →
    (s.function f).code = .script body env home
  classes_size : s'.classes.size = s.classes.size
  classes : ∀ c, (s'.classCell c).source = (s.classCell c).source ∧
    (s'.classCell c).env = (s.classCell c).env ∧ (s'.classCell c).body = (s.classCell c).body

theorem SameCode.extends (h : s.SameCode s') : s.Extends s' where
  size_le := Nat.le_of_eq h.size.symm
  kept r _ := h.scopes r
  added r hr := by rw [(h.scopes r).2, scope_of_size_le hr]
  classes_le := Nat.le_of_eq h.classes_size.symm
  classes c _ := ⟨(h.classes c).1, (h.classes c).2.2⟩

theorem SameCode.leads (h : s.SameCode s') (hs : s.Traced) : s.Leads s' := by
  refine ⟨h.extends, fun f body env home hf => ?_, fun c hc => ?_⟩
  · exact (hs.functions f body env home (h.functions f body env home hf)).later h.extends
  · obtain ⟨source, hclass⟩ := hs.classes c (h.classes_size ▸ hc)
    obtain ⟨hsource, henv, hbody⟩ := h.classes c
    have hclass := hclass.later h.extends
    exact ⟨source, hsource.trans hclass.named, henv ▸ hclass.env, hbody ▸ hclass.body⟩

theorem SameCode.of_eq (hscopes : s'.scopes = s.scopes) (hfunctions : s'.functions = s.functions)
    (hclasses : s'.classes = s.classes) : s.SameCode s' := by
  refine ⟨by rw [hscopes], fun r => ?_, fun f body env home => ?_, by rw [hclasses], fun c => ?_⟩
  · simp [scope, hscopes]
  · simp [function, hfunctions]
  · simp [classCell, hclasses]

theorem sameCode_setBinding (s : Store) (r : Nat) (name : String) (b : Binding) :
    s.SameCode (s.setBinding r name b) := by
  refine ⟨by simp [setBinding, setScope], fun r' => ?_, fun _ _ _ _ => id, rfl,
    fun _ => ⟨rfl, rfl, rfl⟩⟩
  have hscope : (s.setBinding r name b).scope r' = if r = r' ∧ r' < s.scopes.size then
      { s.scope r' with bindings := (s.scope r').bindings.insert name b } else s.scope r' :=
    getD_modify ..
  rw [hscope]
  split
  · exact ⟨rfl, rfl⟩
  · exact ⟨rfl, rfl⟩

theorem sameCode_setFunction (s : Store) (r : Nat) {f : FunctionCell → FunctionCell}
    (hf : ∀ cell, (f cell).code = cell.code) : s.SameCode (s.setFunction r f) := by
  refine ⟨rfl, fun _ => ⟨rfl, rfl⟩, fun r' body env home h => ?_, rfl, fun _ => ⟨rfl, rfl, rfl⟩⟩
  have hfunction : (s.setFunction r f).function r' =
      if r = r' ∧ r' < s.functions.size then f (s.function r') else s.function r' := getD_modify ..
  rw [hfunction] at h
  split at h
  · rwa [hf] at h
  · exact h

theorem sameCode_addBuiltin (s : Store) (name : String) (b : Builtin) :
    s.SameCode (s.addFunction { name, code := .builtin b }).2 := by
  refine ⟨rfl, fun _ => ⟨rfl, rfl⟩, fun r body env home h => ?_, rfl, fun _ => ⟨rfl, rfl, rfl⟩⟩
  have hfunction : (s.addFunction { name, code := .builtin b }).2.function r =
      if r = s.functions.size then { name, code := .builtin b } else s.function r := getD_push ..
  rw [hfunction] at h
  split at h
  · cases h
  · exact h

theorem sameCode_setClass (s : Store) (c : Nat) {f : ClassCell → ClassCell}
    (hf : ∀ cell, (f cell).source = cell.source ∧ (f cell).env = cell.env ∧
      (f cell).body = cell.body) : s.SameCode (s.setClass c f) := by
  refine ⟨rfl, fun _ => ⟨rfl, rfl⟩, fun _ _ _ _ => id, by simp [setClass], fun c' => ?_⟩
  have hclass : (s.setClass c f).classCell c' =
      if c = c' ∧ c' < s.classes.size then f (s.classCell c') else s.classCell c' := getD_modify ..
  rw [hclass]
  split
  · exact hf _
  · exact ⟨rfl, rfl, rfl⟩

theorem scopesKept_addScope (s : Store) (c : Scope) : s.ScopesKept (s.addScope c).2 := by
  refine ⟨by simp [addScope], fun r hr => ?_⟩
  rw [scope_addScope, if_neg (Nat.ne_of_lt hr)]
  exact ⟨rfl, rfl⟩

theorem extends_addScope (s : Store) {c : Scope} (hc : c.source = none) :
    s.Extends (s.addScope c).2 := by
  refine ⟨s.scopesKept_addScope c, fun r hr => ?_, Nat.le_refl _, fun _ _ => ⟨rfl, rfl⟩⟩
  rw [scope_addScope]
  split
  · exact hc
  · rw [scope_of_size_le hr]

theorem extends_addFunction (s : Store) (f : FunctionCell) : s.Extends (s.addFunction f).2 where
  __ := Extends.refl (s := s)

theorem extends_addClass (s : Store) (cell : ClassCell) : s.Extends (s.addClass cell).2 where
  __ := Extends.refl (s := s)
  classes_le := by simp [addClass]
  classes c hc := by
    have hclass : (s.addClass cell).2.classCell c =
        if c = s.classes.size then cell else s.classCell c := getD_push ..
    rw [hclass, if_neg (Nat.ne_of_lt hc)]
    exact ⟨rfl, rfl⟩

theorem Traced.addScope (hs : s.Traced) {c : Scope} (hc : c.source = none) :
    s.Leads (s.addScope c).2 := by
  have he := s.extends_addScope hc
  refine ⟨he, fun f body env home hf => (hs.functions f body env home hf).later he, fun c hc => ?_⟩
  obtain ⟨source, hclass⟩ := hs.classes c hc
  exact ⟨source, hclass.later he⟩

theorem ReadFrom.inside (h : s.ReadFrom r source) (frame : Option Nat) :
    (s.addScope { s.inside r with frame }).2.ReadFrom s.scopes.size source := by
  have hnew : (s.addScope { s.inside r with frame }).2.scope s.scopes.size =
      { s.inside r with frame } := by
    rw [scope_addScope, if_pos rfl]
  have hchain : (s.addScope { s.inside r with frame }).2.chain s.scopes.size =
      s.scopes.size :: s.chain r := by
    rw [chain, hnew]
    rfl
  have hlater := h.later (s.extends_addScope (c := { s.inside r with frame }) rfl)
  have hr : (s.addScope { s.inside r with frame }).2.chain r = s.chain r :=
    (s.scopesKept_addScope _).chain_eq (h.known r List.mem_cons_self)
  refine ⟨fun o ho => ?_, ?_⟩
  · rw [hchain] at ho
    rcases List.mem_cons.1 ho with rfl | ho
    · simp [Store.addScope]
    · exact hlater.known o (hr ▸ ho)
  · rw [sourceOf?, hchain, List.findSome?_cons, hnew, ← hr]
    exact hlater.source

theorem Traced.addFunction (hs : s.Traced) {f : FunctionCell}
    (hf : ∀ body env home, f.code = .script body env home → s.Holds env (.function body)) :
    s.Leads (s.addFunction f).2 := by
  have he := s.extends_addFunction f
  refine ⟨he, fun r body env home h => ?_, fun c hc => ?_⟩
  · have hfunction : (s.addFunction f).2.function r =
        if r = s.functions.size then f else s.function r := getD_push ..
    rw [hfunction] at h
    split at h
    · exact (hf body env home h).later he
    · exact (hs.functions r body env home h).later he
  · obtain ⟨source, hclass⟩ := hs.classes c hc
    exact ⟨source, hclass.later he⟩

theorem Traced.addClass (hs : s.Traced) (cell : ClassCell) (hcell : s.TracesClass cell source) :
    s.Leads (s.addClass cell).2 := by
  have he := s.extends_addClass cell
  refine ⟨he, fun f body env home h => (hs.functions f body env home h).later he, fun c hc => ?_⟩
  have hclass : (s.addClass cell).2.classCell c =
      if c = s.classes.size then cell else s.classCell c := getD_push ..
  rw [hclass]
  split
  · exact ⟨source, hcell.later he⟩
  · rename_i hne
    have hlt : c < s.classes.size := by
      have hle : c < s.classes.size + 1 := by simpa [Store.addClass] using hc
      omega
    obtain ⟨source, hold⟩ := hs.classes c hlt
    exact ⟨source, hold.later he⟩

def Confirms (s : Store) (Γ : Places) : Prop := ∀ p ∈ Γ, s.ReadFrom p.1 p.2

theorem ReadFrom.confirms (h : s.ReadFrom r source) : s.Confirms [(r, source)] :=
  List.forall_mem_singleton.2 h

theorem Confirms.later {Γ : Places} (h : s.Confirms Γ) (he : s.Extends s') :
    s'.Confirms Γ :=
  fun p hp => (h p hp).later he

end Store

/-- A step leaves a traced store traced. Of the scopes in `Γ` it may rely on the file. -/
def Traces {α : Type} (Γ : Places) (x : EvalM α) : Prop :=
  ∀ ⦃s : Store⦄, s.Traced → s.Confirms Γ → s.Leads (x s).2

namespace Traces

variable {α β : Type} {Γ : Places} {x : EvalM α} {f : α → EvalM β} {s : Store}
variable {scope : Nat} {source : ModuleSource}

theorem still (h : ∀ s, (x s).2 = s) : Traces Γ x := by
  intro s hs _
  rw [h]
  exact hs.leads

theorem pure (a : α) : Traces Γ (Pure.pure a : EvalM α) := still fun _ => rfl

theorem fail (e : Fault) : Traces Γ (EvalM.fail e : EvalM α) := still fun _ => rfl

theorem throw (stop : Stop) : Traces Γ (MonadExcept.throw stop : EvalM α) := still fun _ => rfl

theorem bind (hx : Traces Γ x) (hf : ∀ a, Traces Γ (f a)) : Traces Γ (x >>= f) := by
  intro s hs hΓ
  have h := hx hs hΓ
  rcases hout : x s with ⟨stop | a, s'⟩
  · rw [hout] at h
    rw [bind_error hout]
    exact h
  · rw [hout] at h
    rw [bind_ok hout]
    exact h.trans (hf a h.traced (hΓ.later h.scopes))

theorem map (hx : Traces Γ x) (f : α → β) : Traces Γ (f <$> x) := by
  rw [map_eq_pure_bind]
  exact hx.bind fun a => .pure (f a)

theorem discard (hx : Traces Γ x) : Traces Γ (discard x) := hx.map _

theorem get {f : Store → EvalM α} (h : ∀ s : Store, s.Traced → s.Confirms Γ → s.Leads (f s s).2) :
    Traces Γ (MonadState.get >>= f) := h

theorem read {f : Store → EvalM α} (h : ∀ s, Traces Γ (f s)) : Traces Γ (MonadState.get >>= f) :=
  fun s hs hΓ => h s hs hΓ

theorem modify {f : Store → Store} (h : ∀ s : Store, s.SameCode (f s)) :
    Traces Γ (modify f : EvalM PUnit) :=
  fun s hs _ => (h s).leads hs

theorem make {add : Store → α × Store} (h : ∀ s : Store, s.SameCode (add s).2) :
    Traces Γ (EvalM.make add) :=
  fun s hs _ => (h s).leads hs

theorem tryCatch {f : Stop → EvalM α} (hx : Traces Γ x) (hf : ∀ stop, Traces Γ (f stop)) :
    Traces Γ (tryCatch x f) := by
  intro s hs hΓ
  have h := hx hs hΓ
  rcases hout : x s with ⟨stop | a, s'⟩
  · rw [hout] at h
    rw [tryCatch_error hout]
    exact h.trans (hf stop h.traced (hΓ.later h.scopes))
  · rw [hout] at h
    rw [tryCatch_ok hout]
    exact h

theorem relabel (hx : Traces Γ x) (label : String) : Traces Γ (EvalM.relabel label x) := by
  refine hx.tryCatch fun stop => ?_
  cases stop with
  | fault e =>
    dsimp only
    split
    · exact .fail _
    · exact .fail e
  | _ => exact .throw _

theorem between (hx : Traces Γ x) (hs : s.Traced) (hΓ : s.Confirms Γ) (s' : Store)
    (hbefore : s.SameCode s') {s'' : Store} (hafter : (x s').2.SameCode s'') : s.Leads s'' := by
  have hstart := hbefore.leads hs
  have hrun := hx hstart.traced (hΓ.later hstart.scopes)
  exact (hstart.trans hrun).trans (hafter.leads hrun.traced)

theorem holding (hx : Traces Γ x) (vs : List Value) : Traces Γ (EvalM.holding vs x) :=
  fun s hs hΓ => hx.between hs hΓ { s with held := vs :: s.held } (.of_eq rfl rfl rfl)
    (.of_eq rfl rfl rfl)

theorem inScope (hx : Traces Γ x) (scope : Nat) : Traces Γ (EvalM.inScope scope x) :=
  fun s hs hΓ => hx.between hs hΓ { s with running := scope :: s.running } (.of_eq rfl rfl rfl)
    (.of_eq rfl rfl rfl)

theorem asCall (hx : Traces Γ x) : Traces Γ (EvalM.asCall x) := by
  intro s hs hΓ
  unfold EvalM.asCall
  split
  · exact hx.between hs hΓ
      { s with depth := s.depth + 1, deepest := max s.deepest (s.depth + 1) }
      (.of_eq rfl rfl rfl) (.of_eq rfl rfl rfl)
  · exact hs.leads

theorem inside {f : Nat → EvalM α} {frame : Option Nat}
    (hf : ∀ inner, Traces [(inner, source)] (f inner)) : Traces [(scope, source)]
      (EvalM.make (fun s => s.addScope { s.inside scope with frame }) >>= f) := by
  intro s hs hplace
  have hmade := hs.addScope (c := { s.inside scope with frame }) rfl
  have hinner : (s.addScope { s.inside scope with frame }).2.ReadFrom s.scopes.size source :=
    (hplace _ List.mem_cons_self).inside frame
  exact hmade.trans (hf s.scopes.size hmade.traced hinner.confirms)

end Traces

end Typings
