import Typings.Proofs.Eval.Calls
import Typings.Proofs.Load.Characters
import Typings.Reflect.Class

namespace Typings

/-- What a store can be asked to do. -/
inductive Request
  | runModule (scope : Nat) (body : Module)
  | evaluate (scope : Nat) (e : Expr)
  | call (callee receiver : Value) (args : List Value)
  | construct (callee : Value) (args : List Value)
  | getProperty (base : Value) (key : String)
  | setProperty (base : Value) (key : String) (v : Value)

namespace Request

/-- A request that asks for no value gives none. -/
def run : Request → EvalM Value
  | runModule scope body => do
    EvalM.runModule scope body
    return .undefined
  | evaluate scope e => EvalM.eval .full scope e
  | call callee receiver args => EvalM.callValue .full callee receiver args
  | construct callee args => EvalM.construct .full callee args
  | getProperty base key => EvalM.getProperty .full base key
  | setProperty base key v => do
    EvalM.setProperty .full base key v
    return .undefined

def values : Request → List Value
  | runModule .. | evaluate .. => []
  | call callee receiver args => callee :: receiver :: args
  | construct callee args => callee :: args
  | getProperty base _ => [base]
  | setProperty base _ v => [base, v]

variable {lax : Prop} {s : Store}

theorem run_behaves (hs : s.Ready lax) (r : Request) (hr : s.KnowsAll lax r.values) :
    Behaves lax (maxCallDepth + 1) s (Value.Known lax) (r.run s) := by
  have hm : Machine.full.Sound lax (maxCallDepth + 1) := Machine.full_sound
  cases r with
  | runModule scope body =>
    exact (EvalM.runModule_behaves hs scope body).bind hs fun _ _ _ _ _ => .pure trivial
  | evaluate scope e => exact EvalM.eval_behaves hm hs scope e
  | call callee receiver args =>
    exact EvalM.callValue_behaves hm hs (hr receiver (by simp [values]))
      fun v hv => hr v (by simp [values, hv])
  | construct callee args =>
    exact EvalM.construct_behaves hm hs (hr callee (by simp [values]))
      fun v hv => hr v (by simp [values, hv])
  | getProperty base key => exact EvalM.getProperty_behaves hm hs (hr base (by simp [values]))
  | setProperty base key v =>
    have hbase := hr base (by simp [values])
    have hv := hr v (by simp [values])
    exact (EvalM.setProperty_behaves hm hs hbase hv key).bind hs fun _ _ _ _ _ => .pure trivial

end Request

namespace Store

variable {s s' s'' : Store}

/-- As many calls are under way as before, and never were there more than the limit. -/
structure DepthKept (s s' : Store) : Prop where
  depth : s'.depth = s.depth
  deepest : s'.deepest ≤ max s.deepest maxCallDepth

theorem DepthKept.refl : DepthKept s s := ⟨rfl, Nat.le_max_left ..⟩

theorem DepthKept.trans (h : DepthKept s s') (h' : DepthKept s' s'') : DepthKept s s'' :=
  ⟨h'.depth.trans h.depth, Nat.le_trans h'.deepest (Nat.max_le.2 ⟨h.deepest, Nat.le_max_right ..⟩)⟩

/-- A store after requests that were made one after another, however each of them ended. -/
def after (s : Store) (rs : List Request) : Store := rs.foldl (fun s r => (r.run s).2) s

theorem knows_of_lax (s : Store) (v : Value) : s.Knows True v := by
  cases v with
  | classOf c => exact .inr trivial
  | _ => trivial

theorem ready_of_depth_le (hs : s.depth ≤ maxCallDepth) : s.Ready True :=
  ⟨⟨.of_forall s.knows_of_lax s, fun _ _ _ => .inr trivial, fun _ => .inr trivial⟩, hs⟩

theorem depthKept_run (hs : s.depth ≤ maxCallDepth) (r : Request) : s.DepthKept (r.run s).2 :=
  have h := r.run_behaves (ready_of_depth_le hs) fun v _ => s.knows_of_lax v
  ⟨h.depth, h.deepest⟩

theorem depthKept_after (hs : s.depth ≤ maxCallDepth) (rs : List Request) :
    s.DepthKept (s.after rs) := by
  induction rs generalizing s with
  | nil => exact .refl
  | cons r rs ih =>
    have hr := depthKept_run hs r
    exact hr.trans (ih (hr.depth ▸ hs))

end Store

namespace EvalM

variable {α : Type} {x : EvalM α} {s s' : Store}

theorem attempt_ok {a : α} (h : x s = (.ok a, s')) : attempt x s = (.ok (.ok a), s') :=
  tryCatch_ok (map_ok h)

theorem attempt_error {stop : Stop} (h : x s = (.error stop, s')) :
    attempt x s = (if stop.isThrow then .ok (.error stop) else .error stop, s') := by
  refine (tryCatch_error (map_error h)).trans ?_
  split
  · rfl
  · rfl

end EvalM

/-- A step that throws nothing, and after which as many calls are under way as before. -/
def Settles {α : Type} (x : EvalM α) : Prop :=
  ∀ ⦃s : Store⦄, s.depth ≤ maxCallDepth →
    s.DepthKept (x s).2 ∧ ∀ stop, (x s).1 = .error stop → stop.isThrow = false

namespace Settles

variable {α β : Type} {x : EvalM α} {f : α → EvalM β}

theorem pure (a : α) : Settles (Pure.pure a : EvalM α) := fun _ _ => ⟨.refl, fun _ h => nomatch h⟩

theorem throw {stop : Stop} (h : stop.isThrow = false) : Settles (MonadExcept.throw stop : EvalM α) := by
  intro s _
  refine ⟨.refl, fun stop' h' => ?_⟩
  cases h'
  exact h

theorem get {f : Store → EvalM α} (hf : ∀ s, Settles (f s)) : Settles (MonadState.get >>= f) :=
  fun s hs => hf s hs

theorem bind (hx : Settles x) (hf : ∀ a, Settles (f a)) : Settles (x >>= f) := by
  intro s hs
  obtain ⟨hkept, hstop⟩ := hx hs
  rcases hout : x s with ⟨stop | a, s₁⟩
  · rw [hout] at hkept hstop
    rw [bind_error hout]
    refine ⟨hkept, fun stop' h => ?_⟩
    cases h
    exact hstop stop rfl
  · rw [hout] at hkept
    rw [bind_ok hout]
    obtain ⟨hkept', hstop'⟩ := hf a (hkept.depth ▸ hs)
    exact ⟨hkept.trans hkept', hstop'⟩

theorem mapM {f : α → EvalM β} (hf : ∀ a, Settles (f a)) (l : List α) : Settles (l.mapM f) := by
  induction l with
  | nil => exact pure []
  | cons a l ih =>
    rw [List.mapM_cons]
    exact (hf a).bind fun b => ih.bind fun bs => pure (b :: bs)

theorem attempt (r : Request) : Settles (EvalM.attempt r.run) := by
  intro s hs
  have hkept := Store.depthKept_run hs r
  rcases hout : r.run s with ⟨stop | v, s'⟩
  · rw [hout] at hkept
    rw [EvalM.attempt_error hout]
    refine ⟨hkept, fun stop' h => ?_⟩
    dsimp only at h
    split at h
    · cases h
    · cases h
      exact Bool.eq_false_iff.2 ‹_›
  · rw [hout] at hkept
    rw [EvalM.attempt_ok hout]
    exact ⟨hkept, fun _ h => nomatch h⟩

theorem stopText (stop : Stop) : Settles (EvalM.stopText stop) := by
  cases stop with
  | fault f => exact pure _
  | thrown v =>
    refine bind (get fun s => ?_) fun text => pure _
    dsimp only
    cases s.text? v with
    | some text => exact pure text
    | none => exact throw rfl
  | circular vs => exact throw rfl
  | locked r v => exact throw rfl
  | exhausted => exact throw rfl

end Settles

namespace Subject

theorem ofClass_settles (c : Nat) : Settles (ofClass c) := by
  refine (Settles.attempt (.construct (.classOf c) [])).bind fun made => ?_
  split
  · exact .pure _
  · exact .pure _

theorem probe_settles (t : Subject) (name : String) : Settles (t.probe name) := by
  unfold probe
  split
  · rename_i v _
    refine (Settles.attempt (.getProperty v name)).bind fun found => ?_
    split
    · exact .get fun _ => .pure _
    · exact (Settles.stopText _).bind fun _ => .pure _
  · refine .get fun s => ?_
    split
    · exact .pure _
    · exact .pure _
    · exact .pure _

end Subject

/--
No request uses up a call, however it ends: afterwards as many are under way as before, and never
more than the limit were. So requests that fail, and classes and members that are looked at in vain,
leave every later request the calls that it would have had. Looking at members throws nothing.
-/
theorem requests_restore_calls (s : Store) (hs : s.depth ≤ maxCallDepth) :
    (∀ r : Request, s.DepthKept (r.run s).2) ∧ (∀ rs : List Request, s.DepthKept (s.after rs)) ∧
      ∀ (c : Nat) (names : List String),
        let out := (do names.mapM (← Subject.ofClass c).probe : EvalM (List (Except String Probe))) s
        s.DepthKept out.2 ∧ ∀ stop, out.1 = .error stop → stop.isThrow = false := by
  refine ⟨Store.depthKept_run hs, Store.depthKept_after hs, fun c names => ?_⟩
  exact (Subject.ofClass_settles c).bind (fun t => .mapM t.probe_settles names) hs

/-- The store after a module with the text has run, if the text is one of a module. -/
def Store.afterText (text : String) : Store :=
  match Module.ofSource text with
  | .ok body => ((Request.runModule 1 body).run (Store.initial.addModule ⟨"/m.js", text⟩).2).2
  | .error _ => .initial

/-- The store after the body of a module has run, if there is one. -/
def Store.afterBody (text : String) (body? : Except String Module) : Store :=
  match body? with
  | .ok body => ((Request.runModule 1 body).run (Store.initial.addModule ⟨"/m.js", text⟩).2).2
  | .error _ => .initial

theorem Store.afterText_eq {text : String} {cs : List Char} (h : text.toList = cs) :
    afterText text = afterBody text (Module.ofChars text cs) := by
  unfold afterText afterBody
  rw [Module.ofSource_eq h]

/-- A class whose constructor throws what it is given, with a getter that throws. -/
def Store.withThrower : Store :=
  .afterText
    "class A \x7b constructor(v) { if (v) throw v; } get x() \x7b throw 'no'; \x7d \x7d"

section

set_option maxRecDepth 2000

/-- One call can still be entered, and both a construction and a getter enter it and throw. -/
theorem requests_restore_calls_withThrower :
    let s : Store := { Store.withThrower with depth := maxCallDepth - 1 }
    let made := (Request.construct (.classOf 0) [.string "no"]).run s
    let seen := (do ["x"].mapM (← Subject.ofClass 0).probe : EvalM (List (Except String Probe))) s
    s.depth ≤ maxCallDepth ∧
      (made.1 = .error (.thrown (.string "no")) ∧ made.2.deepest = maxCallDepth ∧
        s.DepthKept made.2) ∧
      seen.1 = .ok [.error "uncaught exception: no"] ∧ seen.2.deepest = maxCallDepth ∧
        s.DepthKept seen.2 := by
  intro s made seen
  have hdepth : s.depth ≤ maxCallDepth := Nat.sub_le ..
  obtain ⟨hmade, hdeepest, hseen, hdeepest'⟩ :
      made.1 = .error (.thrown (.string "no")) ∧ made.2.deepest = maxCallDepth ∧
        seen.1 = .ok [.error "uncaught exception: no"] ∧ seen.2.deepest = maxCallDepth := by
    have hstore : Store.withThrower = .afterBody _ (Module.ofChars _ _) :=
      Store.afterText_eq String.toList_ofList
    simp only [made, seen, s, hstore]
    decide +kernel
  obtain ⟨hkept, -, hlook⟩ := requests_restore_calls s hdepth
  exact ⟨hdepth, ⟨hmade, hdeepest, hkept _⟩, hseen, hdeepest', (hlook 0 ["x"]).1⟩

end

namespace Store

/-- A store that came about by what a host does to it and by requests, however they ended. -/
inductive Reachable : Store → Prop
  | initial : Reachable .initial
  | addModule {s : Store} (h : Reachable s) (source : ModuleSource) :
    Reachable (s.addModule source).2
  | addHost {s : Store} (h : Reachable s) (path : String) : Reachable (s.addHost path).2
  | addObject {s : Store} (h : Reachable s) (o : ObjectCell) (ho : o.All (s.Knows False)) :
    Reachable (s.addObject o).2
  | declare {s : Store} (h : Reachable s) (r : Nat) (name : String) (v : Value)
    (hv : s.Knows False v) : Reachable (s.declare r name v)
  | declareConstant {s : Store} (h : Reachable s) (r : Nat) (name : String) (v : Value)
    (hv : s.Knows False v) : Reachable (s.declareConstant r name v)
  | declareImport {s : Store} (h : Reachable s) (r : Nat) (name : String) (target : Nat)
    (exported : String) (ht : target < s.scopes.size) :
    Reachable (s.declareImport r name target exported)
  | clearScope {s : Store} (h : Reachable s) (r : Nat) : Reachable (s.clearScope r)
  | hold {s : Store} (h : Reachable s) (vs : List Value) : Reachable (s.hold vs)
  | release {s : Store} (h : Reachable s) : Reachable s.release
  | request {s : Store} (h : Reachable s) (r : Request) (hr : s.KnowsAll False r.values) :
    Reachable (r.run s).2

variable {s s' : Store} {r r' target : Nat} {name : String}

/-- What is true of every reachable store. -/
structure Invariant (s : Store) : Prop where
  sound : s.Sound False
  imports : s.ImportsSound
  depth_le : s.depth ≤ maxCallDepth

theorem Invariant.evolves (h : s.Invariant) (he : s.Evolves False s') (hd : s'.depth = s.depth) :
    s'.Invariant :=
  ⟨he.sound h.sound, h.imports.later he.importsKept, hd ▸ h.depth_le⟩

theorem Invariant.change (h : s.Invariant) (hc : Change False s s') (hd : s'.depth = s.depth) :
    s'.Invariant :=
  h.evolves hc.evolves hd

theorem ImportsSound.empty : ImportsSound {} := by
  have hnone : ∀ r name target name', ¬ ({} : Store).Imports r name target name' := by
    intro r name target name' hi
    simp [Imports, show ({} : Store).scope r = {} from rfl] at hi
  exact ⟨fun _ _ _ _ hi => (hnone _ _ _ _ hi).elim, [], Nat.le_refl _, fun _ _ _ _ hi =>
    (hnone _ _ _ _ hi).elim⟩

theorem Invariant.empty : Invariant {} := by
  have hscope : ∀ r, ({} : Store).scope r = {} := fun _ => rfl
  refine ⟨⟨⟨?_, ?_, ?_, ?_, ?_, ?_⟩, ?_, ?_⟩, .empty, Nat.zero_le _⟩
  · intro r name b hb
    simp [hscope] at hb
  · exact fun _ => ⟨fun v hv => absurd hv (Option.not_mem_none v),
      fun v hv => absurd hv (Option.not_mem_none v)⟩
  · exact fun _ => ⟨fun c hc => absurd hc (Option.not_mem_none c), .empty⟩
  · intro r v hv
    simp [Store.array] at hv
  · exact fun _ => .empty
  · exact fun _ => ⟨trivial, .empty, .empty⟩
  · intro c p hp
    cases hp
  · exact fun _ => .inl (Nat.zero_le _)

theorem Invariant.initial : Invariant .initial := by
  have hscope : (({} : Store).addScope {}).2.Invariant :=
    Invariant.empty.change (.addScope _ rfl) rfl
  refine List.foldlRecOn _ _ (List.foldlRecOn _ _ ?_ ?_) ?_
  · have hundefined :=
      hscope.change (.declareConstant globalScope "undefined" .undefined trivial) rfl
    have hnan :=
      hundefined.change (.declareConstant globalScope "NaN" (.number (0.0 / 0.0)) trivial) rfl
    exact hnan.change (.declareConstant globalScope "Infinity" (.number (1.0 / 0.0)) trivial) rfl
  · exact fun s hs name _ => (hs.change (.addHost name) rfl).change (.declare _ _ _ trivial) rfl
  · exact fun s hs b _ =>
      (hs.change (.addFunction _ .empty) rfl).change (.declare _ _ _ trivial) rfl

theorem Imports.of_declareImport {target' : Nat} {name' exported exported' : String}
    (hi : (s.declareImport r name target exported).Imports r' name' target' exported') :
    (r' = r ∧ name' = name ∧ target' = target ∧ exported' = exported) ∨
      s.Imports r' name' target' exported' := by
  have hscope : (s.declareImport r name target exported).scope r' =
      (s.setBinding r name (.imported target exported)).scope r' := rfl
  rw [Imports, hscope, scope_setBinding] at hi
  split at hi
  · rename_i hr
    rw [Std.TreeMap.getElem?_insert] at hi
    split at hi
    · rename_i hname
      cases hi
      exact .inl ⟨hr.1.symm, (Std.LawfulEqCmp.eq_of_compare hname).symm, rfl, rfl⟩
    · exact .inr hi
  · exact .inr hi

theorem Imports.of_clearScope {target' : Nat} {name' exported' : String}
    (hi : (s.clearScope r).Imports r' name' target' exported') :
    s.Imports r' name' target' exported' := by
  have hscope : (s.clearScope r).scope r' =
      if r = r' ∧ r' < s.scopes.size then { s.scope r' with bindings := {} } else s.scope r' :=
    getD_modify ..
  rw [Imports, hscope] at hi
  split at hi
  · simp at hi
  · exact hi

theorem Sound.declareImport (h : s.Sound False) (r : Nat) (name : String) (target : Nat)
    (exported : String) : (s.declareImport r name target exported).Sound False where
  values := { h.values with
    scopes := forall_getD_modify (Q := fun _ => Scope.All (s.Knows False)) h.values.scopes
      ((h.values.scopes r).insert (b := .imported target exported) trivial name) }
  lines := h.lines
  lengths := h.lengths

theorem ImportsSound.declareImport (h : s.ImportsSound) (r : Nat) (name exported : String)
    (ht : target < s.scopes.size) : (s.declareImport r name target exported).ImportsSound := by
  have hsize : (s.declareImport r name target exported).scopes.size = s.scopes.size := by
    simp [Store.declareImport, Store.setBinding, Store.setScope]
  refine ⟨?_, ?_⟩
  · intro r' name' target' exported' hi
    rw [hsize]
    rcases hi.of_declareImport with ⟨_, _, rfl, _⟩ | hi
    · exact ht
    · exact h.targets _ _ _ _ hi
  · obtain ⟨sites, hlen, hsites⟩ := h.counted
    refine ⟨(r, name) :: sites, Nat.succ_le_succ hlen, ?_⟩
    intro r' name' target' exported' hi
    rcases hi.of_declareImport with ⟨rfl, rfl, _, _⟩ | hi
    · simp
    · exact .tail _ (hsites _ _ _ _ hi)

theorem ImportsSound.clearScope (h : s.ImportsSound) (r : Nat) : (s.clearScope r).ImportsSound := by
  have hsize : (s.clearScope r).scopes.size = s.scopes.size := by
    simp [Store.clearScope, Store.setScope]
  refine ⟨?_, ?_⟩
  · intro r' name' target' exported' hi
    rw [hsize]
    exact h.targets _ _ _ _ hi.of_clearScope
  · obtain ⟨sites, hlen, hsites⟩ := h.counted
    exact ⟨sites, hlen, fun _ _ _ _ hi => hsites _ _ _ _ hi.of_clearScope⟩

theorem Invariant.declareImport (h : s.Invariant) (r : Nat) (name exported : String)
    (ht : target < s.scopes.size) : (s.declareImport r name target exported).Invariant :=
  ⟨h.sound.declareImport r name target exported, h.imports.declareImport r name exported ht,
    h.depth_le⟩

theorem Invariant.clearScope (h : s.Invariant) (r : Nat) : (s.clearScope r).Invariant := by
  refine ⟨⟨?_, h.sound.lines, h.sound.lengths⟩, h.imports.clearScope r, h.depth_le⟩
  refine { h.sound.values with
    scopes := forall_getD_modify (Q := fun _ => Scope.All (s.Knows False))
      h.sound.values.scopes ?_ }
  intro name b hb
  simp at hb

theorem Reachable.invariant (h : s.Reachable) : s.Invariant := by
  induction h with
  | initial => exact .initial
  | addModule _ source ih => exact ih.change (.addScope _ rfl) rfl
  | addHost _ path ih => exact ih.change (.addHost path) rfl
  | addObject _ o ho ih => exact ih.change (.addObject o ho) rfl
  | declare _ r name v hv ih => exact ih.change (.declare r name v hv) rfl
  | declareConstant _ r name v hv ih => exact ih.change (.declareConstant r name v hv) rfl
  | declareImport _ r name target exported ht ih => exact ih.declareImport r name exported ht
  | clearScope _ r ih => exact ih.clearScope r
  | hold _ vs ih => exact ih.change (.note _ _ _ _ _ (Nat.le_refl _)) rfl
  | release _ ih => exact ih.change (.note _ _ _ _ _ (Nat.le_refl _)) rfl
  | request _ r hr ih =>
    have hrun := r.run_behaves ⟨ih.sound, ih.depth_le⟩ hr
    exact ih.evolves hrun.evolves hrun.depth

theorem ImportsSound.not_imports (h : s.ImportsSound) (hzero : s.imports = 0) {exported : String} :
    ¬ s.Imports r name target exported := by
  intro hi
  obtain ⟨sites, hlen, hsites⟩ := h.counted
  rw [hzero, Nat.le_zero, List.length_eq_zero_iff] at hlen
  simpa [hlen] using hsites _ _ _ _ hi

end Store

theorem Store.afterText_reachable (text : String) : (afterText text).Reachable := by
  unfold afterText
  split
  · exact .request (.addModule .initial _) _ fun _ h => nomatch h
  · exact .initial

/--
Every request to a reachable store whose imports form no circle ends with a result or a throw, but
for two cases: it converts a value that leads to an array that holds itself, or it writes the length
of an array, and the value for that leads to the array. Imports form no circle afterwards either, and
every walk along the classes that a class descends from ends.
-/
theorem requests_end {s : Store} (hs : s.Reachable) (hacyclic : s.ImportsAcyclic) (r : Request)
    (hr : s.KnowsAll False r.values) :
    ((∃ v, (r.run s).1 = .ok v) ∨ (∃ stop, (r.run s).1 = .error stop ∧ stop.isThrow = true) ∨
      (∃ vs, (r.run s).1 = .error (.circular vs) ∧ ∃ v ∈ vs, (r.run s).2.Circular v) ∨
      ∃ a v, (r.run s).1 = .error (.locked a v) ∧ (r.run s).2.LeadsTo v a) ∧
    (r.run s).2.ImportsAcyclic ∧
    ∀ c p, ((r.run s).2.classCell c).superclass = .classOf p →
      (r.run s).2.lineage c = c :: (r.run s).2.lineage p := by
  have hinv := hs.invariant
  have hrun := r.run_behaves ⟨hinv.sound, hinv.depth_le⟩ hr
  have henough : s.Enough (maxCallDepth + 1) := ⟨by omega, hinv.imports, hacyclic⟩
  refine ⟨?_, hacyclic.later hinv.imports hrun.evolves.importsKept, fun c p hp => ?_⟩
  · cases hout : (r.run s).1 with
    | ok v => exact .inl ⟨v, rfl⟩
    | error stop =>
      have hallowed := hrun.ends.error hout
      cases stop with
      | fault f => exact .inr (.inl ⟨_, rfl, rfl⟩)
      | thrown v => exact .inr (.inl ⟨_, rfl, rfl⟩)
      | circular vs => exact .inr (.inr (.inl ⟨vs, rfl, hallowed⟩))
      | locked a v => exact .inr (.inr (.inr ⟨a, v, rfl, hallowed⟩))
      | exhausted => exact absurd henough hallowed
  · exact (hrun.evolves.sound hinv.sound).toLines.lineage_eq hp

/-- A module, and one that imports a function from it. -/
def Store.importing : Store :=
  ((Store.afterText
    "function g(s) { return s.length; } function f(xs) { return xs.map(g); }").addModule
      ⟨"/b.js", "const r = x(['a', 'bb']);"⟩).2.declareImport 2 "x" 1 "f"

section

set_option maxRecDepth 2000

/-- Through the import three calls are under way inside each other. -/
theorem requests_end_importing :
    Store.importing.Reachable ∧ Store.importing.ImportsAcyclic ∧
      ∃ body, Module.ofSource "const r = x(['a', 'bb']);" = .ok body ∧
        let out := (Request.runModule 2 body).run Store.importing
        out.1 = .ok .undefined ∧ out.2.deepest = 3 ∧ out.2.ImportsAcyclic := by
  let s := Store.afterText "function g(s) { return s.length; } function f(xs) { return xs.map(g); }"
  have hs : s = .afterBody _ (Module.ofChars _ _) := Store.afterText_eq String.toList_ofList
  have hmodules : (s.addModule ⟨"/b.js", "const r = x(['a', 'bb']);"⟩).2.Reachable :=
    .addModule (Store.afterText_reachable _) _
  obtain ⟨hsize, hnone, hrun⟩ : 1 < s.scopes.size ∧ s.imports = 0 ∧
      (Module.ofChars "const r = x(['a', 'bb']);" "const r = x(['a', 'bb']);".toList).toOption.any
        fun body =>
          let out := (Request.runModule 2 body).run
            ((s.addModule ⟨"/b.js", "const r = x(['a', 'bb']);"⟩).2.declareImport 2 "x" 1 "f")
          out.1 = .ok .undefined ∧ out.2.deepest = 3 := by
    rw [hs, String.toList_ofList]
    decide +kernel
  have hreachable : Store.importing.Reachable := by
    refine .declareImport hmodules _ _ _ _ ?_
    rw [Store.addModule, Store.addScope, Array.size_push]
    exact Nat.lt_succ_of_lt hsize
  have hacyclic : Store.importing.ImportsAcyclic := by
    intro a hcycle
    obtain ⟨b, _, target, target', name', hi, _, hi'⟩ := Relation.TransGen.tail'_iff.1 hcycle
    rcases hi.of_declareImport with ⟨_, _, _, hy⟩ | hi
    · rcases hi'.of_declareImport with ⟨_, hx, _⟩ | hi'
      · exact absurd (hx.symm.trans hy) (by decide)
      · exact hmodules.invariant.imports.not_imports hnone hi'
    · exact hmodules.invariant.imports.not_imports hnone hi
  refine ⟨hreachable, hacyclic, ?_⟩
  rw [Module.ofSource_eq rfl]
  cases hbody : Module.ofChars "const r = x(['a', 'bb']);" "const r = x(['a', 'bb']);".toList with
  | error e =>
    rw [hbody] at hrun
    cases hrun
  | ok body =>
    rw [hbody] at hrun
    obtain ⟨hok, hdeepest⟩ := of_decide_eq_true hrun
    exact ⟨body, rfl, hok, hdeepest,
      (requests_end hreachable hacyclic (.runModule 2 body) .nil).2.1⟩

/-- No array holds another one, and yet a write of a length ends with neither a result nor a throw. -/
theorem length_of_itself_locked :
    let text := "const a = []; a.length = a;"
    ∃ body, Module.ofSource text = .ok body ∧
      let out := (Request.runModule 1 body).run (Store.initial.addModule ⟨"/m.js", text⟩).2
      out.1 = .error (.locked 0 (.array 0)) ∧ ∀ v, ¬ out.2.Circular v := by
  intro text
  have hrun : (Module.ofChars text text.toList).toOption.any fun body =>
      let out := (Request.runModule 1 body).run (Store.initial.addModule ⟨"/m.js", text⟩).2
      out.1 = .error (.locked 0 (.array 0)) ∧ out.2.arrays = #[#[]] := by
    have htext : text.toList = _ := String.toList_ofList
    rw [htext]
    decide +kernel
  rw [Module.ofSource_eq rfl]
  cases hbody : Module.ofChars text text.toList with
  | error e =>
    rw [hbody] at hrun
    cases hrun
  | ok body =>
    rw [hbody] at hrun
    obtain ⟨hstop, harrays⟩ := of_decide_eq_true hrun
    refine ⟨body, rfl, hstop, ?_⟩
    rintro v ⟨_, r, _, _, hcycle⟩
    obtain ⟨r', hholds, _⟩ := Relation.TransGen.head'_iff.1 hcycle
    rw [Store.HoldsArray, Store.array, harrays] at hholds
    cases r with
    | zero => simp at hholds
    | succ r => simp at hholds

end

end Typings
