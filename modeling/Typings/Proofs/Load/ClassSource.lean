import Typings.Proofs.Eval.Session
import Typings.Proofs.Eval.TraceCode
import Typings.Proofs.Load.Evaluation
import Typings.Proofs.Syntax.ClassText

namespace Typings

variable {t : FileTree} {hosts : HostResolver} {start root path : Path} {u : Units}
variable {l : Linked} {r : Resolved} {s s' : Store} {key : String}

/-- A file as scopes name it. -/
def SourceUnit.source (unit : SourceUnit) : ModuleSource := ⟨unit.path.text, unit.text⟩

/-- What a scope says of its file is true. -/
def ModuleSource.IsFile (t : FileTree) (source : ModuleSource) : Prop :=
  t.readText ⟨source.path⟩ = .ok source.text

theorem readModule_eq_ok {unit : SourceUnit} (h : t.readModule path = .ok unit) :
    t.readText path = .ok unit.text ∧ Module.ofSource unit.text = .ok unit.body := by
  obtain ⟨text, htext, h⟩ := bind_eq_ok h
  obtain ⟨body, hbody, h⟩ := bind_eq_ok h
  cases h
  constructor
  · cases hread : t.readText path with
    | ok text' =>
      rw [hread] at htext
      cases htext
      rfl
    | error e =>
      rw [hread] at htext
      cases htext
  · cases hread : Module.ofSource text with
    | ok body' =>
      rw [hread] at hbody
      cases hbody
      rfl
    | error e =>
      rw [hread] at hbody
      cases hbody

namespace Store

/-- There are no functions but built-in ones, and no classes. -/
structure Bare (s : Store) : Prop where
  functions : ∀ f body env home, (s.function f).code ≠ .script body env home
  classes : s.classes.size = 0

theorem Bare.traced (h : s.Bare) : s.Traced where
  functions f body env home hcode := absurd hcode (h.functions f body env home)
  classes c hc := absurd hc (by simp [h.classes])

theorem SameCode.refl : s.SameCode s := .of_eq rfl rfl rfl

theorem SameCode.trans {s'' : Store} (h : s.SameCode s') (h' : s'.SameCode s'') : s.SameCode s'' where
  size := h'.size.trans h.size
  scopes r := ⟨(h'.scopes r).1.trans (h.scopes r).1, (h'.scopes r).2.trans (h.scopes r).2⟩
  functions f body env home hcode := h.functions f body env home (h'.functions f body env home hcode)
  classes_size := h'.classes_size.trans h.classes_size
  classes c :=
    ⟨(h'.classes c).1.trans (h.classes c).1, (h'.classes c).2.1.trans (h.classes c).2.1,
      (h'.classes c).2.2.trans (h.classes c).2.2⟩

theorem Bare.sameCode (h : s.Bare) (hs : s.SameCode s') : s'.Bare where
  functions f body env home hcode := h.functions f body env home (hs.functions f body env home hcode)
  classes := hs.classes_size.trans h.classes

/--
What linking needs of a store: there is no code in it, every file is as the tree has it, and the
scope that is listed for a module lies in the file of that module.
-/
structure Prepared (t : FileTree) (u : Units) (scopes : List (String × Nat)) (s : Store) : Prop where
  bare : s.Bare
  global : ∀ o ∈ s.chain globalScope, o < s.scopes.size
  files : ∀ r source, (s.scope r).source = some source → source.IsFile t
  places : ∀ p ∈ scopes, ∀ unit, u.find? p.1 = some (.source unit) → s.ReadFrom p.2 unit.source

theorem Prepared.sameCode {scopes : List (String × Nat)} (h : s.Prepared t u scopes)
    (hs : s.SameCode s') : s'.Prepared t u scopes where
  bare := h.bare.sameCode hs
  global o ho := by
    rw [hs.size]
    exact h.global o (by rwa [chain, (hs.scopes _).1] at ho)
  files r source hsource := h.files r source ((hs.scopes r).2 ▸ hsource)
  places p hp unit hu := (h.places p hp unit hu).later hs.extends

theorem prepared_initial : Store.initial.Prepared t u [] := by
  have hempty : (({} : Store).addScope {}).2.Prepared t u [] := by
    refine ⟨⟨fun f body env home hcode => ?_, rfl⟩, ?_, fun r source hsource => ?_, by simp⟩
    · cases hcode
    · intro o ho
      have hglobal : (({} : Store).addScope {}).2.scope globalScope = {} := scope_addScope ..
      rw [chain, hglobal] at ho
      simpa [Store.addScope, globalScope] using ho
    · rw [scope_addScope] at hsource
      split at hsource
      · cases hsource
      · cases hsource
  refine List.foldlRecOn _ _ (List.foldlRecOn _ _ ?_ ?_) ?_
  · have hundefined :=
      hempty.sameCode (sameCode_setBinding _ globalScope "undefined" (.constant .undefined))
    have hnan :=
      hundefined.sameCode (sameCode_setBinding _ globalScope "NaN" (.constant (.number (0.0 / 0.0))))
    exact hnan.sameCode (sameCode_setBinding ..)
  · intro s hs name _
    have hhost : s.SameCode (s.addHost name).2 := .of_eq rfl rfl rfl
    exact (hs.sameCode hhost).sameCode (sameCode_setBinding ..)
  · intro s hs b _
    exact (hs.sameCode (sameCode_addBuiltin s b.name b)).sameCode (sameCode_setBinding ..)

theorem Prepared.addModule {scopes : List (String × Nat)} (h : s.Prepared t u scopes)
    {unit : SourceUnit} (hu : u.find? key = some (.source unit)) (hfile : unit.source.IsFile t) :
    (s.addModule unit.source).2.Prepared t u (scopes ++ [(key, s.scopes.size)]) := by
  let c : Scope := { s.inside globalScope with source := some unit.source }
  have hkept : s.ScopesKept (s.addModule unit.source).2 := s.scopesKept_addScope c
  have hnew : (s.addModule unit.source).2.scope s.scopes.size = c := by
    rw [Store.addModule, scope_addScope, if_pos rfl]
  have hglobal : (s.addModule unit.source).2.chain globalScope = s.chain globalScope :=
    hkept.chain_eq (h.global globalScope List.mem_cons_self)
  refine ⟨⟨h.bare.functions, h.bare.classes⟩, fun o ho => ?_, fun r source hsource => ?_, ?_⟩
  · exact Nat.lt_of_lt_of_le (h.global o (hglobal ▸ ho)) hkept.size_le
  · rw [Store.addModule, scope_addScope] at hsource
    split at hsource
    · cases hsource
      exact hfile
    · exact h.files r source hsource
  · intro p hp unit' hu'
    rcases List.mem_append.1 hp with hp | hp
    · exact (h.places p hp unit' hu').kept hkept
    · cases List.mem_singleton.1 hp
      cases hu.symm.trans hu'
      refine ⟨fun o ho => ?_, ?_⟩
      · rw [chain, hnew] at ho
        rcases List.mem_cons.1 ho with rfl | ho
        · simp [Store.addModule, Store.addScope]
        · exact Nat.lt_of_lt_of_le (h.global o ho) hkept.size_le
      · rw [sourceOf?, chain, List.findSome?_cons, hnew]

end Store

namespace Linked

theorem addScopes_prepared (hfiles : ∀ key unit, u.find? key = some (.source unit) →
      unit.source.IsFile t) (keys : List String) {scopes : List (String × Nat)}
    (h : s.Prepared t u scopes) :
    (addScopes u keys (scopes, s)).2.Prepared t u (addScopes u keys (scopes, s)).1 := by
  induction keys generalizing scopes s with
  | nil => exact h
  | cons k keys ih =>
    rw [addScopes]
    split
    · rename_i unit hu
      exact ih (h.addModule hu (hfiles k unit hu))
    · exact ih h

theorem bindImport_sameCode (l : Linked) (unit : SourceUnit) (scope : Nat)
    (specifier target : String) (found : LoadUnit) (s : Store) (names : String × String) :
    Ends s.SameCode (fun _ => True) (l.bindImport unit scope specifier target found s names) := by
  obtain ⟨imported, name⟩ := names
  cases found with
  | host host =>
    simp only [bindImport]
    split
    · have hhost : s.SameCode (s.addHost host).2 := .of_eq rfl rfl rfl
      exact hhost.trans (Store.sameCode_setBinding ..)
    · trivial
  | source source =>
    simp only [bindImport]
    split
    · cases l.scopes.lookup target with
      | none => trivial
      | some scope' =>
        have hbound := s.sameCode_setBinding scope name (.imported scope' ‹String›)
        exact hbound.trans (.of_eq rfl rfl rfl)
    · trivial

theorem foldlM_sameCode {α : Type} {f : Store → α → Except LoadFault Store} (as : List α)
    (hf : ∀ s a, Ends s.SameCode (fun _ => True) (f s a)) (s : Store) :
    Ends s.SameCode (fun _ => True) (as.foldlM f s) :=
  Ends.foldlM (I := fun _ => s.SameCode) as
    (fun _ a _ s' _ hs' => (hf s' a).mono (fun _ h => hs'.trans h) fun _ => id) s .refl

theorem bindDecl_sameCode (l : Linked) (unit : SourceUnit) (scope : Nat) (s : Store)
    (d : ImportDecl) : Ends s.SameCode (fun _ => True) (l.bindDecl unit scope s d) := by
  unfold bindDecl
  cases unit.targets.lookup d.specifier with
  | none => trivial
  | some target =>
    change Ends _ _ (required target (l.units.find? target) >>= _)
    cases l.units.find? target with
    | none => trivial
    | some found =>
      exact foldlM_sameCode _ (fun s names => l.bindImport_sameCode unit scope _ _ _ s names) s

theorem bindModule_sameCode (l : Linked) (s : Store) (key : String) :
    Ends s.SameCode (fun _ => True) (l.bindModule s key) := by
  unfold bindModule
  split
  · cases l.scopes.lookup key with
    | none => trivial
    | some scope => exact foldlM_sameCode _ (l.bindDecl_sameCode _ scope) s
  · exact Store.SameCode.refl

theorem exportObject_sameCode (l : Linked) (key : String) (s : Store) :
    Ends (fun out => s.SameCode out.2) (fun _ => True) (l.exportObject key s) := by
  have hexports : Ends (fun out => s.SameCode out.2) (fun _ => True) (l.exportsOf key s) := by
    unfold exportsOf
    split
    · cases l.scopes.lookup key with
      | none => trivial
      | some scope => exact Store.SameCode.refl
    · exact Store.SameCode.of_eq rfl rfl rfl
    · exact Store.SameCode.refl
  refine hexports.bind fun out hout => ?_
  exact hout.trans (.of_eq rfl rfl rfl)

theorem bindWhole_sameCode (l : Linked) (unit : SourceUnit) (scope : Nat) (s : Store)
    (d : ImportDecl) : Ends s.SameCode (fun _ => True) (l.bindWhole unit scope s d) := by
  unfold bindWhole
  split
  · exact Store.SameCode.refl
  · cases unit.targets.lookup d.specifier with
    | none => trivial
    | some target =>
      refine (l.exportObject_sameCode target s).bind fun out hout => ?_
      exact hout.trans (Store.sameCode_setBinding ..)

theorem Starts.sameCode {unit : SourceUnit} {scope : Nat} (h : l.Starts key s unit scope s') :
    s.SameCode s' :=
  (foldlM_sameCode _ (l.bindWhole_sameCode unit scope) s).ok h.bound

/-- Each module is read from a file as the tree has it, and its scope lies in that file. -/
structure Placed (t : FileTree) (l : Linked) : Prop where
  traced : l.store.Traced
  files : ∀ r source, (l.store.scope r).source = some source → source.IsFile t
  scopes : ∀ key unit scope, l.units.find? key = some (.source unit) →
    l.scopes.lookup key = some scope → l.store.ReadFrom scope unit.source
  bodies : ∀ key unit, l.units.find? key = some (.source unit) →
    Module.ofSource unit.text = .ok unit.body

end Linked

theorem Working.linkModules_placed (hw : Working t hosts start [] r.units)
    (hl : linkModules r = .ok l) : l.Placed t := by
  have hread : ∀ key unit, r.units.find? key = some (.source unit) →
      unit.source.IsFile t ∧ Module.ofSource unit.text = .ok unit.body := by
    intro key unit hu
    obtain ⟨htext, hbody⟩ := readModule_eq_ok (hw.sound.source_ref hu).2.2
    exact ⟨htext, hbody⟩
  obtain ⟨order, _, hl⟩ := bind_eq_ok hl
  obtain ⟨store, hstore, hl⟩ := bind_eq_ok hl
  cases hl
  have hscopes := Linked.addScopes_prepared (fun key unit hu => (hread key unit hu).1) order
    (Store.prepared_initial (t := t) (u := r.units))
  have hbound : Store.SameCode _ store :=
    (Linked.foldlM_sameCode order (fun s key => Linked.bindModule_sameCode _ s key) _).ok hstore
  have hprepared := hscopes.sameCode hbound
  refine ⟨hprepared.bare.traced, hprepared.files, fun key unit scope hu hscope => ?_,
    fun key unit hu => (hread key unit hu).2⟩
  exact hprepared.places (key, scope) (Association.mem_of_lookup hscope) unit hu

namespace Request

/-- A request that brings no code with it. -/
def IsProbe : Request → Prop
  | runModule .. | evaluate .. => False
  | call .. | construct .. | getProperty .. | setProperty .. => True

theorem run_traces {q : Request} (hq : q.IsProbe) : Traces [] q.run := by
  have hparts := Machine.full_traces.parts (Γ := [])
  cases q with
  | runModule scope body => exact hq.elim
  | evaluate scope e => exact hq.elim
  | call callee receiver args => exact (EvalM.callValue_composed hparts callee receiver args).traces
  | construct callee args => exact (EvalM.construct_composed hparts callee args).traces
  | getProperty base key => exact (EvalM.getProperty_composed hparts base key).traces
  | setProperty base key v =>
    exact (EvalM.setProperty_composed hparts base key v).traces.bind fun _ => .pure _

end Request

theorem Traces.attempt {α : Type} {Γ : Places} {x : EvalM α} (hx : Traces Γ x) :
    Traces Γ (EvalM.attempt x) := by
  refine (hx.map _).tryCatch fun stop => ?_
  split
  · exact .pure _
  · exact .throw stop

theorem EvalM.stopText_composed {B : StepProperty} (stop : Stop) : Composed B (stopText stop) := by
  cases stop with
  | fault f => exact .pure _
  | thrown v => exact (textOf_composed v).bind fun _ => .pure _
  | _ => exact .throw _

namespace Subject

theorem ofClass_traces (c : Nat) : Traces [] (ofClass c) := by
  have hmade := EvalM.construct_composed (Machine.full_traces.parts (Γ := [])) (.classOf c) []
  refine hmade.traces.attempt.bind fun made => ?_
  split
  · exact .pure _
  · exact .pure _

theorem probe_traces (x : Subject) (name : String) : Traces [] (x.probe name) := by
  unfold probe
  split
  · rename_i v _
    have hread := EvalM.getProperty_composed (Machine.full_traces.parts (Γ := [])) v name
    refine hread.traces.attempt.bind fun found => ?_
    split
    · exact .read fun _ => .pure _
    · exact (EvalM.stopText_composed _).traces.bind fun _ => .pure _
  · refine .read fun s => ?_
    split
    · exact .pure _
    · exact .pure _
    · exact .pure _

end Subject

namespace Linked

/-- What happens to the store of linked modules, while they are evaluated and later. -/
inductive Step (l : Linked) : Store → Store → Prop
  /-- The names that stand for whole modules are bound before a body runs. -/
  | start {s s₀ : Store} {key : String} {unit : SourceUnit} {scope : Nat}
    (h : l.Starts key s unit scope s₀) : Step l s s₀
  /-- A body runs, however it ends. -/
  | run {s s₀ : Store} {key : String} {unit : SourceUnit} {scope : Nat}
    (h : l.Starts key s unit scope s₀) : Step l s₀ (EvalM.runModule scope unit.body s₀).2
  /-- A value is called, constructed, read or written, however that ends. -/
  | request {s : Store} (q : Request) (hq : q.IsProbe) : Step l s (q.run s).2
  /-- A class is looked at through an instance. -/
  | look {s : Store} (c : Nat) : Step l s (Subject.ofClass c s).2
  | probe {s : Store} (x : Subject) (name : String) : Step l s (x.probe name s).2
  /-- Other values are at hand. -/
  | hold {s : Store} (held : List (List Value)) : Step l s { s with held }

theorem Placed.leads (h : l.Placed t) (hs : l.store.Leads s) (hstep : l.Step s s') : s.Leads s' := by
  have hnone : s.Confirms [] := by simp [Store.Confirms]
  cases hstep with
  | start hstart => exact hstart.sameCode.leads hs.traced
  | run hstart =>
    rename_i key unit scope
    have hplace := (h.scopes key unit scope hstart.found hstart.hasScope).later hs.scopes
    have hbody := h.bodies key unit hstart.found
    exact EvalM.runModule_traces hbody hs.traced hplace.confirms
  | request q hq => exact q.run_traces hq hs.traced hnone
  | look c => exact Subject.ofClass_traces c hs.traced hnone
  | probe x name => exact x.probe_traces name hs.traced hnone
  | hold held => exact Store.SameCode.leads (.of_eq rfl rfl rfl) hs.traced

theorem Placed.leads_run (h : l.Placed t) (hs : l.store.Leads s)
    (hrun : Relation.ReflTransGen l.Step s s') : s.Leads s' := by
  induction hrun with
  | refl => exact hs.traced.leads
  | tail _ hstep ih => exact ih.trans (h.leads (hs.trans ih) hstep)

theorem Runs.steps {keys : List String} (h : l.Runs s keys s') :
    Relation.ReflTransGen l.Step s s' := by
  induction h with
  | nil => exact .refl
  | @cons s s₀ s₁ s' key keys unit scope hstart hrun _ ih =>
    have hend : (EvalM.runModule scope unit.body s₀).2 = s₁ := congrArg Prod.snd hrun
    exact .head (.start hstart) (.head (hend ▸ .run hstart) ih)

end Linked

/--
Whenever a class is there, while linked modules are evaluated or when values are constructed and
looked at later, it is written in the file that it names: the definition that it was made from stands
in that file, and the scope around its members lies there. The text of the class is the slice of
that file at the definition, and stays so.
-/
theorem class_text_of_definition (hr : resolveModule t hosts root = .ok r)
    (hl : linkModules r = .ok l) :
    (∀ m, evaluateModules l = .ok m → Relation.ReflTransGen l.Step l.store m.store) ∧
    ∀ s, Relation.ReflTransGen l.Step l.store s → ∀ c < s.classes.size, ∃ source body slice,
      (s.classCell c).source = some source ∧ s.sourceOf? (s.classCell c).env = some source ∧
      t.readText ⟨source.path⟩ = .ok source.text ∧ Module.ofSource source.text = .ok body ∧
      body.Has (.classOf (s.classCell c).body) ∧
      slice? source.text (s.classCell c).body.span.start (s.classCell c).body.span.stop =
        some slice ∧
      "class".toList <+: slice.toList ∧ slice.toList.getLast? = some '}' ∧
      ∀ s', Relation.ReflTransGen l.Step s s' → s'.classText? c = some slice := by
  obtain ⟨start, _, hroot, hw⟩ := (resolveModule_ends t hosts root).ok hr
  have hplaced := hw.linkModules_placed hl
  refine ⟨fun m hm => ?_, fun s hs c hc => ?_⟩
  · obtain ⟨hindexed, _⟩ := (hw.linkModules_ends hroot).ok hl
    obtain ⟨s, hruns, hstore⟩ := hindexed.evaluateModules_ends.ok hm
    rw [hstore]
    exact hruns.steps.tail (.hold _)
  · have hleads := hplaced.leads_run hplaced.traced.leads hs
    obtain ⟨source, hnamed, henv, body, hbody, hhas⟩ := hleads.traced.classes c hc
    obtain ⟨slice, hslice, hword, hend⟩ := hhas.classText hbody
    refine ⟨source, body, slice, hnamed, henv.source, ?_, hbody, hhas, hslice, hword, hend, ?_⟩
    · obtain ⟨o, ho⟩ := henv.exists_module
      have hlt : o < l.store.scopes.size := by
        by_contra hge
        rw [hleads.scopes.added o (Nat.le_of_not_lt hge)] at ho
        cases ho
      exact hplaced.files o source ((hleads.scopes.kept o hlt).2 ▸ ho)
    · intro s' hs'
      have htext : s.classText? c = some slice := by
        rw [Store.classText?, hnamed]
        exact hslice
      rw [(hplaced.leads_run hleads hs').scopes.classText?_eq hc, htext]

/-- A module that exports a class, which a function of the module that it imports makes. -/
def FileTree.withMaker : FileTree :=
  { entries := [
      (["a.js"], .file "export function make() \x7b return class \x7b x = 1; \x7d; \x7d".toUTF8),
      (["b.js"], .file "import \x7b make \x7d from './a.js'; export const C = make();".toUTF8)] }

def LoadedModule.exportedText? (m : LoadedModule) (name : String) : Option (String × String) :=
  match m.export? name with
  | some (.classOf c) =>
    if c < m.store.classes.size then
      match (m.store.classCell c).source, m.store.classText? c with
      | some source, some text => some (source.path, text)
      | _, _ => none
    else none
  | _ => none

theorem LoadedModule.exportedText?_eq_some {m : LoadedModule} {name path text : String}
    (h : m.exportedText? name = some (path, text)) :
    ∃ c source, m.export? name = some (.classOf c) ∧ c < m.store.classes.size ∧
      (m.store.classCell c).source = some source ∧ source.path = path ∧
      m.store.classText? c = some text := by
  unfold exportedText? at h
  split at h
  · next c hexport =>
    split at h
    · next hc =>
      split at h
      · next source text hsource htext =>
        cases h
        exact ⟨c, source, hexport, hc, hsource, rfl, htext⟩
      · cases h
    · cases h
  · cases h

/-- The class names the file of the function that made it, and its text stands there. -/
theorem class_text_of_definition_withMaker :
    ∃ r l m c source body, resolveModule .withMaker (fun _ => none) ⟨"/b.js"⟩ = .ok r ∧
      linkModules r = .ok l ∧ evaluateModules l = .ok m ∧ m.export? "C" = some (.classOf c) ∧
      c < m.store.classes.size ∧ (m.store.classCell c).source = some source ∧
      source.path = "/a.js" ∧ m.store.classText? c = some "class \x7b x = 1; \x7d" ∧
      FileTree.withMaker.readText ⟨source.path⟩ = .ok source.text ∧
      Module.ofSource source.text = .ok body ∧ body.Has (.classOf (m.store.classCell c).body) := by
  have hcheck : (loadModule .withMaker (fun _ => none) ⟨"/b.js"⟩).toOption.bind
      (·.exportedText? "C") = some ("/a.js", "class \x7b x = 1; \x7d") := by
    decide +kernel
  cases hload : loadModule .withMaker (fun _ => none) ⟨"/b.js"⟩ with
  | error fault =>
    rw [hload] at hcheck
    cases hcheck
  | ok m =>
    rw [hload] at hcheck
    obtain ⟨c, source, hexport, hc, hsource, hpath, htext⟩ :=
      LoadedModule.exportedText?_eq_some hcheck
    obtain ⟨r, l, hr, hl, hm⟩ := loadModule_eq_ok hload
    obtain ⟨hsteps, hclasses⟩ := class_text_of_definition hr hl
    obtain ⟨source', body, _, hsource', _, hread, hbody, hhas, _⟩ :=
      hclasses m.store (hsteps m hm) c hc
    cases hsource.symm.trans hsource'
    exact ⟨r, l, m, c, source, body, hr, hl, hm, hexport, hc, hsource, hpath, htext, hread, hbody,
      hhas⟩

end Typings
