import Typings.Proofs.Load.Discovery
import Typings.Proofs.Syntax.Progress

namespace Typings

open ModuleRef

variable {t : FileTree} {hosts : HostResolver} {start root : Path} {u : Units}
variable {l : Linked} {r : Resolved} {s s' s'' : Store} {key : String} {source : SourceUnit}

/-- Everything that linking and evaluating look up by key is there. -/
structure Linked.Indexed (l : Linked) : Prop where
  units : ∀ key ∈ l.order, (l.units.find? key).isSome
  scopes : ∀ key ∈ l.order, ∀ source, l.units.find? key = some (.source source) →
    (l.scopes.lookup key).isSome
  targets : ∀ key ∈ l.order, ∀ source, l.units.find? key = some (.source source) →
    ∀ d ∈ source.body.imports, ∃ target ∈ l.order, source.targets.lookup d.specifier = some target
  root : l.root ∈ l.order
  rootSource : ∃ source, l.units.find? l.root = some (.source source)

theorem required_some {α : Type} {x : Option α} (h : x.isSome) (key : String) :
    ∃ a, x = some a ∧ required key x = .ok a := by
  obtain ⟨a, rfl⟩ := Option.isSome_iff_exists.1 h
  exact ⟨a, rfl, rfl⟩

namespace Linked

theorem lookup_addScopes (u : Units) (keys : List String) (scopes : List (String × Nat)) (s : Store)
    (h : (scopes.lookup key).isSome ∨ key ∈ keys ∧ ∃ source, u.find? key = some (.source source)) :
    ((addScopes u keys (scopes, s)).1.lookup key).isSome := by
  induction keys generalizing scopes s with
  | nil =>
    rcases h with h | ⟨hk, _⟩
    · exact h
    · cases hk
  | cons k keys ih =>
    rw [addScopes]
    split
    · apply ih
      rcases h with h | ⟨hk, hs⟩
      · obtain ⟨scope, hscope⟩ := Option.isSome_iff_exists.1 h
        simp [List.lookup_append, hscope]
      · rcases List.mem_cons.1 hk with rfl | hk
        · simp [List.lookup_append]
        · exact .inr ⟨hk, hs⟩
    · rename_i hno
      apply ih
      rcases h with h | ⟨hk, source, hs⟩
      · exact .inl h
      · rcases List.mem_cons.1 hk with rfl | hk
        · exact absurd hs (hno source)
        · exact .inr ⟨hk, source, hs⟩

section
variable (h : l.Indexed) (hkey : key ∈ l.order) (hs : l.units.find? key = some (.source source))
include h

theorem Indexed.bindImport_ends (unit : SourceUnit) (scope : Nat) (specifier : String)
    {found : LoadUnit} (hf : l.units.find? key = some found) (hkey : key ∈ l.order) (s : Store)
    (names : String × String) :
    Ends (fun _ => True) (¬ LoadFault.IsDefect ·)
      (l.bindImport unit scope specifier key found s names) := by
  obtain ⟨imported, name⟩ := names
  cases found with
  | host name =>
    simp only [bindImport]
    split
    · trivial
    · exact id
  | source source =>
    simp only [bindImport]
    split
    · obtain ⟨scope', _, hscope⟩ := required_some (h.scopes key hkey source hf) key
      rw [hscope]
      trivial
    · exact id

theorem Indexed.exportsOf_ends (hkey : key ∈ l.order) (s : Store) :
    Ends (fun out => ∀ source, l.units.find? key = some (.source source) → out.2 = s)
      (fun _ => False)
      (l.exportsOf key s) := by
  unfold exportsOf
  split
  · rename_i source hs
    obtain ⟨scope, _, hscope⟩ := required_some (h.scopes key hkey source hs) key
    rw [hscope]
    exact fun _ _ => rfl
  · rename_i name hn
    intro source hs
    cases hn.symm.trans hs
  · rename_i hn
    intro source hs
    cases hn.symm.trans hs

include hkey hs

theorem Indexed.bindDecl_ends (scope : Nat) (s : Store) {d : ImportDecl}
    (hd : d ∈ source.body.imports) :
    Ends (fun _ => True) (¬ LoadFault.IsDefect ·) (l.bindDecl source scope s d) := by
  obtain ⟨target, htarget, hlookup⟩ := h.targets key hkey source hs d hd
  obtain ⟨found, hf, hfound⟩ := required_some (h.units target htarget) target
  rw [bindDecl, hlookup]
  change Ends _ _ (required target (l.units.find? target) >>= _)
  rw [hfound]
  exact Ends.foldlM (I := fun _ _ => True) _
    (fun _ names _ s _ _ => h.bindImport_ends source scope d.specifier hf htarget s names) s trivial

omit hs in
theorem Indexed.bindModule_ends (s : Store) :
    Ends (fun _ => True) (¬ LoadFault.IsDefect ·) (l.bindModule s key) := by
  unfold bindModule
  split
  · rename_i source hs
    obtain ⟨scope, _, hscope⟩ := required_some (h.scopes key hkey source hs) key
    rw [hscope]
    exact Ends.foldlM (I := fun _ _ => True) _
      (fun _ d _ s hsplit _ => h.bindDecl_ends hkey hs scope s (by simp [hsplit])) s trivial
  · trivial

theorem Indexed.bindWhole_ends (scope : Nat) (s : Store) {d : ImportDecl}
    (hd : d ∈ source.body.imports) :
    Ends (fun _ => True) (fun _ => False) (l.bindWhole source scope s d) := by
  unfold bindWhole
  split
  · trivial
  · obtain ⟨target, htarget, hlookup⟩ := h.targets key hkey source hs d hd
    rw [hlookup]
    have hexports : Ends (fun _ => True) (fun _ => False) (l.exportObject target s) :=
      (h.exportsOf_ends htarget s).bind fun _ _ => trivial
    exact hexports.bind fun _ _ => trivial

end

/-- Whether a module has a body to run. -/
def hasBody (l : Linked) (key : String) : Bool :=
  match l.units.find? key with
  | some (.source _) => true
  | _ => false

def bodies (l : Linked) : List String := l.order.filter l.hasBody

/-- The body of `key` starts in `s₀`, with the names that stand for whole modules bound. -/
structure Starts (l : Linked) (key : String) (s : Store) (unit : SourceUnit) (scope : Nat)
    (s₀ : Store) : Prop where
  found : l.units.find? key = some (.source unit)
  hasScope : l.scopes.lookup key = some scope
  bound : unit.body.imports.foldlM (l.bindWhole unit scope) s = .ok s₀

/-- Bodies run one after another, and each completes normally. -/
inductive Runs (l : Linked) : Store → List String → Store → Prop
  | nil {s : Store} : Runs l s [] s
  | cons {s s₀ s₁ s' : Store} {key : String} {keys : List String} {unit : SourceUnit} {scope : Nat}
    (hstart : l.Starts key s unit scope s₀)
    (hrun : EvalM.runFrom s₀ (EvalM.runModule scope unit.body) = (.ok (), s₁))
    (hrest : Runs l s₁ keys s') : Runs l s (key :: keys) s'

theorem Runs.append {before after : List String} (h : Runs l s before s')
    (h' : Runs l s' after s'') :
    Runs l s (before ++ after) s'' := by
  induction h with
  | nil => exact h'
  | cons hstart hrun _ ih => exact .cons hstart hrun (ih h')

/-- A body fails when all bodies before it have completed. -/
def FailsWith (l : Linked) (fault : LoadFault) : Prop :=
  ∃ before key after s unit scope s₀ stop s₁, l.bodies = before ++ key :: after ∧
    l.Runs l.store before s ∧ l.Starts key s unit scope s₀ ∧
    EvalM.runFrom s₀ (EvalM.runModule scope unit.body) = (.error stop, s₁) ∧
    fault = .ofStop unit.path s₁ stop

theorem Indexed.runBody_ends (h : l.Indexed) {before after : List String}
    (ho : l.order = before ++ key :: after) (hr : l.Runs l.store (before.filter l.hasBody) s) :
    Ends (l.Runs l.store ((before ++ [key]).filter l.hasBody)) l.FailsWith (l.runBody s key) := by
  have hkey : key ∈ l.order := by simp [ho]
  unfold runBody
  split
  · rename_i unit hu
    have hbody : l.hasBody key := by simp [hasBody, hu]
    obtain ⟨scope, hlookup, hscope⟩ := required_some (h.scopes key hkey unit hu) key
    have hbind : Ends (fun _ => True) (fun _ => False)
        (unit.body.imports.foldlM (l.bindWhole unit scope) s) :=
      Ends.foldlM (I := fun _ _ => True) _
        (fun _ d _ s hsplit _ => h.bindWhole_ends hkey hu scope s (by simp [hsplit])) s trivial
    have hstarts : Ends (l.Starts key s unit scope) l.FailsWith
        (unit.body.imports.foldlM (l.bindWhole unit scope) s) := by
      cases hb : unit.body.imports.foldlM (l.bindWhole unit scope) s with
      | error e => exact (hbind.error hb).elim
      | ok s₀ => exact ⟨hu, hlookup, hb⟩
    rw [hscope]
    change Ends _ _ (unit.body.imports.foldlM (l.bindWhole unit scope) s >>= _)
    refine hstarts.bind fun s₀ hstart => ?_
    rcases hrun : EvalM.runFrom s₀ (EvalM.runModule scope unit.body) with ⟨_ | _, s₁⟩
    · refine ⟨_, key, after.filter l.hasBody, s, unit, scope, s₀, _, s₁, ?_, hr, hstart, hrun, rfl⟩
      simp [bodies, ho, hbody]
    · have hone : l.Runs s [key] s₁ := .cons hstart hrun .nil
      simpa [Ends, pure, Except.pure, hbody] using hr.append hone
  · rename_i hno
    have hbody : ¬ l.hasBody key := by
      unfold hasBody
      split
      · rename_i unit hu
        exact absurd hu (hno unit)
      · simp
    simpa [Ends, hbody] using hr

theorem Indexed.evaluateModules_ends (h : l.Indexed) :
    Ends (fun m => ∃ s, l.Runs l.store l.bodies s ∧ m.store = s.hold (m.exports.map (·.2)))
      l.FailsWith
      (evaluateModules l) := by
  have hbodies : Ends (l.Runs l.store l.bodies) l.FailsWith (l.order.foldlM l.runBody l.store) :=
    Ends.foldlM (I := fun before s => l.Runs l.store (before.filter l.hasBody) s) _
      (fun _ _ _ _ ho hr => h.runBody_ends ho hr) l.store .nil
  unfold evaluateModules
  refine hbodies.bind fun s hr => ?_
  obtain ⟨source, hroot⟩ := h.rootSource
  obtain ⟨scope, hscope⟩ := Option.isSome_iff_exists.1 (h.scopes l.root h.root source hroot)
  have hexports := h.exportsOf_ends h.root s
  cases he : l.exportsOf l.root s with
  | error e => exact (hexports.error he).elim
  | ok out =>
    have hsame : out.2 = s := hexports.ok he source hroot
    simp only [hroot, hscope]
    exact ⟨s, hr, by rw [← hsame]⟩

end Linked

theorem ImportGraph.IsOrder.before {g : ImportGraph} {root k : String}
    {order before after : List String}
    (h : g.IsOrder root order) (ho : order = before ++ key :: after)
    (hk : Relation.TransGen g.Edge key k) : k ∈ before := by
  induction hk with
  | single he => exact h.importsFirst before key after ho _ he
  | tail _ he ih =>
    obtain ⟨first, between, rfl⟩ := List.append_of_mem ih
    have hmem := h.importsFirst first _ (between ++ key :: after) (by simp [ho]) _ he
    exact List.mem_append_left _ hmem

variable (h : Working t hosts start [] r.units) (hroot : r.root = start.text)
include h hroot

theorem Working.root_source : ∃ source, r.units.find? r.root = some (.source source) := by
  rw [hroot]
  exact (Units.mem_sourceKeys h.sound.nodup).1 h.started

theorem Working.indexed {order : List String} (ho : r.units.graph.IsOrder r.root order)
    (s s' : Store) :
    Linked.Indexed ⟨r.root, r.units, order, (Linked.addScopes r.units order ([], s)).1, s'⟩ := by
  have hcontains : ∀ key ∈ order, (r.units.find? key).isSome := by
    intro key hkey
    rcases Relation.ReflTransGen.cases_tail ((ho.mem_iff key).1 hkey) with rfl | ⟨k, _, he⟩
    · obtain ⟨source, hs⟩ := h.root_source hroot
      simp [hs]
    · exact Units.find?_isSome_iff.2 ((h.sound.keys_iff key).1 (h.sound.graph.closed k key he))
  refine ⟨hcontains, ?_, ?_, (ho.mem_iff _).2 .refl, h.root_source hroot⟩
  · intro key hkey source hs
    exact Linked.lookup_addScopes r.units order [] s (.inr ⟨hkey, source, hs⟩)
  · intro key hkey source hs d hd
    obtain ⟨m, _, hlookup, _, he⟩ := h.settled key source hs (by simp) d hd
    exact ⟨m.key, (ho.mem_iff _).2 (((ho.mem_iff key).1 hkey).tail he), hlookup⟩

theorem Working.linkModules_ends :
    Ends (fun l => l.Indexed ∧ l.root = r.root ∧ l.units = r.units ∧
      r.units.graph.IsOrder r.root l.order)
      (¬ LoadFault.IsDefect ·) (linkModules r) := by
  have hcontains : r.units.graph.contains r.root := by
    obtain ⟨source, hs⟩ := h.root_source hroot
    exact (h.sound.keys_iff _).2 (Units.find?_isSome_iff.1 (by simp [hs]))
  have hout := ImportGraph.order_outcome h.sound.graph hcontains
  unfold linkModules
  cases ho : r.units.graph.order r.root with
  | error fault =>
    rw [ho] at hout
    cases fault with
    | circular cycle => exact id
    | notFound key => exact hout.elim
  | ok order =>
    rw [ho] at hout
    have horder : r.units.graph.IsOrder r.root order := ImportGraph.Found.isOrder hout
    have hl := h.indexed hroot horder .initial (Linked.addScopes r.units order ([], .initial)).2
    change Ends _ _ (order.foldlM _ _ >>= _)
    refine Ends.bind (Ends.foldlM (I := fun _ _ => True) _ ?_ _ trivial) fun s _ => ?_
    · intro before key after s hsplit _
      exact hl.bindModule_ends (by simp [hsplit]) s
    · exact ⟨h.indexed hroot horder .initial s, rfl, rfl, horder⟩

/-- The modules with a body: all files that are needed, once each, and imports first. -/
structure Linked.Ordered (t : FileTree) (hosts : HostResolver) (start : Path) (l : Linked) :
    Prop where
  nodup : l.bodies.Nodup
  mem_iff : ∀ key, key ∈ l.bodies ↔ ∃ path, Needs t hosts start (.file path) ∧ path.text = key
  importsFirst : ∀ before path after, l.bodies = before ++ path.text :: after →
    ∀ path', Relation.TransGen (Imports t hosts) (.file path) (.file path') → path'.text ∈ before

section
variable (hstart : ∃ place, start = FileTree.pathOf place)
include hstart

omit hroot in
theorem Working.transGen_edge {m m' : ModuleRef} (hm : Needs t hosts start m)
    (hi : Relation.TransGen (Imports t hosts) m m') :
    Relation.TransGen r.units.graph.Edge m.key m'.key := by
  induction hi with
  | single hi => exact .single (h.finds_import hstart hm (h.finds hstart hm).1 hi).2
  | tail hi he ih =>
    have hneeds := hm.trans hi.to_reflTransGen
    exact ih.tail (h.finds_import hstart hneeds (h.finds hstart hneeds).1 he).2

omit hroot in
theorem Working.hasBody {path : Path} (hm : Needs t hosts start (.file path))
    (hu : l.units = r.units) :
    l.hasBody path.text := by
  obtain ⟨unit, hunit⟩ := Option.isSome_iff_exists.1 (h.finds hstart hm).1
  have hshows := h.shows hstart hm hunit
  change r.units.find? path.text = some unit at hunit
  cases unit with
  | host name => exact hshows.elim
  | source source => simp [Linked.hasBody, hu, hunit]

theorem Working.mem_bodies (hu : l.units = r.units) (ho : r.units.graph.IsOrder r.root l.order) :
    key ∈ l.bodies ↔ ∃ path, Needs t hosts start (.file path) ∧ path.text = key := by
  rw [Linked.bodies, List.mem_filter]
  constructor
  · rintro ⟨_, hbody⟩
    unfold Linked.hasBody at hbody
    split at hbody
    · rename_i source hs
      obtain ⟨hneeds, hkey, _⟩ := h.sound.source_ref (hu ▸ hs)
      exact ⟨source.path, hneeds, hkey⟩
    · cases hbody
  · rintro ⟨path, hneeds, rfl⟩
    exact ⟨(ho.mem_iff _).2 (hroot ▸ (h.finds hstart hneeds).2), h.hasBody hstart hneeds hu⟩

theorem Working.ordered (hu : l.units = r.units) (ho : r.units.graph.IsOrder r.root l.order) :
    l.Ordered t hosts start := by
  refine ⟨ho.nodup.filter _, fun key => h.mem_bodies hroot hstart hu ho, ?_⟩
  intro before path after hsplit path' hi
  have hpath : Needs t hosts start (.file path) := by
    have hmem : path.text ∈ l.bodies := by simp [hsplit]
    obtain ⟨⟨text⟩, hneeds, rfl⟩ := (h.mem_bodies hroot hstart hu ho).1 hmem
    exact hneeds
  have hbody : l.hasBody path'.text := h.hasBody hstart (hpath.trans hi.to_reflTransGen) hu
  -- a split of the bodies comes from a split of the order
  obtain ⟨first, rest, horder, rfl, hrest⟩ := List.filter_eq_append_iff.1 hsplit
  obtain ⟨between, last, rfl, hbetween, _, _⟩ := List.filter_eq_cons_iff.1 hrest
  rw [← List.append_assoc] at horder
  have hbefore : path'.text ∈ first ++ between := ho.before horder (h.transGen_edge hstart hpath hi)
  rcases List.mem_append.1 hbefore with hmem | hmem
  · exact List.mem_filter.2 ⟨hmem, hbody⟩
  · exact absurd hbody (hbetween _ hmem)

end

omit h hroot

/-- What resolving gives: the modules that are needed, once each, as their files say. -/
structure Resolved.Exact (t : FileTree) (hosts : HostResolver) (start : Path) (r : Resolved) :
    Prop where
  root : r.root = start.text
  nodup : r.units.keys.Nodup
  mem_iff : ∀ key, key ∈ r.units.keys ↔ ∃ m, Needs t hosts start m ∧ m.key = key
  shows : ∀ m unit, Needs t hosts start m → r.units.find? m.key = some unit → m.Shows t unit

theorem canonical_eq_pathOf (h : t.canonical root = .ok start) :
    ∃ place, start = FileTree.pathOf place := by
  unfold FileTree.canonical at h
  cases hl : t.locate root with
  | error e =>
    rw [hl] at h
    cases h
  | ok place =>
    rw [hl] at h
    cases h
    exact ⟨place, rfl⟩

theorem loadModule_eq_ok {m : LoadedModule} (h : loadModule t hosts root = .ok m) :
    ∃ r l, resolveModule t hosts root = .ok r ∧ linkModules r = .ok l ∧
      evaluateModules l = .ok m := by
  obtain ⟨r, hr, h⟩ := bind_eq_ok h
  obtain ⟨l, hl, h⟩ := bind_eq_ok h
  exact ⟨r, l, hr, hl, h⟩

/--
Loading ends for reasons that the files give and never for want of something it looks up; neither
reading a module nor finding the next one is ever cut short. What was resolved is what the root
needs. Of what was loaded every body ran once, after the bodies of all that it imports, and a load
that fails in a body fails in the first such.
-/
theorem loading_runs_imports_first (t : FileTree) (hosts : HostResolver) (root : Path) :
    (∀ ts errors, Module.ofTokens ts = .error errors → ∀ e ∈ errors, e.fault ≠ .exhausted) ∧
    (∀ fault, resolveModule t hosts root = .error fault → ¬ fault.IsDefect) ∧
    (∀ r, resolveModule t hosts root = .ok r →
      ∃ start, t.canonical root = .ok start ∧ r.Exact t hosts start ∧
      (∀ fault, linkModules r = .error fault → ¬ fault.IsDefect) ∧
      ∀ l, linkModules r = .ok l → l.Indexed ∧ l.Ordered t hosts start ∧
        ∀ fault, evaluateModules l = .error fault → l.FailsWith fault) ∧
    ∀ m, loadModule t hosts root = .ok m → ∃ r l s, resolveModule t hosts root = .ok r ∧
      linkModules r = .ok l ∧ l.Runs l.store l.bodies s ∧
        m.store = s.hold (m.exports.map (·.2)) := by
  have hresolve := resolveModule_ends t hosts root
  refine ⟨fun ts errors h => (Module.ofTokens_ends ts).error h, fun fault hf => hresolve.error hf,
    ?_, ?_⟩
  · intro r hr
    obtain ⟨start, hcanonical, hroot, hw⟩ := hresolve.ok hr
    have hstart := canonical_eq_pathOf hcanonical
    have hlink := hw.linkModules_ends hroot
    refine ⟨start, hcanonical, ⟨hroot, hw.sound.nodup, ?_, ?_⟩, fun fault hf => hlink.error hf, ?_⟩
    · intro key
      rw [← Units.find?_isSome_iff]
      exact hw.find?_isSome_iff hstart
    · exact fun m unit hm hu => hw.shows hstart hm hu
    · intro l hl
      obtain ⟨hindexed, _, hunits, horder⟩ := hlink.ok hl
      exact ⟨hindexed, hw.ordered hroot hstart hunits horder,
        fun fault hf => hindexed.evaluateModules_ends.error hf⟩
  · intro m hm
    obtain ⟨r, l, hr, hl, he⟩ := loadModule_eq_ok hm
    obtain ⟨start, _, hroot, hw⟩ := hresolve.ok hr
    obtain ⟨hindexed, _⟩ := (hw.linkModules_ends hroot).ok hl
    obtain ⟨s, hruns, hstore⟩ := hindexed.evaluateModules_ends.ok he
    exact ⟨r, l, s, hr, hl, hruns, hstore⟩

end Typings
