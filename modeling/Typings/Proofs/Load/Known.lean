import Typings.Load.Module
import Typings.Proofs.Eval.Session

namespace Typings

namespace Store

variable {s s' : Store}

theorem Ready.change (h : s.Ready False) (hc : Change False s s') (hd : s'.depth = s.depth) :
    s'.Ready False :=
  h.later hc.evolves hd

theorem Ready.initial : Store.initial.Ready False :=
  ⟨Invariant.initial.sound, Invariant.initial.depth_le⟩

theorem Ready.hold (h : s.Ready False) (vs : List Value) : (s.hold vs).Ready False :=
  h.change (.note _ _ _ _ _ (Nat.le_refl _)) rfl

theorem Ready.lookup (h : s.Ready False) (scope : Nat) (name : String) :
    s.Knows False ((s.lookup? scope name).getD .undefined) := by
  unfold lookup?
  cases hfound : s.search? scope name with
  | none => trivial
  | some found =>
    cases found with
    | none => trivial
    | some v => exact EvalM.follow_known h.sound hfound

end Store

/-- A store and values in it, from which steps may start. -/
structure Linked.Supplies (vs : List Value) (s : Store) : Prop where
  ready : s.Ready False
  known : s.KnowsAll False vs

namespace Linked

variable {l : Linked} {s : Store}

theorem addScopes_ready (u : Units) (keys : List String) (scopes : List (String × Nat))
    (hs : s.Ready False) : (addScopes u keys (scopes, s)).2.Ready False := by
  induction keys generalizing scopes s with
  | nil => exact hs
  | cons key keys ih =>
    rw [addScopes]
    split
    · exact ih _ (hs.change (.addScope _ rfl) rfl)
    · exact ih _ hs

/-- A step that may start leaves a store in which steps may start. -/
def KeepsReady (x : Store → Except LoadFault Store) : Prop :=
  ∀ ⦃s : Store⦄, s.Ready False → Ends (·.Ready False) (fun _ => True) (x s)

theorem KeepsReady.foldlM {α : Type} {f : Store → α → Except LoadFault Store} (as : List α)
    (hf : ∀ a, KeepsReady (f · a)) : KeepsReady (as.foldlM f) :=
  fun s hs => Ends.foldlM (I := fun _ s => s.Ready False) as (fun _ a _ _ _ hs => hf a hs) s hs

theorem required_ends {α : Type} (key : String) (x : Option α) :
    Ends (fun a => x = some a) (fun _ => True) (required key x) := by
  cases x with
  | none => trivial
  | some a => rfl

variable (l)

theorem bindImport_keepsReady (unit : SourceUnit) (scope : Nat) (specifier target : String)
    (found : LoadUnit) (names : String × String) :
    KeepsReady (l.bindImport unit scope specifier target found · names) := by
  intro s hs
  obtain ⟨imported, name⟩ := names
  cases found with
  | host host =>
    simp only [bindImport]
    split
    · exact (hs.change (.addHost host) rfl).change (.declareConstant _ _ _ trivial) rfl
    · trivial
  | source source =>
    simp only [bindImport]
    split
    · refine (required_ends target (l.scopes.lookup target)).bind fun scope' _ => ?_
      exact ⟨hs.sound.declareImport scope name scope' _, hs.depth_le⟩
    · trivial

theorem bindDecl_keepsReady (unit : SourceUnit) (scope : Nat) (d : ImportDecl) :
    KeepsReady (l.bindDecl unit scope · d) := by
  intro s hs
  refine (required_ends d.specifier _).bind fun target _ => ?_
  refine (required_ends target _).bind fun found _ => ?_
  exact KeepsReady.foldlM _ (l.bindImport_keepsReady unit scope d.specifier target found) hs

theorem bindModule_keepsReady (key : String) : KeepsReady (l.bindModule · key) := by
  intro s hs
  dsimp only [bindModule]
  split
  · refine (required_ends key _).bind fun scope _ => ?_
    exact KeepsReady.foldlM _ (l.bindDecl_keepsReady _ scope) hs
  · exact hs

theorem exportsOf_supplies (key : String) (hs : s.Ready False) :
    Ends (fun out => Supplies (out.1.map (·.2)) out.2) (fun _ => True) (l.exportsOf key s) := by
  unfold exportsOf
  split
  · refine (required_ends key _).bind fun scope _ => ?_
    refine ⟨hs, fun v hv => ?_⟩
    obtain ⟨_, he, rfl⟩ := List.mem_map.1 hv
    obtain ⟨_, _, rfl⟩ := List.mem_map.1 he
    exact hs.lookup scope _
  · rename_i name _
    exact ⟨hs.change (.addHost name) rfl, .cons trivial .nil⟩
  · exact ⟨hs, .nil⟩

theorem exportObject_supplies (key : String) (hs : s.Ready False) :
    Ends (fun out => Supplies [out.1] out.2) (fun _ => True) (l.exportObject key s) := by
  refine (l.exportsOf_supplies key hs).bind fun out hout => ?_
  obtain ⟨exports, s₁⟩ := out
  have hprops : PropertyMap.All (s₁.Knows False)
      (exports.foldl (fun m e => m.insert e.1 (.data e.2)) .empty) := by
    refine List.foldlRecOn exports _ PropertyMap.All.empty fun m hm e he => ?_
    exact hm.insert (p := .data e.2) (hout.known e.2 (List.mem_map_of_mem he)) e.1
  exact ⟨hout.ready.change (.addObject _ ⟨by simp, hprops⟩) rfl, .cons trivial .nil⟩

theorem bindWhole_keepsReady (unit : SourceUnit) (scope : Nat) (d : ImportDecl) :
    KeepsReady (l.bindWhole unit scope · d) := by
  intro s hs
  dsimp only [bindWhole]
  split
  · exact hs
  · refine (required_ends d.specifier _).bind fun target _ => ?_
    refine (l.exportObject_supplies target hs).bind fun out hout => ?_
    exact hout.ready.change (.declareConstant _ _ _ (hout.known _ List.mem_cons_self)) rfl

theorem runBody_keepsReady (key : String) : KeepsReady (l.runBody · key) := by
  intro s hs
  dsimp only [runBody]
  split
  · rename_i unit _
    refine (required_ends key _).bind fun scope _ => ?_
    refine (KeepsReady.foldlM _ (l.bindWhole_keepsReady unit scope) hs).bind fun s₁ hs₁ => ?_
    have hrun := EvalM.runModule_behaves hs₁ scope unit.body
    have hready := hs₁.later hrun.evolves hrun.depth
    dsimp only [EvalM.runFrom]
    split
    · rename_i hout
      rw [hout] at hready
      exact hready
    · trivial
  · exact hs

theorem evaluateModules_supplies (hs : l.store.Ready False) :
    Ends (fun m => Supplies (m.exports.map (·.2)) m.store) (fun _ => True) (evaluateModules l) := by
  refine (KeepsReady.foldlM _ l.runBody_keepsReady hs).bind fun s₁ hs₁ => ?_
  refine (l.exportsOf_supplies l.root hs₁).bind fun (exports, s₂) hout => ?_
  dsimp only
  cases l.units.find? l.root with
  | none => trivial
  | some unit =>
    cases l.scopes.lookup l.root with
    | none =>
      cases unit with
      | _ => trivial
    | some scope =>
      cases unit with
      | host name => trivial
      | source unit => exact ⟨hout.ready.hold _, hout.known⟩

end Linked

theorem linkModules_ready (r : Resolved) :
    Ends (·.store.Ready False) (fun _ => True) (linkModules r) := by
  have horder : Ends (fun _ => True) (fun _ => True)
      ((r.units.graph.order r.root).mapError LoadFault.cycle) :=
    .mapError (fun _ _ => trivial) fun _ _ => trivial
  refine horder.bind fun order _ => ?_
  have hscopes := Linked.addScopes_ready r.units order [] .initial
  exact (Linked.KeepsReady.foldlM order (Linked.bindModule_keepsReady _) hscopes).bind
    fun _ hstore => hstore

theorem loadModule_supplies {t : FileTree} {hosts : HostResolver} {root : Path} {m : LoadedModule}
    (h : loadModule t hosts root = .ok m) : Linked.Supplies (m.exports.map (·.2)) m.store := by
  obtain ⟨r, _, h⟩ := bind_eq_ok h
  obtain ⟨l, hl, h⟩ := bind_eq_ok h
  exact (l.evaluateModules_supplies ((linkModules_ready r).ok hl)).ok h

end Typings
