import Typings.Proofs.Association
import Typings.Proofs.Load.Known
import Typings.Proofs.Recover.Members

namespace Typings

variable {α β : Type} {s : Store} {c : Nat}

namespace EvalM

variable {lax : Prop} {n : Nat} {Q : Nat → α → Prop}

theorem attempt_behaves {x : EvalM α} (h : Behaves lax n s Q (x s)) :
    Behaves lax n s (fun k => Ends (Q k) (·.isThrow = true)) (attempt x s) := by
  rcases hout : x s with ⟨stop | a, s'⟩
  · rw [hout] at h
    rw [attempt_error hout]
    refine ⟨h.evolves, h.depth, h.deepest, ?_⟩
    split
    · assumption
    · exact h.ends
  · rw [hout] at h
    rw [attempt_ok hout]
    exact ⟨h.evolves, h.depth, h.deepest, h.ends⟩

theorem stopText_behaves {stop : Stop} (hs : s.Ready lax) (h : stop.isThrow = true) :
    Behaves lax n s (fun _ _ => True) (stopText stop s) := by
  cases stop with
  | fault f => exact .pure trivial
  | thrown v => exact (Behaves.textOf v).bind hs fun _ _ _ _ _ => .pure trivial
  | _ => cases h

theorem staticsWhere_behaves (hs : s.Ready lax) (hc : s.Knows lax (.classOf c))
    (test : Value → Bool) (keys : List String) :
    Behaves lax (maxCallDepth + 1) s (fun _ _ => True) (staticsWhere c test keys s) := by
  induction keys generalizing s with
  | nil => exact .pure trivial
  | cons key keys ih =>
    have hread : Behaves lax (maxCallDepth + 1) s (Value.Known lax)
        (getProperty .full (.classOf c) key s) :=
      getProperty_behaves Machine.full_sound hs hc
    refine (attempt_behaves hread).bind hs fun result s₁ h₁ hs₁ _ => ?_
    cases result with
    | error stop => exact ih hs₁ (hc.later h₁)
    | ok v =>
      dsimp only
      split
      · refine (Behaves.holding hs₁ fun s₂ h₂ hs₂ => ih hs₂ (hc.later (h₁.trans h₂))).bind hs₁ ?_
        exact fun _ _ _ _ _ => .pure trivial
      · exact ih hs₁ (hc.later h₁)

theorem classStatics_behaves (hs : s.Ready lax) (hc : s.Knows lax (.classOf c)) :
    Behaves lax (maxCallDepth + 1) s (fun _ _ => True) (classStatics c s) :=
  .get ((staticsWhere_behaves hs hc _ _).bind hs fun _ _ _ _ _ => .pure trivial)

end EvalM

namespace RecoverM

variable {n : Nat} {P Q : Nat → α → Prop} {R : Nat → β → Prop}

/-- How a step of recovery that started in `s` may have ended. -/
structure Leaves (s : Store) (Q : Nat → α → Prop) (out : Except RecoveryFault α × Store) : Prop where
  ready : out.2.Ready False
  classes_le : s.classes.size ≤ out.2.classes.size
  result : ∀ a, out.1 = .ok a → Q out.2.classes.size a

namespace Leaves

theorem pure {a : α} (hs : s.Ready False) (h : Q s.classes.size a) :
    Leaves s Q ((Pure.pure a : RecoverM α) s) := by
  refine ⟨hs, Nat.le_refl _, fun a' ha' => ?_⟩
  cases ha'
  exact h

theorem bind {x : RecoverM α} {f : α → RecoverM β} (hx : Leaves s P (x s))
    (hf : ∀ a s', s'.Ready False → s.classes.size ≤ s'.classes.size → P s'.classes.size a →
      Leaves s' R (f a s')) : Leaves s R ((x >>= f) s) := by
  rcases hout : x s with ⟨e | a, s'⟩
  · rw [hout] at hx
    rw [bind_error hout]
    exact ⟨hx.ready, hx.classes_le, fun _ hok => nomatch hok⟩
  · rw [hout] at hx
    rw [bind_ok hout]
    have hrest := hf a s' hx.ready hx.classes_le (hx.result a rfl)
    exact ⟨hrest.ready, Nat.le_trans hx.classes_le hrest.classes_le, hrest.result⟩

theorem ofEval {step : EvalM α} (hs : s.Ready False) (h : Behaves False n s Q (step s)) :
    Leaves s Q (RecoverM.ofEval step s) := by
  refine ⟨hs.later h.evolves h.depth, h.evolves.classes_le, fun a hok => ?_⟩
  have hrun := RecoverM.ofEval_eq_ok (Prod.ext hok rfl)
  exact h.ends.ok (congrArg Prod.fst hrun)

theorem hold (hs : s.Ready False) (vs : List Value) :
    Leaves s (fun _ _ => True) ((modify (·.hold vs) : RecoverM Unit) s) :=
  ⟨hs.hold vs, Nat.le_refl _, fun _ _ => trivial⟩

end Leaves

end RecoverM

open RecoverM

theorem instantiate_leaves (hs : s.Ready False) (hc : s.Knows False (.classOf c)) (path : Path) :
    Leaves s (Value.Known False) (instantiate c path s) := by
  have hargs : s.KnowsAll False [.null] := .cons trivial .nil
  have hmade := EvalM.construct_behaves Machine.full_sound hs hc hargs
  refine (Leaves.ofEval hs (EvalM.attempt_behaves hmade)).bind fun result s₁ hs₁ _ hresult => ?_
  cases result with
  | ok v => exact .pure hs₁ hresult
  | error stop =>
    refine (Leaves.ofEval hs₁ (EvalM.stopText_behaves (n := 0) hs₁ hresult)).bind fun message s₂ hs₂ _ _ => ?_
    exact ⟨hs₂, Nat.le_refl _, fun _ hok => nomatch hok⟩

theorem namesOf_leaves {v : Value} (hs : s.Ready False) (hv : s.Knows False v) (key : String) :
    Leaves s (fun _ _ => True) (namesOf key v s) := by
  have hget : Behaves False (maxCallDepth + 1) s (Value.Known False)
      (EvalM.getProperty .full v key s) :=
    EvalM.getProperty_behaves Machine.full_sound hs hv
  refine (Leaves.ofEval hs (EvalM.attempt_behaves hget)).bind fun result s₁ hs₁ _ _ => ?_
  cases result with
  | ok found => exact .pure hs₁ trivial
  | error stop => exact .pure hs₁ trivial

theorem nameList_leaves {parser : Value} (hs : s.Ready False) (hparser : s.Knows False parser)
    (hc : s.Knows False (.classOf c)) (key : String) :
    Leaves s (fun _ _ => True) (nameList parser c key s) := by
  refine (namesOf_leaves hs hparser key).bind fun names s₁ hs₁ h₁ _ => ?_
  cases names with
  | some names => exact .pure hs₁ trivial
  | none => exact (namesOf_leaves hs₁ (hc.mono h₁) key).bind fun _ _ hs₂ _ _ => .pure hs₂ trivial

theorem ruleModel_leaves {parser : Value} (hs : s.Ready False) (hparser : s.Knows False parser)
    (hc : s.Knows False (.classOf c)) : Leaves s (fun _ _ => True) (ruleModel parser c s) := by
  refine (nameList_leaves hs hparser hc "ruleNames").bind fun rules s₁ hs₁ h₁ _ => ?_
  refine (nameList_leaves hs₁ (hparser.mono h₁) (hc.mono h₁) "symbolicNames").bind ?_
  exact fun _ _ hs₂ _ _ => .pure hs₂ trivial

/-- What is known of a parser before its contexts are looked at. -/
structure ParserView where
  store : Store
  rules : RuleModel
  /-- The classes that statics of the parser hold. -/
  classes : List Nat

namespace ParserView

variable (v : ParserView)

def partition : ContextPartition := .ofClasses v.store v.rules v.classes

def contexts : List Nat := v.partition.all.map (·.classRef)

def name (c : Nat) : String := (v.store.classCell c).name

end ParserView

/-- Look at a parser class, but not at its contexts. -/
def viewClass (c : Nat) (path : Path) : RecoverM ParserView := do
  let parser ← instantiate c path
  modify (·.hold [parser])
  let rules ← ruleModel parser c
  let classes ← RecoverM.ofEval (EvalM.classStatics c)
  return ⟨← get, rules, classes⟩

/-- Look at the parser of a module, but not at its contexts. -/
def viewParser (t : FileTree) (options : RecoveryOptions) (path : Path) :
    Except RecoveryFault ParserView := do
  let module ← loadForRecovery t options path
  let c ← module.defaultClass
  module.recover (viewClass c path)

theorem viewClass_leaves (hs : s.Ready False) (hc : s.Knows False (.classOf c)) (path : Path) :
    Leaves s (fun _ v => v.store.Ready False) (viewClass c path s) := by
  refine (instantiate_leaves hs hc path).bind fun parser s₁ hs₁ h₁ hparser => ?_
  refine (Leaves.hold hs₁ [parser]).bind fun _ s₂ hs₂ h₂ _ => ?_
  have hc₂ := hc.mono (Nat.le_trans h₁ h₂)
  refine (ruleModel_leaves hs₂ (hparser.mono h₂) hc₂).bind fun rules s₃ hs₃ h₃ _ => ?_
  refine (Leaves.ofEval hs₃ (EvalM.classStatics_behaves hs₃ (hc₂.mono h₃))).bind ?_
  exact fun _ s₄ hs₄ _ _ => .pure hs₄ hs₄

theorem loadForRecovery_eq_ok {t : FileTree} {options : RecoveryOptions} {path : Path}
    {m : LoadedModule} (h : loadForRecovery t options path = .ok m) :
    loadModule t options.hosts path = .ok m := by
  unfold loadForRecovery at h
  cases hload : loadModule t options.hosts path with
  | ok m' =>
    rw [hload] at h
    cases h
    rfl
  | error e =>
    rw [hload] at h
    cases h

theorem LoadedModule.defaultClass_eq_ok {m : LoadedModule} (h : m.defaultClass = .ok c) :
    .classOf c ∈ m.exports.map (·.2) := by
  unfold defaultClass at h
  split at h
  · rename_i c' hexport
    cases h
    exact List.mem_map_of_mem (Association.mem_of_lookup hexport)
  · cases h
  · cases h

theorem viewParser_ready {t : FileTree} {options : RecoveryOptions} {path : Path} {v : ParserView}
    (h : viewParser t options path = .ok v) : v.store.Ready False := by
  obtain ⟨module, hmodule, h⟩ := bind_eq_ok h
  obtain ⟨c, hc, h⟩ := bind_eq_ok h
  have hsupplies := loadModule_supplies (loadForRecovery_eq_ok hmodule)
  have hknown := hsupplies.known _ (LoadedModule.defaultClass_eq_ok hc)
  exact (viewClass_leaves hsupplies.ready hknown path).result v h

/-- The contexts of a parser are those that the view of it shows. -/
theorem findParser_view {t : FileTree} {options : RecoveryOptions} {path : Path}
    {found : FoundParser} (h : findParser t options path = .ok found) :
    ∃ v, viewParser t options path = .ok v ∧
      found.contexts.map (·.toClassHeader) = v.partition.all.map (·.header) := by
  obtain ⟨module, hmodule, h⟩ := bind_eq_ok h
  obtain ⟨c, hc, h⟩ := bind_eq_ok h
  obtain ⟨parser, s₁, hparser, h⟩ := bind_run_ok (Prod.ext h rfl)
  obtain ⟨_, s₂, hhold, h⟩ := bind_run_ok h
  obtain ⟨rules, s₃, hrules, h⟩ := bind_run_ok h
  obtain ⟨classes, s₄, hclasses, h⟩ := bind_run_ok h
  obtain ⟨_, _, hget, h⟩ := bind_run_ok h
  cases hget
  obtain ⟨_, s₅, _, h⟩ := bind_run_ok h
  obtain ⟨contexts, s₆, hcontexts, h⟩ := bind_run_ok h
  refine ⟨⟨s₄, rules, classes⟩, ?_, ?_⟩
  · have hview : viewClass c path module.store = (.ok ⟨s₄, rules, classes⟩, s₄) := by
      rw [viewClass, bind_ok hparser, bind_ok hhold, bind_ok hrules, bind_ok hclasses]
      rfl
    have hrecover : module.recover (viewClass c path) = .ok ⟨s₄, rules, classes⟩ :=
      congrArg Prod.fst hview
    rw [viewParser, hmodule]
    change (module.defaultClass >>= _) = _
    rw [hc]
    exact hrecover
  · have hfound : found.contexts = contexts := by
      obtain ⟨_, _, _, h⟩ := bind_run_ok h
      obtain ⟨_, _, _, h⟩ := bind_run_ok h
      obtain ⟨_, _, _, h⟩ := bind_run_ok h
      cases h
      rfl
    have hall := (Gives.mapM_forall₂ fun context _ => findContext_found _ context).ok _ _ _ hcontexts
    rw [hfound]
    exact (ContextClass.Found.all hall).1

end Typings
