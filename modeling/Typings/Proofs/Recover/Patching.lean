import Typings.Proofs.Eval.Construction
import Typings.Proofs.Eval.Inheritance
import Typings.Recover.Grammar

namespace Typings

variable {s s' : Store} {r c : Nat} {parser name : String} {v : Value} {item : ModuleItem}
  {old added : List ModuleItem} {names : List String}

namespace Store

theorem search?_putOwn (s : Store) (c : Nat) (key : String) (v : Value) :
    (s.putOwn (.classOf c) key v).search? = s.search? := by
  funext r name
  exact search?_congr s (s.putOwn (.classOf c) key v) rfl rfl r name

/-- A key that was set to a value has no setter, and other keys have those they had. -/
theorem setter?_putOwn (hc : s.Has (.classOf c)) (h : s.setter? (.classOf c) name = none)
    (key : String) (v : Value) : (s.putOwn (.classOf c) key v).setter? (.classOf c) name = none := by
  by_cases hkey : name = key
  · have hown := ownProperty?_putOwn hc rfl key name v
    rw [if_pos hkey] at hown
    rw [setter?, nearestProperty?, staticProperty?_of_own hown]
    rfl
  · rw [setter?, nearestProperty?, staticProperty?_congr s]
    · exact h
    · intro a
      rw [putOwn, classCell_setClass]
      split
      · rfl
      · rfl
    · intro a
      rw [putOwn, classCell_setClass]
      split
      · rename_i ha
        obtain ⟨rfl, _⟩ := ha
        exact (hc.2.get?_insert key name _).trans (if_neg hkey)
      · rfl

/-- In the scope `r` all the names have values, which the class that `parser` means can take. -/
structure Takes (s : Store) (r : Nat) (parser : String) (c : Nat) (names : List String) : Prop where
  has : s.Has (.classOf c)
  parser : s.search? r parser = some (some (.classOf c))
  bound : ∀ name ∈ names, ∃ v, s.search? r name = some (some v)
  free : ∀ name ∈ names, s.setter? (.classOf c) name = none

theorem Takes.putOwn (h : s.Takes r parser c (name :: names)) (key : String) (v : Value) :
    (s.putOwn (.classOf c) key v).Takes r parser c names where
  has := h.has.putOwn ..
  parser := by rw [search?_putOwn, h.parser]
  bound name hname := by
    rw [search?_putOwn]
    exact h.bound name (List.mem_cons_of_mem _ hname)
  free name hname := setter?_putOwn h.has (h.free name (List.mem_cons_of_mem _ hname)) key v

end Store

/-- The line `parser.name = name;`. -/
inductive Registers (parser name : String) : ModuleItem → Prop
  | line (s₁ s₂ s₃ s₄ s₅ : Span) : Registers parser name (.statement (.expression
      (.assign .assign (.member (.identifier parser s₁) name false s₂) (.identifier name s₃) s₄) s₅))

namespace EvalM

theorem lookup_eq {found : Option Value} (h : s.search? r name = some found) :
    lookup r name s = (.ok found, s) := by
  refine (get_bind s).trans ?_
  simp only [h]
  rfl

theorem runItem_registers (h : Registers parser name item) (m : Machine) (r : Nat) :
    runItem m r item = (do
      let base ← nameValue r parser
      let v ← holding [base] (nameValue r name)
      holding [v] (setProperty m base name v)) := by
  obtain ⟨s₁, s₂, s₃, s₄, s₅⟩ := h
  simp [runItem, exec, eval, valueOf, link, placeOf, assignLink, writeLink, writePlace, Place.values,
    plain, Link.value, discard, Functor.discard, map_const]

theorem runItem_takes (h : Registers parser name item) (ht : s.Takes r parser c (name :: names))
    (hv : s.search? r name = some (some v)) (m : Machine) :
    runItem m r item s = (.ok (), s.putOwn (.classOf c) name v) := by
  have hread : holding [.classOf c] (nameValue r name) s = (.ok v, s) := by
    have hsame := Store.search?_congr s { s with held := [.classOf c] :: s.held } rfl rfl r name
    rw [holding, nameValue, bind_ok (lookup_eq (hsame.trans hv))]
    rfl
  have hwrite : holding [v] (setProperty m (.classOf c) name v) s =
      (.ok (), s.putOwn (.classOf c) name v) := by
    have hfree : ({ s with held := [v] :: s.held } : Store).setter? (.classOf c) name = none := by
      rw [Store.setter?, Store.nearestProperty?, Store.staticProperty?_congr s]
      · exact ht.free name List.mem_cons_self
      · exact fun _ => rfl
      · exact fun _ => rfl
    rw [holding, setProperty_of_not_readOnly rfl hfree]
    · rfl
    · rintro ⟨⟨_, hobject⟩, _⟩
      cases hobject
  rw [runItem_registers h, nameValue, bind_assoc, bind_ok (lookup_eq ht.parser)]
  exact (bind_ok hread).trans hwrite

/-- Each line takes the value of its name over; the class has no other property than before. -/
theorem forM_runItem_takes (h : List.Forall₂ (Registers parser) names added)
    (ht : s.Takes r parser c names) (m : Machine) :
    ∃ s', added.forM (runItem m r) s = (.ok (), s') ∧
      ∀ key, s'.ownProperty? (.classOf c) key = if key ∈ names then (s.lookup? r key).map .data
        else s.ownProperty? (.classOf c) key := by
  induction h generalizing s with
  | nil => exact ⟨s, rfl, fun key => by simp⟩
  | @cons name item names added hline _ ih =>
    obtain ⟨v, hv⟩ := ht.bound name List.mem_cons_self
    obtain ⟨s', hrun, hown⟩ := ih (ht.putOwn name v)
    refine ⟨s', (bind_ok (runItem_takes hline ht hv m)).trans hrun, fun key => ?_⟩
    rw [hown, Store.ownProperty?_putOwn ht.has rfl, Store.lookup?, Store.search?_putOwn]
    by_cases hkey : key = name
    · subst hkey
      simp [Store.lookup?, hv]
    · simp [Store.lookup?, hkey]

/-- Lines behind a module are run when it has run. -/
theorem runModule_append (h : List.Forall₂ (Registers parser) names added) {span span' : Span}
    (hold : runModule r ⟨old, span⟩ s = (.ok (), s')) :
    runModule r ⟨old ++ added, span'⟩ s = added.forM (runItem .full r) s' := by
  have hadded : hoist r true (Module.statements ⟨added, span'⟩) = pure () := by
    induction h with
    | nil => rfl
    | cons hline _ ih =>
      obtain ⟨s₁, s₂, s₃, s₄, s₅⟩ := hline
      exact (pure_bind ..).trans ih
  have hhoist : hoist r true (Module.statements ⟨old ++ added, span'⟩) = (do
      hoist r true (Module.statements ⟨old, span⟩)
      hoist r true (Module.statements ⟨added, span'⟩)) :=
    (congrArg _ List.filterMap_append).trans List.forM_append
  have hitems : (old ++ added).forM (runItem .full r) = (do
      old.forM (runItem .full r)
      added.forM (runItem .full r)) := List.forM_append
  obtain ⟨_, s₁, hfirst, hrun⟩ := bind_run_ok hold
  rw [runModule, hhoist, hadded, hitems, bind_assoc, bind_ok hfirst, pure_bind, bind_ok hrun]

/--
A module that runs to its end, with the lines behind it. It fails if they call the parser by a name
without meaning. If a class of that name takes them, each becomes a property of it.
-/
theorem runModule_registers (h : List.Forall₂ (Registers parser) names added) {span span' : Span}
    (hold : runModule r ⟨old, span⟩ s = (.ok (), s')) :
    (names ≠ [] → s'.search? r parser = some none →
      runModule r ⟨old ++ added, span'⟩ s = (.error (.fault (.undefinedName parser)), s')) ∧
    (s'.Takes r parser c names → ∃ s'', runModule r ⟨old ++ added, span'⟩ s = (.ok (), s'') ∧
      ∀ key, s''.ownProperty? (.classOf c) key = if key ∈ names then (s'.lookup? r key).map .data
        else s'.ownProperty? (.classOf c) key) := by
  rw [runModule_append h hold]
  refine ⟨fun hnames hp => ?_, fun ht => forM_runItem_takes h ht .full⟩
  cases h with
  | nil => exact absurd rfl hnames
  | cons hline _ =>
    refine bind_error ?_
    rw [runItem_registers hline, nameValue, bind_assoc, bind_ok (lookup_eq hp)]
    rfl

end EvalM

-- The class has its own name here, so the file loads again and nothing is missing.
example : ((do
    let text := "class AContext \x7b\x7d\nexport default class P \x7b\x7d\n"
    let (_, t) ← patchContextExports { entries := [(["P.js"], .file text.toUTF8)] } {} ⟨"/P.js"⟩
    return (← patchContextExports t {} ⟨"/P.js"⟩).1) : Except RecoveryFault _).toOption = some [] := by
  decide +kernel

/-- A parser module whose class is bound to another name than its own. -/
def FileTree.withOtherName : FileTree :=
  { entries := [(["P.js"], .file
      "class AContext \x7b\x7d\nconst Q = class P \x7b\x7d;\nexport default Q;\n".toUTF8)] }

/-- The line that is added speaks of the class by its own name, which is not bound. -/
theorem patch_fails_withOtherName : ((do
    let (lines, t') ← patchContextExports .withOtherName {} ⟨"/P.js"⟩
    match loadForRecovery t' {} ⟨"/P.js"⟩ with
    | .ok _ => return none
    | .error fault => return some (lines, fault)) : Except RecoveryFault _).toOption =
    some (some (["P.AContext = AContext;"],
      RecoveryFault.load (.evaluation ⟨"/P.js"⟩ "ReferenceError: P is not defined"))) := by
  decide +kernel

end Typings
