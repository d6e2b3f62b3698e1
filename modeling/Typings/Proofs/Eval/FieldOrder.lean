import Mathlib.Data.List.Nodup
import Typings.Proofs.Eval.Construction

namespace Typings

inductive CodePart (m : Machine) : ∀ α : Type, EvalM α → Prop
  | call (f : Nat) (this : Value) (args : List Value) : CodePart m _ (m.call f this args)
  | new (c : Nat) (args : List Value) : CodePart m _ (EvalM.construct m (.classOf c) args)
  | superCall (scope : Nat) (args : List Value) : CodePart m _ (m.superCall scope args)
  | edit {α : Type} {add : Store → α × Store} (h : ∀ s : Store, s.Edit (add s).2) :
    CodePart m α (EvalM.make add)

def Machine.Runs (m : Machine) {α : Type} (x : EvalM α) : Prop := Composed (CodePart m) x

theorem CodePart.parts (m : Machine) : CodeParts m (CodePart m) where
  call := .call
  new := .new
  write h := .edit fun s => .write (h s)
  superCall := .superCall
  edit := .edit

theorem Machine.Runs.advances {α : Type} {x : EvalM α} {n : Nat} (hx : (levels n).Runs x) (o : Nat) :
    Advances 0 o x := by
  have hparts := (Machine.levels_constructs n).parts o
  refine Composed.has hx Advances.rules fun h => ?_
  cases h with
  | call f this args => exact hparts.call f this args
  | new c args => exact hparts.new c args
  | superCall scope args => exact hparts.superCall scope args
  | edit h => exact hparts.edit h

theorem Request.runs (r : Request) : Machine.full.Runs r.run := by
  have hparts := CodePart.parts .full
  cases r with
  | runModule scope body =>
    have hrun : Composed _ (EvalM.runModule scope body) :=
      EvalM.runModule_composed hparts.rules scope fun _ _ _ _ => trivial
    exact hrun.bind fun _ => .pure _
  | evaluate scope e => exact EvalM.eval_composed hparts.rules scope trivial
  | call callee receiver args =>
    exact EvalM.callValue_composed hparts.toValueParts callee receiver args
  | construct callee args => exact EvalM.construct_composed hparts.toValueParts callee args
  | getProperty base key => exact EvalM.getProperty_composed hparts.toValueParts base key
  | setProperty base key v =>
    exact (EvalM.setProperty_composed hparts.toValueParts base key v).bind fun _ => .pure _

namespace Store

variable {s s' t : Store} {o c f n : Nat}

/-- A store that came about by code that ran, however it ended, and by notes on what is under way. -/
inductive Later (s : Store) : Store → Prop
  | refl : Later s s
  | run {t : Store} {n : Nat} {α : Type} {x : EvalM α} (h : Later s t) (hx : (Machine.levels n).Runs x) :
    Later s (x t).2
  | noted {t : Store} (h : Later s t) (held : List (List Value)) (running : List Nat)
    (depth deepest : Nat) : Later s { t with held, running, depth, deepest }

theorem Later.kept (h : s.Later t) (hs : s.ActivationsKnown) : s.Kept o t := by
  induction h with
  | refl => exact .refl hs
  | run _ hx ih => exact ih.trans (hx.advances o ih.known (Nat.zero_le _)).kept
  | noted _ held running depth deepest ih =>
    exact ih.trans (Aside.kept { Aside.refl o _ with } ih.known)

theorem ActivationsKnown.of_frames (hs : s.ActivationsKnown) (hframes : s'.frames = s.frames)
    (hobjects : s.objects.size ≤ s'.objects.size) (hclasses : s'.classes = s.classes) :
    s'.ActivationsKnown := by
  have hframe : ∀ f, s'.frame f = s.frame f := fun f => by rw [frame, frame, hframes]
  intro f v hv
  obtain ⟨o, c, rfl, ha, ho, hc⟩ := hs f v (hframe f ▸ hv)
  exact ⟨o, c, rfl, ⟨hframe f ▸ ha.pending, hframe f ▸ ha.constructorOf⟩,
    Nat.lt_of_lt_of_le ho hobjects, hclasses ▸ hc⟩

theorem ActivationsKnown.initial : Store.initial.ActivationsKnown := by
  have hsize : Store.initial.frames.size = 0 := by decide +kernel
  intro f v hv
  rw [frame_of_size_le (by omega)] at hv
  cases hv

theorem Reachable.activationsKnown (h : s.Reachable) : s.ActivationsKnown := by
  induction h with
  | initial => exact .initial
  | addObject _ cell _ ih => exact ih.of_frames rfl (by simp [Store.addObject]) rfl
  | request _ r _ ih => exact (r.runs.advances 0 ih (Nat.zero_le _)).kept.known
  | hold _ _ ih | clearScope _ _ ih | addModule _ _ ih | addHost _ _ ih | release _ ih
  | declare _ _ _ _ _ ih | declareConstant _ _ _ _ _ ih | declareImport _ _ _ _ _ _ ih =>
    exact ih.of_frames rfl (Nat.le_refl _) rfl

/-- `super(...)` is refused in the frame with a reference error, and changes nothing. -/
def RefusesSuper (s : Store) (f : Nat) : Prop :=
  ∀ m scope args, s.frameOf? scope = some f →
    ∃ fault, fault.kind = .reference ∧ EvalM.superCall m scope args s = (.error (.fault fault), s)

/-- Whatever runs from here on, `super(...)` is refused in the frame and not entered again. -/
def SuperDone (s : Store) (f : Nat) : Prop :=
  ∀ t, s.Later t → t.RefusesSuper f ∧ (t.frame f).entered = (s.frame f).entered

theorem Activation.refusesSuper (ha : s.Activation o c f) (hb : s.Bound f) : s.RefusesSuper f := by
  intro m scope args hscope
  refine ⟨.repeatedSuper, rfl, ?_⟩
  unfold EvalM.superCall
  rw [get_bind, hscope]
  dsimp only
  rw [ha.constructorOf]
  dsimp only
  rw [if_pos (show (s.frame f).receiver.isSome from hb)]
  rfl

theorem Activation.superDone (ha : s.Activation o c f) (hb : s.Bound f) (hs : s.ActivationsKnown) :
    s.SuperDone f := by
  intro t ht
  have hkept : s.Kept o t := ht.kept hs
  exact ⟨(hkept.activation ha).refusesSuper (hkept.bound ha hb), hkept.entered_eq ha hb⟩

theorem le_of_mem_lineage {d : Nat} (h : d ∈ s.lineage c) : d ≤ c := by
  induction c using Nat.strongRecOn with
  | ind c ih =>
    rw [lineage] at h
    split at h
    · split at h
      · rename_i p _ hp
        rcases List.mem_cons.1 h with rfl | h
        · exact Nat.le_refl _
        · exact Nat.le_of_lt (Nat.lt_of_le_of_lt (ih p hp h) hp)
      · exact Nat.le_of_eq (List.mem_singleton.1 h)
    · exact Nat.le_of_eq (List.mem_singleton.1 h)

theorem nodup_lineage (s : Store) (c : Nat) : (s.lineage c).Nodup := by
  induction c using Nat.strongRecOn with
  | ind c ih =>
    rw [lineage]
    split
    · split
      · rename_i p _ hp
        refine List.nodup_cons.2 ⟨fun hmem => ?_, ih p hp⟩
        exact Nat.not_le_of_lt hp (le_of_mem_lineage hmem)
      · exact List.nodup_singleton c
    · exact List.nodup_singleton c

/-- A constructor that returned has gone through the line of the new object. -/
theorem Adds.ofNew (hfresh : ∀ f c', ¬ s.Activation o c' f) (hempty : s.initialized o = [])
    (hk : s.Kept o s') (h : s.Adds (s.lineage c).reverse [] o s') :
    (s.lineage c).reverse.Sublist (s'.initialized o) ∧
      (s'.initialized o = (s.lineage c).reverse ↔ s'.Single o) ∧
      ∀ f c', s'.Activation o c' f → s'.Bound f := by
  have hnew : ∀ f c', s'.Activation o c' f → s.frames.size ≤ f := fun f c' ha =>
    Nat.le_of_not_lt fun hf => hfresh f c' (hk.activation_of_lt ha hf)
  refine ⟨?_, ⟨fun heq f c' ha => ?_, fun hsingle => ?_⟩, fun f c' ha =>
    h.bound f c' ha (.inl (hnew f c' ha))⟩
  · obtain ⟨added, hadded, hsublist⟩ := h.chain
    rwa [hadded, hempty, List.nil_append]
  · have hcounted := h.counted f c' ha
    have honce := List.nodup_iff_count_le_one.1 (s.nodup_lineage c) c'
    rw [frame_of_size_le (hnew f c' ha), heq, List.count_reverse] at hcounted
    have hzero : (default : Frame).entered = 0 := rfl
    omega
  · have hexact := h.exact_of_quiet (fun f c' ha => absurd ha (hfresh f c')) hsingle
    rwa [hempty, List.nil_append] at hexact

end Store

namespace EvalM

variable {s s' : Store} {c n : Nat} {args : List Value} {v : Value}

theorem construct_of_classOf (hs : s.Ready False) (hknown : s.ActivationsKnown)
    (hc : s.Knows False (.classOf c)) (hargs : s.KnowsAll False args)
    (hrun : construct (.levels n) (.classOf c) args s = (.ok v, s')) :
    ∃ o, v = .object o ∧ (s'.object o).class? = some c ∧
      (s'.lineage c).reverse.Sublist (s'.initialized o) ∧
      (s'.initialized o = (s'.lineage c).reverse ↔ s'.Single o) ∧
      ∀ f c', s'.Activation o c' f → s'.Bound f := by
  have hlines : s'.Lines := by
    have hbehaves := construct_behaves (Machine.levels_sound n) hs hc hargs
    rw [hrun] at hbehaves
    exact (hbehaves.evolves.sound hs.sound).toLines
  -- The object is made before its constructor runs.
  let s₁ := (s.addObject { class? := some c }).2
  let o := s.objects.size
  have hobject : s₁.object o = { class? := some c } := by
    refine (Store.getD_push ..).trans ?_
    rw [if_pos rfl]
  have ho : o < s₁.objects.size := by simp [o, s₁, Store.addObject]
  have hknown₁ : s₁.ActivationsKnown := hknown.of_frames rfl (Nat.le_of_lt ho) rfl
  have hfresh : ∀ f c', ¬ s₁.Activation o c' f := fun f c' ha =>
    Nat.lt_irrefl _ (hknown.object_lt ⟨ha.pending, ha.constructorOf⟩)
  have hyields := (Machine.levels_constructs n).constructed hknown₁ ho c args
  have hrun₁ : (do
      holding [.object o] ((Machine.levels n).build c (.object o) args)
      return .object o : EvalM Value) s₁ = (.ok v, s') := hrun
  rw [hrun₁] at hyields
  have hkept := hyields.kept
  have hlineage : s'.lineage c = s₁.lineage c := hkept.lineage_eq (hc.resolve_right id)
  refine ⟨o, ?_, ?_, ?_⟩
  · obtain ⟨_, _, _, hreturn⟩ := bind_run_ok hrun₁
    cases hreturn
    rfl
  · rw [hkept.class? ho, hobject]
  · rw [hlineage]
    refine Store.Adds.ofNew hfresh ?_ hkept (hyields.returned v rfl hlines ho)
    rw [Store.initialized, hobject]

theorem superCall_bound {m : Machine} {scope : Nat} (hm : m.Constructs) (hs : s.ActivationsKnown)
    (hrun : superCall m scope args s = (.ok (), s')) :
    ∃ f o c, s.frameOf? scope = some f ∧ s'.ActivationsKnown ∧ s'.Activation o c f ∧ s'.Bound f := by
  rcases superCall_cases m scope args s with ⟨e, he⟩ | ⟨f, c, this, hscope, _, hpending, hunbound, heq⟩
  · rw [he] at hrun
    cases hrun
  rw [heq] at hrun
  obtain ⟨o, c', rfl, ha, ho, _⟩ := hs f this hpending
  obtain ⟨_, s₁, henter, hrun⟩ := bind_run_ok hrun
  obtain ⟨_, s₂, hsuper, hbind⟩ := bind_run_ok hrun
  cases henter
  cases hbind
  have hk : s.Kept o (s.enter f) := .enter hs hunbound
  have hk' := (constructSuper_adds hm hk.known (Nat.lt_of_lt_of_le ho hk.objects_le) c args).kept
  rw [hsuper] at hk'
  have ha' := hk'.activation (hk.activation ha)
  have hk'' : s₂.Kept o (s₂.bindFrame f (.object o)) := .bindFrame hk'.known f _
  exact ⟨f, o, c', hscope, hk''.known, hk''.activation ha', Store.bound_bindFrame ha'.lt⟩

end EvalM

/--
`new` that returns gives an object of the class, and the fields of each class in its line were
evaluated for it, base class first. They were evaluated once, and no others, just when no activation
of the object entered `super(...)` twice. In an activation where `super(...)` has returned it is
refused from then on, whatever runs; so it is entered twice only while it runs.
-/
theorem construction_goes_through_line {s : Store} (hs : s.Ready False) (hknown : s.ActivationsKnown)
    (n : Nat) :
    (∀ c args v s', s.Knows False (.classOf c) → s.KnowsAll False args →
      EvalM.construct (.levels n) (.classOf c) args s = (.ok v, s') →
      ∃ o, v = .object o ∧ (s'.object o).class? = some c ∧
        (s'.lineage c).reverse.Sublist (s'.initialized o) ∧
        (s'.initialized o = (s'.lineage c).reverse ↔ s'.Single o) ∧
        ∀ f c', s'.Activation o c' f → s'.SuperDone f) ∧
    ∀ scope args s', (Machine.levels n).superCall scope args s = (.ok (), s') →
      ∃ f, s.frameOf? scope = some f ∧ s'.SuperDone f := by
  refine ⟨fun c args v s' hc hargs hrun => ?_, fun scope args s' hrun => ?_⟩
  · have hkept := ((Machine.levels_constructs n).new 0 c args hknown (Nat.zero_le _)).kept
    rw [hrun] at hkept
    obtain ⟨o, hv, hclass, hline, honce, hbound⟩ :=
      EvalM.construct_of_classOf hs hknown hc hargs hrun
    exact ⟨o, hv, hclass, hline, honce, fun f c' ha => ha.superDone (hbound f c' ha) hkept.known⟩
  · cases n with
    | zero => cases hrun
    | succ n =>
      have hcalls := Machine.calls_constructs (Machine.levels_constructs n)
      obtain ⟨f, o, c, hscope, hknown', ha, hb⟩ := EvalM.superCall_bound hcalls hknown hrun
      exact ⟨f, hscope, ha.superDone hb hknown'⟩

/-- A class that calls what it is given, one that gives it a `super(...)`, and one that does not. -/
def Store.withArrow : Store := .afterText
  "class A { constructor(f) { if (f) f(); } }
   class B extends A { constructor() { super(() => super()); } }
   class C extends A { constructor() { super(); } }"

theorem Store.withArrow_reachable : withArrow.Reachable := afterText_reachable _

section

set_option maxRecDepth 2000

theorem Store.withArrow_constructs :
    (2 < withArrow.classes.size ∧
      (EvalM.construct (.levels 3) (.classOf 2) [] withArrow).1.isOk) ∧
    let out := EvalM.construct .full (.classOf 1) [] withArrow
    out.1.isOk ∧ out.2.lineage 1 = [1, 0] ∧ out.2.initialized 0 = [0, 0, 1, 1] ∧
      (out.2.frame 3).constructorOf = some 1 ∧ (out.2.frame 3).entered = 2 := by
  have hstore : withArrow = afterBody _ (Module.ofChars _ _) := afterText_eq String.toList_ofList
  rw [hstore]
  decide +kernel

end

theorem construction_goes_through_line_withArrow :
    Store.withArrow.Ready False ∧ Store.withArrow.ActivationsKnown ∧
      Store.withArrow.Knows False (.classOf 2) ∧ Store.withArrow.KnowsAll False [] ∧
      ∃ v s', EvalM.construct (.levels 3) (.classOf 2) [] Store.withArrow = (.ok v, s') ∧
        ∃ o, v = .object o ∧ (s'.object o).class? = some 2 ∧
          (s'.lineage 2).reverse.Sublist (s'.initialized o) ∧
          (s'.initialized o = (s'.lineage 2).reverse ↔ s'.Single o) := by
  have hknown := Store.withArrow_reachable.activationsKnown
  have hinvariant := Store.withArrow_reachable.invariant
  have hready : Store.withArrow.Ready False := ⟨hinvariant.sound, hinvariant.depth_le⟩
  have hargs : Store.withArrow.KnowsAll False [] := fun _ h => nomatch h
  obtain ⟨hclass, hok⟩ := Store.withArrow_constructs.1
  refine ⟨hready, hknown, .inl hclass, hargs, ?_⟩
  rcases hout : EvalM.construct (.levels 3) (.classOf 2) [] Store.withArrow with ⟨stop | v, s'⟩
  · rw [hout] at hok
    cases hok
  · obtain ⟨o, hv, hmade, hline, honce, _⟩ :=
      (construction_goes_through_line hready hknown 3).1 2 [] v s' (.inl hclass) hargs hout
    exact ⟨v, s', rfl, o, hv, hmade, hline, honce⟩

/-- A `super(...)` that is reached while one runs is not refused, and evaluates all fields again. -/
theorem super_reentered :
    Store.withArrow.Reachable ∧
      let out := EvalM.construct .full (.classOf 1) [] Store.withArrow
      out.1.isOk ∧ out.2.lineage 1 = [1, 0] ∧ out.2.initialized 0 = [0, 0, 1, 1] ∧
        (out.2.frame 3).constructorOf = some 1 ∧ (out.2.frame 3).entered = 2 := by
  exact ⟨Store.withArrow_reachable, Store.withArrow_constructs.2⟩

end Typings
