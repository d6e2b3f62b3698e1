import Typings.Proofs.Eval.Activation
import Typings.Proofs.Eval.Session

namespace Typings

namespace Store

variable {s s' s'' : Store} {o r c f : Nat}

theorem lineage_of_superclass (h : ∀ c, (s'.classCell c).superclass = (s.classCell c).superclass)
    (c : Nat) : s'.lineage c = s.lineage c := by
  induction c using Nat.strongRecOn with
  | ind c ih =>
    rw [lineage, lineage, h]
    split
    · split
      · rename_i p _ hp
        rw [ih p hp]
      · rfl
    · rfl

theorem lineage_congr (h : s'.classes = s.classes) : ∀ c, s'.lineage c = s.lineage c :=
  lineage_of_superclass fun c => by rw [classCell, classCell, h]

theorem staticProperty?_congr (s : Store) {s' : Store} {key : String}
    (hsuper : ∀ a, (s'.classCell a).superclass = (s.classCell a).superclass)
    (hstatics : ∀ a, (s'.classCell a).statics.get? key = (s.classCell a).statics.get? key) (c : Nat) :
    s'.staticProperty? c key = s.staticProperty? c key := by
  simp only [staticProperty?, lineage_of_superclass hsuper, hstatics]

theorem frame_addFrame (s : Store) (frame : Frame) (g : Nat) :
    (s.addFrame frame).2.frame g = if g = s.frames.size then frame else s.frame g :=
  getD_push ..

theorem frame_setFrame (s : Store) (f : Nat) (h : Frame → Frame) (g : Nat) :
    (s.setFrame f h).frame g = if f = g ∧ g < s.frames.size then h (s.frame g) else s.frame g :=
  getD_modify ..

theorem Kept.setFrame (hs : s.ActivationsKnown) {h : Frame → Frame}
    (hlater : (s.frame f).Later (h (s.frame f))) : s.Kept o (s.setFrame f h) := by
  have hframe : ∀ g, (s.frame g).Later ((s.setFrame f h).frame g) := by
    intro g
    rw [frame_setFrame]
    split
    · rename_i hg
      rw [← hg.1]
      exact hlater
    · exact .refl _
  refine { Kept.refl (o := o) hs with
    frames_le := ?_, frame := fun g _ => hframe g, known := fun g v hv => ?_ }
  · simp [Store.setFrame]
  · rw [(hframe g).pending] at hv
    obtain ⟨o', c', rfl, ha, ho, hc⟩ := hs g v hv
    exact ⟨o', c', rfl, ⟨(hframe g).pending.trans ha.pending,
      (hframe g).constructorOf.trans ha.constructorOf⟩, ho, hc⟩

theorem Passing.setFrame (hk : s.Kept o (s.setFrame f h)) (hne : o ≠ r) (ha : s.Activation r c f) :
    s.Passing o (s.setFrame f h) := by
  refine .of_same hk (fun g c' hg => ?_) rfl
  have hg₀ := hk.activation_of_lt hg (by simpa [Store.setFrame] using hg.lt)
  refine ⟨hg₀, ?_⟩
  rw [frame_setFrame, if_neg]
  rintro ⟨rfl, _⟩
  have heq := hg₀.pending.symm.trans ha.pending
  cases heq
  exact hne rfl

theorem Kept.addFrame (hs : s.ActivationsKnown) {frame : Frame} (hr : r < s.objects.size)
    (hc : c < s.classes.size) (hpending : frame.pending = some (.object r))
    (hclass : frame.constructorOf = some c) : s.Kept o (s.addFrame frame).2 := by
  refine { Kept.refl (o := o) hs with
    frames_le := ?_, frame := fun g hg => ?_, known := fun g v hv => ?_ }
  · simp [Store.addFrame]
  · rw [frame_addFrame, if_neg (Nat.ne_of_lt hg)]
    exact .refl _
  · by_cases hg : g = s.frames.size
    · have hframe : (s.addFrame frame).2.frame g = frame := by rw [frame_addFrame, if_pos hg]
      rw [hframe, hpending] at hv
      cases hv
      exact ⟨r, c, rfl, ⟨by rw [hframe, hpending], by rw [hframe, hclass]⟩, hr, hc⟩
    · have hframe : (s.addFrame frame).2.frame g = s.frame g := by rw [frame_addFrame, if_neg hg]
      obtain ⟨o', c', rfl, ha, ho, hc⟩ := hs g v (hframe ▸ hv)
      exact ⟨o', c', rfl, ⟨hframe ▸ ha.pending, hframe ▸ ha.constructorOf⟩, ho, hc⟩

theorem Passing.addFrame {frame : Frame} (hk : s.Kept o (s.addFrame frame).2) (hne : o ≠ r)
    (hpending : frame.pending = some (.object r)) : s.Passing o (s.addFrame frame).2 := by
  refine .of_same hk (fun g c' hg => ?_) rfl
  have hframe : (s.addFrame frame).2.frame g = s.frame g := by
    rw [frame_addFrame, if_neg]
    rintro rfl
    have heq := hg.pending
    rw [frame_addFrame, if_pos rfl, hpending] at heq
    cases heq
    exact hne rfl
  exact ⟨⟨hframe ▸ hg.pending, hframe ▸ hg.constructorOf⟩, hframe⟩

theorem entered_addFrame {frame : Frame} (hentered : frame.entered = 0) (g : Nat) :
    ((s.addFrame frame).2.frame g).entered = (s.frame g).entered := by
  rw [frame_addFrame]
  split
  · rename_i hg
    rw [hentered, frame_of_size_le (Nat.le_of_eq hg.symm)]
    rfl
  · rfl

theorem Adds.withoutOwn {l own : List Nat} (h : s.Adds l own o s') : s.Adds l [] o s' where
  __ := h
  own_sublist := List.nil_sublist _
  counted f c ha := Nat.le_trans (Nat.add_le_add_left (Nat.zero_le _) _) (h.counted f c ha)

theorem Adds.addFrame {frame : Frame} (hreceiver : frame.receiver.isSome)
    (hentered : frame.entered = 0) : s.Adds [] [] o (s.addFrame frame).2 := by
  refine ⟨⟨[], (List.append_nil _).symm, .slnil⟩, fun _ _ => (List.append_nil _).symm, .slnil, ?_, ?_, ?_⟩
  · intro g c ha hnew
    rcases hnew with hnew | hnew
    · have hlt : g < s.frames.size + 1 := by simpa [Store.addFrame] using ha.lt
      have hg : g = s.frames.size := by omega
      rw [Bound, frame_addFrame, if_pos hg]
      exact hreceiver
    · exact absurd (entered_addFrame hentered g) hnew
  · intro g c ha hunbound hb
    rw [Bound, frame_addFrame, if_neg (Nat.ne_of_lt ha.lt)] at hb
    exact absurd hb hunbound
  · intro g c _
    rw [entered_addFrame hentered]
    simp [initialized, object, Store.addFrame]

/-- A new activation that is bound by the time the code that runs in it returns. -/
theorem Adds.ofActivation {frame : Frame} (hk : s.Kept o (s.addFrame frame).2)
    (hpending : frame.pending = some (.object o)) (hclass : frame.constructorOf = some c)
    (hreceiver : frame.receiver = none) (hentered : frame.entered = 0)
    (h : (s.addFrame frame).2.Passing o s')
    (hb : s'.Bound s.frames.size) : s.Adds (s.lineage c).reverse [] o s' := by
  have hnew : (s.addFrame frame).2.frame s.frames.size = frame := by rw [frame_addFrame, if_pos rfl]
  have hold : ∀ g, g ≠ s.frames.size → (s.addFrame frame).2.frame g = s.frame g :=
    fun g hg => by rw [frame_addFrame, if_neg hg]
  have ha : (s.addFrame frame).2.Activation o c s.frames.size :=
    ⟨by rw [hnew, hpending], by rw [hnew, hclass]⟩
  have hunbound : ¬ (s.addFrame frame).2.Bound s.frames.size := by
    rw [Bound, hnew, hreceiver]
    simp
  have hstarted := h.started _ c ha hunbound hb
  have hlineage : ∀ c, (s.addFrame frame).2.lineage c = s.lineage c := lineage_congr rfl
  refine ⟨hlineage c ▸ hstarted.2, fun hquiet hsingle => ?_, List.nil_sublist _, ?_, ?_, ?_⟩
  · have hentered' := hstarted.1
    rw [hnew, hentered] at hentered'
    have hthrough := h.enters _ c ha (by rw [hnew, hentered]) (fun g c' hg hne => ?_) hsingle hentered'
    · rw [hthrough, hlineage]
      rfl
    · rw [hold g hne]
      exact hquiet g c' ⟨hold g hne ▸ hg.pending, hold g hne ▸ hg.constructorOf⟩
  · intro g c' hg hchanged
    by_cases hne : g = s.frames.size
    · exact hne ▸ hb
    · rw [← entered_addFrame (s := s) hentered g] at hchanged
      refine h.bound g c' hg (hchanged.imp_left fun hle => ?_)
      have hsize : (s.addFrame frame).2.frames.size = s.frames.size + 1 := by simp [Store.addFrame]
      omega
  · intro g c' hg hunbound' hb'
    have hsame := hold g (Nat.ne_of_lt hg.lt)
    have hpassed := h.started g c' (hk.activation hg) (by rwa [Bound, hsame]) hb'
    rw [hsame, hlineage] at hpassed
    exact hpassed
  · intro g c' hg
    have hpassed := h.counted g c' hg
    rw [entered_addFrame hentered] at hpassed
    exact hpassed

theorem lineage_enter (s : Store) (f : Nat) : ∀ c, (s.enter f).lineage c = s.lineage c :=
  lineage_congr rfl

theorem frame_enter_of_ne {g : Nat} (hne : g ≠ f) : (s.enter f).frame g = s.frame g := by
  rw [enter, frame_setFrame, if_neg fun h => hne h.1.symm]

theorem entered_enter (hf : f < s.frames.size) :
    ((s.enter f).frame f).entered = (s.frame f).entered + 1 := by
  rw [enter, frame_setFrame, if_pos ⟨rfl, hf⟩]

theorem frame_bindFrame_of_ne {g : Nat} {this : Value} (hne : g ≠ f) :
    (s.bindFrame f this).frame g = s.frame g := by
  rw [bindFrame, frame_setFrame, if_neg fun h => hne h.1.symm]

theorem entered_bindFrame (s : Store) (f g : Nat) (this : Value) :
    ((s.bindFrame f this).frame g).entered = (s.frame g).entered := by
  rw [bindFrame, frame_setFrame]
  split
  · rfl
  · rfl

theorem bound_bindFrame {this : Value} (hf : f < s.frames.size) : (s.bindFrame f this).Bound f := by
  rw [Bound, bindFrame, frame_setFrame, if_pos ⟨rfl, hf⟩]
  rfl

theorem Kept.enter (hs : s.ActivationsKnown) (hunbound : ¬ s.Bound f) : s.Kept o (s.enter f) :=
  .setFrame hs ⟨rfl, rfl, Nat.le_succ _, fun h => absurd h hunbound⟩

theorem Kept.bindFrame (hs : s.ActivationsKnown) (f : Nat) (this : Value) :
    s.Kept o (s.bindFrame f this) :=
  .setFrame hs ⟨rfl, rfl, Nat.le_refl _, fun _ => ⟨rfl, rfl⟩⟩

/--
`super(...)` in an activation of the object. What it goes through is added, and it is the only
`super(...)` that can be alone.
-/
theorem Passing.ofSuper {this : Value} (hs : s.ActivationsKnown) (ha : s.Activation o c f)
    (hk : s.Kept o (s.enter f))
    (hk' : (s.enter f).Kept o s') (h : (s.enter f).Adds (s.lineage c).reverse [c] o s')
    (hk'' : s'.Kept o (s'.bindFrame f this)) : s.Passing o (s'.bindFrame f this) := by
  have ha' : s'.Activation o c f := hk'.activation (hk.activation ha)
  have hentered := entered_enter ha.lt
  have hmore : (s.frame f).entered < (s'.frame f).entered := by
    have hle := hk'.entered_le (hk.activation ha)
    omega
  have hactivation : ∀ {g c'}, (s'.bindFrame f this).Activation o c' g → s'.Activation o c' g :=
    fun hg => hk''.activation_of_lt hg (by simpa [Store.bindFrame, Store.setFrame] using hg.lt)
  refine ⟨⟨?_, ?_, .slnil, ?_, ?_, ?_⟩, ?_⟩
  · exact .of_le ((hk.trans hk').initialized (hs.object_lt ha))
  · intro hquiet
    have heq := hquiet f c ha
    rw [entered_bindFrame] at heq
    omega
  · intro g c' hg hnew
    by_cases hne : g = f
    · rw [hne]
      exact bound_bindFrame ha'.lt
    · rw [entered_bindFrame, ← frame_enter_of_ne (s := s) hne] at hnew
      rw [Bound, frame_bindFrame_of_ne hne]
      refine h.bound g c' (hactivation hg) (hnew.imp_left fun hle => ?_)
      simpa [Store.enter, Store.setFrame] using hle
  · intro g c' hg hunbound hb
    rw [entered_bindFrame]
    by_cases hne : g = f
    · subst hne
      rw [hg.class_eq ha]
      exact ⟨Nat.ne_of_gt hmore, h.chain⟩
    · rw [Bound, frame_bindFrame_of_ne hne] at hb
      have hsame := frame_enter_of_ne (s := s) hne
      have hstarted := h.started g c' (hk.activation hg) (by rwa [Bound, hsame]) hb
      rw [hsame, lineage_enter] at hstarted
      exact hstarted
  · intro g c' hg
    have hcounted := h.counted g c' (hactivation hg)
    rw [entered_bindFrame]
    by_cases hne : g = f
    · subst hne
      rw [(hactivation hg).class_eq ha'] at hcounted ⊢
      rw [hentered, List.count_singleton_self] at hcounted
      have hsame : (s.enter g).initialized o = s.initialized o := rfl
      have hsame' : (s'.bindFrame g this).initialized o = s'.initialized o := rfl
      rw [hsame] at hcounted
      rw [hsame', List.count_nil]
      omega
    · rw [frame_enter_of_ne hne] at hcounted
      exact Nat.le_trans (Nat.add_le_add_left (Nat.zero_le _) _) hcounted
  · intro g c' hg hzero hothers hsingle hin
    have hg' : g = f := by
      by_contra hne
      have heq := hothers f c ha (Ne.symm hne)
      rw [entered_bindFrame] at heq
      omega
    subst hg'
    rw [hg.class_eq ha]
    refine h.exact_of_quiet (fun k c'' hk₁ => ?_) (hk''.single hsingle)
    by_cases hne : k = g
    · subst hne
      have hone := hsingle k c (hk''.activation ha')
      rw [entered_bindFrame] at hone
      omega
    · have hsame := frame_enter_of_ne (s := s) hne
      have heq := hothers k c'' ⟨hsame ▸ hk₁.pending, hsame ▸ hk₁.constructorOf⟩ hne
      rw [entered_bindFrame] at heq
      rw [hsame, heq]

end Store

/-- A step that goes through the line of the class `c` for the object `o`. -/
def Builds (c o : Nat) (x : EvalM Unit) : Prop :=
  ∀ ⦃s : Store⦄, s.ActivationsKnown → o < s.objects.size →
    s.Yields o (Store.Adds (s.lineage c).reverse [] o) (x s)

theorem Builds.asCall {c o : Nat} {x : EvalM Unit} (hx : Builds c o x) : Builds c o (EvalM.asCall x) := by
  intro s hs ho
  refine .asCall Store.Adds.framed hs fun s' haside hclasses => ?_
  rw [← Store.lineage_congr hclasses]
  exact hx (haside.kept hs).known (Nat.lt_of_lt_of_le ho haside.objects_le)

/-- What the calls and constructions of a machine add for an object. -/
structure Machine.Constructs (m : Machine) : Prop where
  call : ∀ o f this args, Advances 0 o (m.call f this args)
  superCall : ∀ o scope args, Advances 0 o (m.superCall scope args)
  builds : ∀ c o args, Builds c o (m.build c (.object o) args)
  /-- Constructors that run on another object. -/
  beside : ∀ {r o : Nat}, o ≠ r → ∀ c args, Advances (r + 1) o (m.build c (.object r) args)

variable {m : Machine} {o r : Nat} {s : Store}

theorem Machine.Constructs.constructed (hm : m.Constructs) (hs : s.ActivationsKnown)
    (ho : o < s.objects.size) (c : Nat) (args : List Value) :
    s.Yields o (Store.Adds (s.lineage c).reverse [] o) ((do
      EvalM.holding [.object o] (m.build c (.object o) args)
      return .object o : EvalM Value) s) := by
  have hbuilt : s.Yields o (Store.Adds (s.lineage c).reverse [] o)
      (EvalM.holding [.object o] (m.build c (.object o) args) s) := by
    refine .holding Store.Adds.framed hs _ fun s' haside hclasses => ?_
    rw [← Store.lineage_congr hclasses]
    exact hm.builds c o args (haside.kept hs).known (Nat.lt_of_lt_of_le ho haside.objects_le)
  refine hbuilt.bind (E := Store.Passing o) (fun _ s' _ hkept => ?_) fun s' s'' _ hk h hk' h' _ => ?_
  · exact Advances.pure (n := 0) _ hkept.known (Nat.zero_le _)
  · have hall := Store.Adds.trans hs hk h hk' h'.toAdds
    rwa [List.append_nil, List.append_nil] at hall

theorem Machine.Constructs.new (hm : m.Constructs) (o c : Nat) (args : List Value) :
    Advances 0 o (EvalM.construct m (.classOf c) args) := by
  intro s hs _
  have hmade : s.Aside o (s.addObject { class? := some c }).2 := .addObject s _
  have hknown := (hmade.kept hs).known
  have hsize : (s.addObject { class? := some c }).2.objects.size = s.objects.size + 1 := by
    simp [Store.addObject]
  by_cases hne : o = s.objects.size
  · subst hne
    have hrun := hm.constructed hknown (Nat.lt_of_lt_of_eq (Nat.lt_succ_self _) hsize.symm) c args
    exact ⟨(hmade.kept hs).trans hrun.kept, fun _ _ _ ho => absurd ho (Nat.lt_irrefl _)⟩
  · have hrest : Advances (s.objects.size + 1) o (do
        EvalM.holding [.object s.objects.size] (m.build c (.object s.objects.size) args)
        return .object s.objects.size : EvalM Value) :=
      .bind (Advances.rules.holding (hm.beside hne c args) _) fun _ => .pure _
    exact .between Store.Passing.framed hs hmade (hrest hknown (Nat.le_of_eq hsize.symm)) (.refl o _)

theorem Machine.Constructs.parts (hm : m.Constructs) (o : Nat) :
    CodeParts m fun _ x => Advances 0 o x where
  call := hm.call o
  new := hm.new o
  superCall := hm.superCall o
  write h := .aside fun s => (h s).aside
  edit h := .aside fun s => (h s).aside

namespace EvalM

theorem refusing_constructs (hm : m.Constructs) :
    ({ m with superCall := fun _ _ => fail .unexpectedSuper } : Machine).Constructs :=
  { hm with superCall := fun _ _ _ => .throw _ }

section
variable (hm : m.Constructs)
include hm

theorem fields_advance (c o : Nat) (this : Value) : Advances 0 o (do
    let cell := (← get).classCell c
    let made ← frameScope cell.env { receiver := some this, home := some c }
    inScope made.2 <|
      addFields { m with superCall := fun _ _ => fail .unexpectedSuper } made.2 this cell.fields) := by
  refine Composed.advances (.read fun s => ?_)
  have hrules := ((refusing_constructs hm).parts o).rules
  exact frameScope_composed hrules _ rfl fun f inner =>
    (addFields_composed hrules inner this _ fun _ _ _ _ => trivial).inScope inner

theorem initializeFields_beside (hne : o ≠ r) (c : Nat) :
    Advances (r + 1) o (initializeFields m c (.object r)) := by
  let note (cell : ObjectCell) : ObjectCell := { cell with initialized := cell.initialized ++ [c] }
  have hnote : Advances (r + 1) o (make fun s => ((), s.setObject r note)) :=
    .aside fun s => .setOther s hne note
  exact hnote.bind fun _ => (fields_advance hm c o _).mono _

omit hm in
theorem noteFields_adds (hs : s.ActivationsKnown) (ho : o < s.objects.size) (c : Nat) :
    s.Yields o (Store.Adds [c] [c] o) (noteFields c (.object o) s) := by
  let noted := s.setObject o fun cell => { cell with initialized := cell.initialized ++ [c] }
  have hobject : noted.object o =
      { s.object o with initialized := (s.object o).initialized ++ [c] } := by
    refine (Store.getD_modify ..).trans ?_
    rw [if_pos ⟨rfl, ho⟩]
    rfl
  have hadded : noted.initialized o = s.initialized o ++ [c] := by
    rw [Store.initialized, hobject]
    rfl
  have hkept : s.Kept o noted := by
    refine { Store.Kept.refl (o := o) hs with
      objects_le := ?_, class? := fun _ => ?_, initialized := fun _ => ?_, known := fun f v hv => ?_ }
    · simp [noted, Store.setObject]
    · rw [hobject]
    · rw [hadded]
      exact List.prefix_append ..
    · obtain ⟨o', c', hv, ha, ho', hc⟩ := hs f v hv
      exact ⟨o', c', hv, ⟨ha.pending, ha.constructorOf⟩, by simpa [noted, Store.setObject], hc⟩
  refine ⟨hkept, fun _ _ _ _ => ⟨⟨[c], hadded, .refl _⟩, fun _ _ => hadded, .refl _, ?_, ?_, ?_⟩⟩
  · rintro f c' ha (hnew | hnew)
    · exact absurd ha.lt (Nat.not_lt.2 hnew)
    · exact absurd rfl hnew
  · intro f c' _ hunbound hb
    exact absurd hb hunbound
  · intro f c' _
    have hsame : (noted.frame f).entered = (s.frame f).entered := rfl
    rw [show (noteFields c (.object o) s).2 = noted from rfl, hadded, hsame, List.count_append]
    omega

theorem initializeFields_adds (hs : s.ActivationsKnown) (ho : o < s.objects.size) (c : Nat) :
    s.Yields o (Store.Adds [c] [c] o) (initializeFields m c (.object o) s) := by
  refine (noteFields_adds hs ho c).bind (E := Store.Passing o) (fun _ s' _ hkept => ?_)
    fun s' s'' _ hk h hk' h' _ => Store.Adds.trans hs hk h hk' h'.toAdds
  exact fields_advance hm c o _ hkept.known (Nat.zero_le _)

theorem callDiscarded_advances (f o : Nat) (this : Value) (args : List Value) :
    Advances 0 o (discard (m.call f this args)) :=
  (Composed.given (hm.call o f this args)).discard.advances

theorem constructSuper_beside (hne : o ≠ r) (c : Nat) (args : List Value) :
    Advances (r + 1) o (constructSuper m c (.object r) args) := by
  have hfields := initializeFields_beside hm hne c
  refine .read fun s => ?_
  cases (s.classCell c).superclass with
  | classOf parent => exact (hm.beside hne parent args).bind fun _ => hfields
  | function f => exact ((callDiscarded_advances hm f o _ args).mono _).bind fun _ => hfields
  | _ => exact Advances.rules.holding hfields args

theorem constructSuper_adds (hs : s.ActivationsKnown) (ho : o < s.objects.size) (c : Nat)
    (args : List Value) :
    s.Yields o (Store.Adds (s.lineage c).reverse [c] o) (constructSuper m c (.object o) args s) := by
  have hfields : ∀ s', s.Kept o s' →
      s'.Yields o (Store.Adds [c] [c] o) (initializeFields m c (.object o) s') := fun s' hkept =>
    initializeFields_adds hm hkept.known (Nat.lt_of_lt_of_le ho hkept.objects_le) c
  rw [constructSuper, get_bind]
  cases hsuper : (s.classCell c).superclass with
  | classOf parent =>
    refine (hm.builds parent o args hs ho).bind (fun _ s' _ hkept => hfields s' hkept)
      fun s' s'' _ hk h hk' h' hlines => ?_
    rw [((hk.trans hk').lines hlines).lineage_eq hsuper, List.reverse_cons]
    exact Store.Adds.trans hs hk h hk' h'
  | function f =>
    rw [Store.lineage_of_no_class (by simp [hsuper])]
    exact (callDiscarded_advances hm f o _ args hs (Nat.zero_le _)).bind
      (fun _ s' _ hkept => hfields s' hkept)
      fun s' s'' _ hk h hk' h' _ => Store.Adds.trans hs hk h.toAdds hk' h'
  | _ =>
    rw [Store.lineage_of_no_class (by simp [hsuper])]
    exact .holding Store.Adds.framed hs args fun s' haside _ => hfields s' (haside.kept hs)

/-- What the constructor of a class does once it has a frame. -/
def runActivation (m : Machine) (cell : ClassCell) (body : FunctionDef) (args : List Value)
    (f scope : Nat) : EvalM Unit := do
  discard (inScope scope (runFunction m body cell.name scope args))
  if ((← get).frame f).receiver.isNone then fail (.missingSuper cell.name)

theorem runActivation_advances (cell : ClassCell) (body : FunctionDef) (args : List Value)
    (f scope o : Nat) : Advances 0 o (runActivation m cell body args f scope) := by
  refine Composed.advances ?_
  have hrun : Composed _ (runFunction m body cell.name scope args) :=
    runFunction_composed (hm.parts o).rules scope trivial cell.name args
  refine (hrun.inScope scope).discard.bind fun _ => .read fun s => ?_
  split
  · exact .fail _
  · exact .pure _

omit hm in
theorem runActivation_bound {cell : ClassCell} {body : FunctionDef} {args : List Value}
    {f scope : Nat} {s' : Store} (h : runActivation m cell body args f scope s = (.ok (), s')) :
    s'.Bound f := by
  obtain ⟨_, s₁, _, h⟩ := bind_run_ok h
  obtain ⟨s₂, s₃, hget, h⟩ := bind_run_ok h
  cases hget
  split at h
  · cases h
  · rename_i hbound
    cases h
    simpa [Store.Bound, Option.isSome_iff_ne_none] using hbound

end

/-- The frame of the constructor that the class `c` itself has. -/
def activationFrame (c : Nat) (cell : ClassCell) (o : Nat) : Frame where
  receiver := if cell.isDerived then none else some (.object o)
  pending := some (.object o)
  home := some c
  constructorOf := some c

section
variable {c : Nat} {cell : ClassCell} (hm : m.Constructs)
include hm

theorem activated_advances (cell : ClassCell) {frame : Frame} (hk : s.Kept o (s.addFrame frame).2)
    (body : FunctionDef) (args : List Value) (scope : Scope) :
    (s.addFrame frame).2.Yields o (Store.Passing o) (runActivation m cell body args s.frames.size
      s.scopes.size ((s.addFrame frame).2.addScope scope).2) := by
  have haside : (s.addFrame frame).2.Aside o ((s.addFrame frame).2.addScope scope).2 :=
    { Store.Aside.refl o _ with }
  have hrun := runActivation_advances hm cell body args s.frames.size s.scopes.size o
    (haside.kept hk.known).known (Nat.zero_le _)
  exact .between Store.Passing.framed hk.known haside hrun (.refl o _)

theorem runOwnConstructor_beside (hne : o ≠ r) (hs : s.ActivationsKnown) (hr : r < s.objects.size)
    (hc : c < s.classes.size) (body : FunctionDef) (args : List Value) :
    s.Yields o (Store.Passing o) (runOwnConstructor m c cell body (.object r) args s) := by
  have hk : s.Kept o (s.addFrame (activationFrame c cell r)).2 := .addFrame hs hr hc rfl rfl
  exact .after hk (activated_advances hm cell hk body args _) fun _ hk' h =>
    (Store.Passing.addFrame hk hne rfl).trans hs hk hk' h

theorem runOwnConstructor_adds_of_base (hs : s.ActivationsKnown) (ho : o < s.objects.size)
    (hc : c < s.classes.size) (hbase : cell.isDerived = false) (body : FunctionDef)
    (args : List Value) :
    s.Yields o (Store.Adds [] [] o) (runOwnConstructor m c cell body (.object o) args s) := by
  have hk : s.Kept o (s.addFrame (activationFrame c cell o)).2 := .addFrame hs ho hc rfl rfl
  refine .after hk (activated_advances hm cell hk body args _) fun _ hk' h => ?_
  have hbound : (activationFrame c cell o).receiver.isSome := by simp [activationFrame, hbase]
  exact Store.Adds.trans hs hk (.addFrame hbound rfl) hk' h.toAdds

theorem runOwnConstructor_adds_of_derived (hs : s.ActivationsKnown) (ho : o < s.objects.size)
    (hc : c < s.classes.size) (hderived : cell.isDerived) (body : FunctionDef) (args : List Value) :
    s.Yields o (Store.Adds (s.lineage c).reverse [] o)
      (runOwnConstructor m c cell body (.object o) args s) := by
  have hk : s.Kept o (s.addFrame (activationFrame c cell o)).2 := .addFrame hs ho hc rfl rfl
  have hrun := activated_advances hm cell hk body args
    { (s.addFrame (activationFrame c cell o)).2.inside cell.env with frame := some s.frames.size }
  refine ⟨hk.trans hrun.kept, fun _ hout hlines _ => ?_⟩
  have hreceiver : (activationFrame c cell o).receiver = none := by
    simp [activationFrame, hderived]
  have hbound := runActivation_bound (Prod.ext hout rfl)
  exact .ofActivation hk rfl rfl hreceiver rfl (hrun.returned _ hout hlines ho) hbound

theorem runConstructor_beside (hne : o ≠ r) (c : Nat) (args : List Value) :
    Advances (r + 1) o (runConstructor m c (.object r) args) := by
  intro s hs hr
  rw [runConstructor, get_bind]
  cases hconstructor : (s.classCell c).constructor? with
  | none => exact constructSuper_beside hm hne c args hs hr
  | some body =>
    have hc := Store.lt_of_constructor? hconstructor
    dsimp only
    split
    · exact runOwnConstructor_beside hm hne hs hr hc body args
    · have hfields := Advances.rules.holding (initializeFields_beside hm hne c) args
      refine (hfields hs hr).bind (E := Store.Passing o) (fun _ s' _ hkept => ?_)
        fun s' s'' _ hk h hk' h' _ => h.trans hs hk hk' h'
      exact runOwnConstructor_beside hm hne hkept.known (Nat.le_trans hr hkept.objects_le)
        (Nat.lt_of_lt_of_le hc hkept.classes_le) body args

theorem runConstructor_builds (c o : Nat) (args : List Value) :
    Builds c o (runConstructor m c (.object o) args) := by
  intro s hs ho
  rw [runConstructor, get_bind]
  cases hconstructor : (s.classCell c).constructor? with
  | none =>
    exact (constructSuper_adds hm hs ho c args).mono fun _ _ _ h => h.withoutOwn
  | some body =>
    have hc := Store.lt_of_constructor? hconstructor
    dsimp only
    split
    · rename_i hderived
      exact runOwnConstructor_adds_of_derived hm hs ho hc hderived body args
    · rename_i hbase
      have hline : s.lineage c = [c] := by
        refine Store.lineage_of_no_class fun p hp => hbase ?_
        simp [ClassCell.isDerived, hp, Value.isUndefined]
      have hfields : s.Yields o (Store.Adds [c] [c] o)
          (holding args (initializeFields m c (.object o)) s) :=
        .holding Store.Adds.framed hs args fun s' haside _ => initializeFields_adds hm
          (haside.kept hs).known (Nat.lt_of_lt_of_le ho haside.objects_le) c
      refine hfields.bind (E := Store.Adds [] [] o) (fun _ s' _ hkept => ?_)
        fun s' s'' _ hk h hk' h' _ => ?_
      · exact runOwnConstructor_adds_of_base hm hkept.known (Nat.lt_of_lt_of_le ho hkept.objects_le)
          (Nat.lt_of_lt_of_le hc hkept.classes_le) (Bool.not_eq_true _ ▸ hbase) body args
      · rw [hline]
        exact (Store.Adds.trans hs hk h hk' h').withoutOwn

theorem callFunction_advances (o f : Nat) (this : Value) (args : List Value) :
    Advances 0 o (callFunction m f this args) := by
  refine Advances.asCall (Composed.advances (.holding (.read fun s => ?_) _))
  dsimp only
  cases (s.function f).code with
  | builtin b => exact (runBuiltin_composed (hm.parts o).toValueParts b this args).holding _
  | script body env home =>
    exact callScope_composed (hm.parts o).rules env body home this fun scope =>
      (runFunction_composed (hm.parts o).rules scope trivial _ args).inScope scope

omit hm in
/-- `super(...)` is refused, or runs in a frame that is not bound. -/
theorem superCall_cases (m : Machine) (scope : Nat) (args : List Value) (s : Store) :
    (∃ e, superCall m scope args s = (.error (.fault e), s)) ∨
    ∃ f c this, s.frameOf? scope = some f ∧ (s.frame f).constructorOf = some c ∧
      (s.frame f).pending = some this ∧ ¬ s.Bound f ∧
      superCall m scope args s = (do
        modify (·.enter f)
        constructSuper m c this args
        modify (·.bindFrame f this) : EvalM Unit) s := by
  unfold superCall
  rw [get_bind]
  cases s.frameOf? scope with
  | none => exact .inl ⟨_, rfl⟩
  | some f =>
    dsimp only
    cases hclass : (s.frame f).constructorOf with
    | none => exact .inl ⟨_, rfl⟩
    | some c =>
      dsimp only
      split
      · exact .inl ⟨_, rfl⟩
      · rename_i hunbound
        cases hpending : (s.frame f).pending with
        | none => exact .inl ⟨_, rfl⟩
        | some this => exact .inr ⟨f, c, this, rfl, hclass, hpending, hunbound, rfl⟩

theorem superCall_advances (o scope : Nat) (args : List Value) :
    Advances 0 o (superCall m scope args) := by
  intro s hs _
  rcases superCall_cases m scope args s with ⟨e, hrun⟩ | ⟨f, c, this, _, hclass, hpending, hunbound, hrun⟩
  · rw [hrun]
    exact .throw hs _
  rw [hrun]
  obtain ⟨r, c', rfl, ha, hr, _⟩ := hs f this hpending
  have hc : c' = c := by
    have heq := ha.constructorOf.symm.trans hclass
    cases heq
    rfl
  subst hc
  have hk : s.Kept o (s.enter f) := .enter hs hunbound
  have hr' := Nat.lt_of_lt_of_le hr hk.objects_le
  by_cases hne : o = r
  · -- The activation is one of the object, so the line of its class is gone through.
    subst hne
    refine .after hk (D := fun _ s'' => s.Passing o s'') ?_ fun _ _ h => h
    refine (constructSuper_adds hm hk.known hr' c' args).bind
      (E := fun s₁ s₂ => s₂ = s₁.bindFrame f (.object o)) (fun _ s' _ hkept => ?_)
      fun s' s'' _ hk' h hk'' heq _ => ?_
    · exact ⟨.bindFrame hkept.known f _, fun _ _ _ _ => rfl⟩
    · subst heq
      rw [Store.lineage_enter] at h
      exact .ofSuper hs ha hk hk' h hk''
  · -- The activation is one of another object.
    refine .after hk (D := Store.Passing o) ?_
      fun _ hk' h => (Store.Passing.setFrame hk hne ha).trans hs hk hk' h
    refine (constructSuper_beside hm hne c' args hk.known hr').bind (E := Store.Passing o)
      (fun _ s' _ hkept => ?_) fun s' s'' _ hk' h hk'' h' _ => h.trans hk.known hk' hk'' h'
    have hbind : s'.Kept o (s'.bindFrame f (.object r)) := .bindFrame hkept.known f _
    exact ⟨hbind, fun _ _ _ _ => .setFrame hbind hne (hkept.activation (hk.activation ha))⟩

end

end EvalM

namespace Machine

theorem exhausted_constructs : exhausted.Constructs where
  call _ _ _ _ := .throw _
  superCall _ _ _ := .throw _
  builds _ _ _ := fun _ hs _ => .throw hs _
  beside _ _ _ := .throw _

theorem calls_constructs (hm : m.Constructs) :
    Constructs { m.deeper with superCall := fun _ _ => EvalM.fail .unexpectedSuper } where
  call := EvalM.callFunction_advances hm
  superCall _ _ _ := .throw _
  builds c o args := (EvalM.runConstructor_builds hm c o args).asCall
  beside hne c args := (EvalM.runConstructor_beside hm hne c args).asCall

theorem deeper_constructs (hm : m.Constructs) : m.deeper.Constructs :=
  { calls_constructs hm with superCall := EvalM.superCall_advances (calls_constructs hm) }

theorem levels_constructs (n : Nat) : (levels n).Constructs := by
  induction n with
  | zero => exact exhausted_constructs
  | succ n ih => exact deeper_constructs ih

end Machine

end Typings
