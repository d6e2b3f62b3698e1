import Typings.Proofs.Eval.Change
import Typings.Proofs.Eval.ComposedCode

namespace Typings

namespace Store

variable {s s' s'' : Store} {o c f : Nat}

/-- A frame in which the constructor of the class `c` runs on the object `o`. -/
structure Activation (s : Store) (o c f : Nat) : Prop where
  pending : (s.frame f).pending = some (.object o)
  constructorOf : (s.frame f).constructorOf = some c

def Bound (s : Store) (f : Nat) : Prop := (s.frame f).receiver.isSome

/-- Constructors run on objects that are there, and belong to classes that are there. -/
def ActivationsKnown (s : Store) : Prop :=
  ∀ f v, (s.frame f).pending = some v →
    ∃ o c, v = .object o ∧ s.Activation o c f ∧ o < s.objects.size ∧ c < s.classes.size

/-- The classes whose fields were evaluated for an object, in order. -/
def initialized (s : Store) (o : Nat) : List Nat := (s.object o).initialized

theorem frame_of_size_le (h : s.frames.size ≤ f) : s.frame f = default := by
  simp [frame, Array.getD_eq_getD_getElem?, h]

theorem Activation.lt (h : s.Activation o c f) : f < s.frames.size := by
  by_contra hf
  have hpending := h.pending
  rw [frame_of_size_le (Nat.le_of_not_lt hf)] at hpending
  cases hpending

theorem Activation.class_eq {o' c' : Nat} (h : s.Activation o c f) (h' : s.Activation o' c' f) :
    c = c' := by
  have heq := h.constructorOf.symm.trans h'.constructorOf
  cases heq
  rfl

theorem ActivationsKnown.class_lt (hs : s.ActivationsKnown) (h : s.Activation o c f) :
    c < s.classes.size := by
  obtain ⟨o', c', _, hknown, _, hc⟩ := hs f _ h.pending
  exact hknown.class_eq h ▸ hc

theorem ActivationsKnown.object_lt (hs : s.ActivationsKnown) (h : s.Activation o c f) :
    o < s.objects.size := by
  obtain ⟨o', _, heq, _, ho, _⟩ := hs f _ h.pending
  cases heq
  exact ho

theorem lineage_of_no_class (h : ∀ p, (s.classCell c).superclass ≠ .classOf p) :
    s.lineage c = [c] := by
  rw [lineage]
  split
  · rename_i p hp
    exact absurd hp (h p)
  · rfl

end Store

/-- What happens to the frame of an activation. Once it is bound it enters `super(...)` no more. -/
structure Frame.Later (a b : Frame) : Prop where
  pending : b.pending = a.pending
  constructorOf : b.constructorOf = a.constructorOf
  entered_le : a.entered ≤ b.entered
  bound : a.receiver.isSome → b.receiver.isSome ∧ b.entered = a.entered

theorem Frame.Later.refl (a : Frame) : a.Later a := ⟨rfl, rfl, Nat.le_refl _, fun h => ⟨h, rfl⟩⟩

theorem Frame.Later.trans {a b c : Frame} (h : a.Later b) (h' : b.Later c) : a.Later c where
  pending := h'.pending.trans h.pending
  constructorOf := h'.constructorOf.trans h.constructorOf
  entered_le := Nat.le_trans h.entered_le h'.entered_le
  bound ha :=
    have hb := h.bound ha
    have hc := h'.bound hb.1
    ⟨hc.1, hc.2.trans hb.2⟩

namespace Store

variable {s s' s'' : Store} {o c f : Nat}

/-- What no step takes back. The object `o` is asked about once it is there. -/
structure Kept (o : Nat) (s s' : Store) : Prop where
  frames_le : s.frames.size ≤ s'.frames.size
  objects_le : s.objects.size ≤ s'.objects.size
  classes_le : s.classes.size ≤ s'.classes.size
  superclass : ∀ c < s.classes.size, (s'.classCell c).superclass = (s.classCell c).superclass
  frame : ∀ f < s.frames.size, (s.frame f).Later (s'.frame f)
  class? : o < s.objects.size → (s'.object o).class? = (s.object o).class?
  initialized : o < s.objects.size → s.initialized o <+: s'.initialized o
  known : s'.ActivationsKnown

namespace Kept

theorem refl (hs : s.ActivationsKnown) : s.Kept o s where
  frames_le := Nat.le_refl _
  objects_le := Nat.le_refl _
  classes_le := Nat.le_refl _
  superclass _ _ := rfl
  frame _ _ := .refl _
  class? _ := rfl
  initialized _ := List.prefix_refl _
  known := hs

theorem trans (h : s.Kept o s') (h' : s'.Kept o s'') : s.Kept o s'' where
  frames_le := Nat.le_trans h.frames_le h'.frames_le
  objects_le := Nat.le_trans h.objects_le h'.objects_le
  classes_le := Nat.le_trans h.classes_le h'.classes_le
  superclass c hc :=
    (h'.superclass c (Nat.lt_of_lt_of_le hc h.classes_le)).trans (h.superclass c hc)
  frame f hf := (h.frame f hf).trans (h'.frame f (Nat.lt_of_lt_of_le hf h.frames_le))
  class? ho := (h'.class? (Nat.lt_of_lt_of_le ho h.objects_le)).trans (h.class? ho)
  initialized ho :=
    (h.initialized ho).trans (h'.initialized (Nat.lt_of_lt_of_le ho h.objects_le))
  known := h'.known

theorem activation {o' : Nat} (h : s.Kept o s') (ha : s.Activation o' c f) :
    s'.Activation o' c f := by
  have hf := h.frame f ha.lt
  exact ⟨hf.pending.trans ha.pending, hf.constructorOf.trans ha.constructorOf⟩

theorem activation_of_lt (h : s.Kept o s') (ha : s'.Activation o c f) (hf : f < s.frames.size) :
    s.Activation o c f := by
  have hlater := h.frame f hf
  exact ⟨hlater.pending ▸ ha.pending, hlater.constructorOf ▸ ha.constructorOf⟩

theorem lines (h : s.Kept o s') (hl : s'.Lines) : s.Lines := by
  intro c p hp
  by_cases hc : c < s.classes.size
  · exact hl c p ((h.superclass c hc).trans hp)
  · rw [classCell_of_size_le (Nat.le_of_not_lt hc)] at hp
    cases hp

theorem lineage_eq (h : s.Kept o s') (hc : c < s.classes.size) : s'.lineage c = s.lineage c := by
  induction c using Nat.strongRecOn with
  | ind c ih =>
    rw [lineage, lineage, h.superclass c hc]
    split
    · rename_i p _
      split
      · rename_i hp
        rw [ih p hp (Nat.lt_trans hp hc)]
      · rfl
    · rfl

end Kept

/-- The fields of the classes `l` were evaluated since, in this order and perhaps with others between. -/
def Grows (l before after : List Nat) : Prop := ∃ added, after = before ++ added ∧ l.Sublist added

namespace Grows

variable {l l' a b d : List Nat}

theorem later (h : Grows l a b) (hd : b <+: d) : Grows l a d := by
  obtain ⟨added, rfl, hl⟩ := h
  obtain ⟨more, rfl⟩ := hd
  exact ⟨added ++ more, List.append_assoc .., hl.trans (List.sublist_append_left ..)⟩

theorem earlier (hd : d <+: a) (h : Grows l a b) : Grows l d b := by
  obtain ⟨added, rfl, hl⟩ := h
  obtain ⟨more, rfl⟩ := hd
  exact ⟨more ++ added, List.append_assoc .., hl.trans (List.sublist_append_right ..)⟩

theorem of_le (h : a <+: b) : Grows [] a b := by
  obtain ⟨added, rfl⟩ := h
  exact ⟨added, rfl, List.nil_sublist _⟩

theorem append (h : Grows l a b) (h' : Grows l' b d) : Grows (l ++ l') a d := by
  obtain ⟨added, rfl, hl⟩ := h
  obtain ⟨more, rfl, hl'⟩ := h'
  exact ⟨added ++ more, List.append_assoc .., hl.append hl'⟩

theorem count_le (h : Grows l a b) (c : Nat) : a.count c + l.count c ≤ b.count c := by
  obtain ⟨added, rfl, hl⟩ := h
  rw [List.count_append]
  exact Nat.add_le_add_left (hl.count_le c) _

end Grows

/-- No activation of the object enters `super(...)`. -/
def Quiet (o : Nat) (s s' : Store) : Prop :=
  ∀ f c, s.Activation o c f → (s'.frame f).entered = (s.frame f).entered

/-- No activation of the object has entered `super(...)` twice. -/
def Single (s : Store) (o : Nat) : Prop := ∀ f c, s.Activation o c f → (s.frame f).entered ≤ 1

/--
What a step that returned has added for the object. It evaluated the fields of `l` in this order,
and nothing else unless `super(...)` was entered elsewhere. The fields of `own` were evaluated by no
`super(...)` that it ran itself.
-/
structure Adds (l own : List Nat) (o : Nat) (s s' : Store) : Prop where
  chain : Grows l (s.initialized o) (s'.initialized o)
  exact_of_quiet : Quiet o s s' → s'.Single o → s'.initialized o = s.initialized o ++ l
  own_sublist : own.Sublist l
  /-- An activation that is new or entered `super(...)` is bound by the time the step returns. -/
  bound : ∀ f c, s'.Activation o c f →
    s.frames.size ≤ f ∨ (s'.frame f).entered ≠ (s.frame f).entered → s'.Bound f
  /-- An activation that was bound has entered `super(...)`, which went through its line. -/
  started : ∀ f c, s.Activation o c f → ¬ s.Bound f → s'.Bound f →
    (s'.frame f).entered ≠ (s.frame f).entered ∧
      Grows (s.lineage c).reverse (s.initialized o) (s'.initialized o)
  /-- Each `super(...)` evaluates the fields of its class. -/
  counted : ∀ f c, s'.Activation o c f →
    (s'.frame f).entered + (s.initialized o).count c + own.count c ≤
      (s.frame f).entered + (s'.initialized o).count c

/-- When just one activation enters `super(...)`, just its line is gone through. -/
def Enters (o : Nat) (s s' : Store) : Prop :=
  ∀ f c, s.Activation o c f → (s.frame f).entered = 0 →
    (∀ g c', s.Activation o c' g → g ≠ f → (s'.frame g).entered = (s.frame g).entered) →
    s'.Single o → (s'.frame f).entered ≠ 0 →
      s'.initialized o = s.initialized o ++ (s.lineage c).reverse

/-- What code has added for the object when it returns. -/
structure Passing (o : Nat) (s s' : Store) : Prop extends Adds [] [] o s s' where
  enters : Enters o s s'

section
variable {l l' own own' : List Nat}

theorem Kept.entered_le (h : s.Kept o s') (ha : s.Activation o c f) :
    (s.frame f).entered ≤ (s'.frame f).entered :=
  (h.frame f ha.lt).entered_le

theorem Kept.single (h : s.Kept o s') (hs : s'.Single o) : s.Single o :=
  fun f c ha => Nat.le_trans (h.entered_le ha) (hs f c (h.activation ha))

theorem Kept.entered_eq (h : s.Kept o s') (ha : s.Activation o c f) (hb : s.Bound f) :
    (s'.frame f).entered = (s.frame f).entered :=
  ((h.frame f ha.lt).bound hb).2

theorem Kept.bound (h : s.Kept o s') (ha : s.Activation o c f) (hb : s.Bound f) : s'.Bound f :=
  ((h.frame f ha.lt).bound hb).1

theorem Adds.entered_eq (h : s.Adds l own o s') (hk : s.Kept o s') (hk' : s'.Kept o s'')
    (ha : s'.Activation o c f)
    (hold : s.Activation o c f → (s''.frame f).entered = (s.frame f).entered) :
    (s''.frame f).entered = (s'.frame f).entered := by
  by_cases hf : f < s.frames.size
  · have ha₀ := hk.activation_of_lt ha hf
    have hle := hk.entered_le ha₀
    have hle' := hk'.entered_le ha
    have heq := hold ha₀
    omega
  · exact hk'.entered_eq ha (h.bound f c ha (.inl (Nat.le_of_not_lt hf)))

theorem Adds.trans (hs : s.ActivationsKnown) (hk : s.Kept o s') (h : s.Adds l own o s')
    (hk' : s'.Kept o s'') (h' : s'.Adds l' own' o s'') : s.Adds (l ++ l') (own ++ own') o s'' where
  chain := h.chain.append h'.chain
  own_sublist := h.own_sublist.append h'.own_sublist
  exact_of_quiet hq hsingle := by
    have hfirst : Quiet o s s' := by
      intro f c ha
      have hle := hk.entered_le ha
      have hle' := hk'.entered_le (hk.activation ha)
      have heq := hq f c ha
      omega
    have hsecond : Quiet o s' s'' := fun f c ha => h.entered_eq hk hk' ha (hq f c)
    rw [h'.exact_of_quiet hsecond hsingle, h.exact_of_quiet hfirst (hk'.single hsingle),
      List.append_assoc]
  bound f c ha hnew := by
    by_cases hf : f < s'.frames.size
    · have ha' := hk'.activation_of_lt ha hf
      by_cases hb : s'.Bound f
      · exact hk'.bound ha' hb
      · have hold : ¬ (s.frames.size ≤ f ∨ (s'.frame f).entered ≠ (s.frame f).entered) :=
          fun hnew => hb (h.bound f c ha' hnew)
        refine h'.bound f c ha (.inr ?_)
        omega
    · exact h'.bound f c ha (.inl (Nat.le_of_not_lt hf))
  started f c ha hunbound hb := by
    have ho := hs.object_lt ha
    have ha' := hk.activation ha
    have hle := hk.entered_le ha
    have hle' := hk'.entered_le ha'
    by_cases hb' : s'.Bound f
    · obtain ⟨hne, hgrows⟩ := h.started f c ha hunbound hb'
      exact ⟨by omega, hgrows.later (hk'.initialized (Nat.lt_of_lt_of_le ho hk.objects_le))⟩
    · obtain ⟨hne, hgrows⟩ := h'.started f c ha' hb' hb
      rw [hk.lineage_eq (hs.class_lt ha)] at hgrows
      exact ⟨by omega, hgrows.earlier (hk.initialized ho)⟩
  counted f c ha := by
    have hsecond := h'.counted f c ha
    rw [List.count_append]
    by_cases hf : f < s'.frames.size
    · have hfirst := h.counted f c (hk'.activation_of_lt ha hf)
      omega
    · -- The activation is newer than the first step, which still evaluated the fields of `own`.
      have hentered : (s'.frame f).entered = 0 := by
        rw [frame_of_size_le (Nat.le_of_not_lt hf)]
        rfl
      have hchain := h.chain.count_le c
      have hown := h.own_sublist.count_le c
      omega

theorem Enters.trans (hs : s.ActivationsKnown) (hk : s.Kept o s') (h : s.Passing o s')
    (hk' : s'.Kept o s'') (h' : s'.Passing o s'') : Enters o s s'' := by
  intro f c ha hzero hothers hsingle hentered
  have ha' := hk.activation ha
  have hfirst : ∀ g c', s.Activation o c' g → g ≠ f →
      (s'.frame g).entered = (s.frame g).entered := by
    intro g c' hg hne
    have hle := hk.entered_le hg
    have hle' := hk'.entered_le (hk.activation hg)
    have heq := hothers g c' hg hne
    omega
  have hsecond : ∀ g c', s'.Activation o c' g → g ≠ f →
      (s''.frame g).entered = (s'.frame g).entered :=
    fun g c' hg hne => h.entered_eq hk hk' hg fun hg₀ => hothers g c' hg₀ hne
  -- `f` enters in one of the two steps, and the other one is quiet.
  by_cases hin : (s'.frame f).entered = 0
  · have hquiet : Quiet o s s' := by
      intro g c' hg
      by_cases hne : g = f
      · rw [hne, hin, hzero]
      · exact hfirst g c' hg hne
    rw [h'.enters f c ha' hin hsecond hsingle hentered, hk.lineage_eq (hs.class_lt ha),
      h.exact_of_quiet hquiet (hk'.single hsingle), List.append_nil]
  · have hquiet : Quiet o s' s'' := by
      intro g c' hg
      by_cases hne : g = f
      · rw [hne]
        have hle := hk'.entered_le ha'
        have hone := hsingle f c (hk'.activation ha')
        omega
      · exact hsecond g c' hg hne
    rw [h'.exact_of_quiet hquiet hsingle, List.append_nil]
    exact h.enters f c ha hzero hfirst (hk'.single hsingle) hin

theorem Passing.trans (hs : s.ActivationsKnown) (hk : s.Kept o s') (h : s.Passing o s')
    (hk' : s'.Kept o s'') (h' : s'.Passing o s'') : s.Passing o s'' where
  __ := Adds.trans hs hk h.toAdds hk' h'.toAdds
  enters := Enters.trans hs hk h hk' h'

end

theorem Passing.of_same (hk : s.Kept o s')
    (hsame : ∀ f c, s'.Activation o c f → s.Activation o c f ∧ s'.frame f = s.frame f)
    (hinitialized : s'.initialized o = s.initialized o) : s.Passing o s' where
  chain := ⟨[], by rw [hinitialized, List.append_nil], .slnil⟩
  exact_of_quiet _ _ := by rw [hinitialized, List.append_nil]
  own_sublist := .slnil
  bound f c ha hnew := by
    obtain ⟨ha₀, heq⟩ := hsame f c ha
    rcases hnew with hnew | hnew
    · exact absurd ha₀.lt (Nat.not_lt.2 hnew)
    · exact absurd (congrArg Frame.entered heq) hnew
  started f c ha hunbound hb := by
    rw [Bound, (hsame f c (hk.activation ha)).2] at hb
    exact absurd hb hunbound
  counted f c ha := by
    rw [(hsame f c ha).2, hinitialized]
    simp
  enters f c ha hzero _ _ hentered := by
    rw [(hsame f c (hk.activation ha)).2] at hentered
    exact absurd hzero hentered

/-- An edit that has nothing to do with constructors that run on the object. -/
structure Aside (o : Nat) (s s' : Store) : Prop where
  frames_le : s.frames.size ≤ s'.frames.size
  objects_le : s.objects.size ≤ s'.objects.size
  classes_le : s.classes.size ≤ s'.classes.size
  superclass : ∀ c < s.classes.size, (s'.classCell c).superclass = (s.classCell c).superclass
  frame : ∀ f < s.frames.size, s'.frame f = s.frame f
  added : ∀ f, s.frames.size ≤ f → (s'.frame f).pending = none
  class? : o < s.objects.size → (s'.object o).class? = (s.object o).class?
  initialized : o < s.objects.size → s'.initialized o = s.initialized o

namespace Aside

theorem refl (o : Nat) (s : Store) : s.Aside o s where
  frames_le := Nat.le_refl _
  objects_le := Nat.le_refl _
  classes_le := Nat.le_refl _
  superclass _ _ := rfl
  frame _ _ := rfl
  added f hf := by
    rw [frame_of_size_le hf]
    rfl
  class? _ := rfl
  initialized _ := rfl

theorem activation (h : s.Aside o s') {o' : Nat} (ha : s'.Activation o' c f) :
    s.Activation o' c f ∧ s'.frame f = s.frame f := by
  by_cases hf : f < s.frames.size
  · have heq := h.frame f hf
    exact ⟨⟨heq ▸ ha.pending, heq ▸ ha.constructorOf⟩, heq⟩
  · have hpending := h.added f (Nat.le_of_not_lt hf)
    rw [ha.pending] at hpending
    cases hpending

theorem kept (h : s.Aside o s') (hs : s.ActivationsKnown) : s.Kept o s' where
  frames_le := h.frames_le
  objects_le := h.objects_le
  classes_le := h.classes_le
  superclass := h.superclass
  frame f hf := h.frame f hf ▸ .refl _
  class? := h.class?
  initialized ho := h.initialized ho ▸ List.prefix_refl _
  known f v hv := by
    by_cases hf : f < s.frames.size
    · have heq := h.frame f hf
      obtain ⟨o', c', rfl, ha, ho, hc⟩ := hs f v (heq ▸ hv)
      refine ⟨o', c', rfl, ⟨?_, ?_⟩, Nat.lt_of_lt_of_le ho h.objects_le,
        Nat.lt_of_lt_of_le hc h.classes_le⟩
      · rw [heq, ha.pending]
      · rw [heq, ha.constructorOf]
    · rw [h.added f (Nat.le_of_not_lt hf)] at hv
      cases hv

theorem passing (h : s.Aside o s') (hs : s.ActivationsKnown) (ho : o < s.objects.size) :
    s.Passing o s' :=
  .of_same (h.kept hs) (fun _ _ ha => h.activation ha) (h.initialized ho)

theorem setObject (s : Store) (r : Nat) {f : ObjectCell → ObjectCell}
    (hclass : ∀ cell, (f cell).class? = cell.class?)
    (hinitialized : ∀ cell, (f cell).initialized = cell.initialized) :
    s.Aside o (s.setObject r f) := by
  have hobject : (s.setObject r f).object o =
      if r = o ∧ o < s.objects.size then f (s.object o) else s.object o := getD_modify ..
  refine { Aside.refl o s with objects_le := ?_, class? := fun _ => ?_, initialized := fun _ => ?_ }
  · simp [Store.setObject]
  · rw [hobject]
    split
    · exact hclass _
    · rfl
  · rw [Store.initialized, hobject]
    split
    · exact hinitialized _
    · rfl

theorem addObject (s : Store) (cell : ObjectCell) : s.Aside o (s.addObject cell).2 := by
  have hobject : o < s.objects.size → (s.addObject cell).2.object o = s.object o := by
    intro ho
    refine (getD_push ..).trans ?_
    rw [if_neg (Nat.ne_of_lt ho)]
    rfl
  refine { Aside.refl o s with
    objects_le := ?_, class? := fun ho => ?_, initialized := fun ho => ?_ }
  · simp [Store.addObject]
  · rw [hobject ho]
  · rw [Store.initialized, hobject ho]
    rfl

theorem setClass (s : Store) (r : Nat) {f : ClassCell → ClassCell}
    (hf : ∀ cell, (f cell).superclass = cell.superclass) : s.Aside o (s.setClass r f) := by
  refine { Aside.refl o s with classes_le := ?_, superclass := ?_ }
  · simp [Store.setClass]
  · intro c _
    have hclass : (s.setClass r f).classCell c =
        if r = c ∧ c < s.classes.size then f (s.classCell c) else s.classCell c := getD_modify ..
    rw [hclass]
    split
    · exact hf _
    · rfl

theorem addClass (s : Store) (cell : ClassCell) : s.Aside o (s.addClass cell).2 := by
  refine { Aside.refl o s with classes_le := ?_, superclass := ?_ }
  · simp [Store.addClass]
  · intro c hc
    have hclass : (s.addClass cell).2.classCell c =
        if c = s.classes.size then cell else s.classCell c := getD_push ..
    rw [hclass, if_neg (Nat.ne_of_lt hc)]

theorem addFrame (s : Store) {frame : Frame} (hframe : frame.pending = none) :
    s.Aside o (s.addFrame frame).2 := by
  have hget : ∀ f, (s.addFrame frame).2.frame f =
      if f = s.frames.size then frame else s.frame f := fun f => getD_push ..
  refine { Aside.refl o s with frames_le := ?_, frame := fun f hf => ?_, added := fun f hf => ?_ }
  · simp [Store.addFrame]
  · rw [hget, if_neg (Nat.ne_of_lt hf)]
  · rw [hget]
    split
    · exact hframe
    · rw [frame_of_size_le hf]
      rfl

theorem setOther (s : Store) {r : Nat} (hne : o ≠ r) (f : ObjectCell → ObjectCell) :
    s.Aside o (s.setObject r f) := by
  have hobject : (s.setObject r f).object o = s.object o := by
    refine (getD_modify ..).trans ?_
    rw [if_neg fun h => hne h.1.symm]
    rfl
  refine { Aside.refl o s with objects_le := ?_, class? := fun _ => ?_, initialized := fun _ => ?_ }
  · simp [Store.setObject]
  · rw [hobject]
  · rw [Store.initialized, hobject]
    rfl

end Aside

theorem Write.aside (h : s.Write s') : s.Aside o s' := by
  cases h with
  | addObject => exact .addObject s {}
  | setObject r f => exact .setObject s r (fun _ => rfl) fun _ => rfl
  | setStatics c f => exact .setClass s c fun _ => rfl
  | _ => exact { Aside.refl o s with }

theorem Edit.aside (h : s.Edit s') : s.Aside o s' := by
  cases h with
  | write h => exact h.aside
  | addFrame f hf => exact .addFrame s hf
  | addClass c => exact .addClass s c
  | setShared c f => exact .setClass s c fun _ => rfl
  | _ => exact { Aside.refl o s with }

/-- Edits before and after that have nothing to do with the object make no difference. -/
structure Framed (o : Nat) (D : Store → Store → Prop) : Prop where
  before : ∀ {s s' s'' : Store}, s.ActivationsKnown → o < s.objects.size → s.Aside o s' →
    s'.Kept o s'' → D s' s'' → D s s''
  after : ∀ {s s' s'' : Store}, s.ActivationsKnown → o < s.objects.size → s.Kept o s' → D s s' →
    s'.Aside o s'' → D s s''

theorem Adds.framed {l own : List Nat} : Framed o (Adds l own o) where
  before hs ho haside hk h := Adds.trans hs (haside.kept hs) (haside.passing hs ho).toAdds hk h
  after hs ho hk h haside := by
    have hrest := haside.passing hk.known (Nat.lt_of_lt_of_le ho hk.objects_le)
    have hall := Adds.trans hs hk h (haside.kept hk.known) hrest.toAdds
    rwa [List.append_nil, List.append_nil] at hall

theorem Passing.framed : Framed o (Passing o) where
  before hs ho haside hk h := (haside.passing hs ho).trans hs (haside.kept hs) hk h
  after hs ho hk h haside :=
    have hrest := haside.passing hk.known (Nat.lt_of_lt_of_le ho hk.objects_le)
    h.trans hs hk (haside.kept hk.known) hrest

/-- What a step keeps however it ends, and what is true of it when it returns. -/
structure Yields {α : Type} (o : Nat) (D : Store → Store → Prop) (s : Store)
    (out : Except Stop α × Store) : Prop where
  kept : s.Kept o out.2
  returned : ∀ a, out.1 = .ok a → out.2.Lines → o < s.objects.size → D s out.2

namespace Yields

variable {α β : Type} {D E F : Store → Store → Prop} {x : EvalM α} {k : α → EvalM β}
  {out : Except Stop α × Store}

theorem pure (hs : s.ActivationsKnown) (h : o < s.objects.size → D s s) (a : α) :
    s.Yields o D ((Pure.pure a : EvalM α) s) :=
  ⟨.refl hs, fun _ _ _ => h⟩

theorem throw (hs : s.ActivationsKnown) (stop : Stop) :
    s.Yields o D ((MonadExcept.throw stop : EvalM α) s) :=
  ⟨.refl hs, fun _ h => nomatch h⟩

theorem bind (hx : s.Yields o D (x s))
    (hk : ∀ a s', x s = (.ok a, s') → s.Kept o s' → s'.Yields o E (k a s'))
    (hF : ∀ s' s'', o < s.objects.size → s.Kept o s' → D s s' → s'.Kept o s'' → E s' s'' →
      s''.Lines → F s s'') :
    s.Yields o F ((x >>= k) s) := by
  rcases hout : x s with ⟨stop | a, s'⟩
  · rw [hout] at hx
    rw [bind_error hout]
    exact ⟨hx.kept, fun _ h => nomatch h⟩
  · rw [hout] at hx
    rw [bind_ok hout]
    have hrest := hk a s' hout hx.kept
    refine ⟨hx.kept.trans hrest.kept, fun b hb hlines ho => ?_⟩
    have ho' := Nat.lt_of_lt_of_le ho hx.kept.objects_le
    exact hF s' _ ho hx.kept (hx.returned a rfl (hrest.kept.lines hlines) ho) hrest.kept
      (hrest.returned b hb hlines ho') hlines

theorem mono (h : s.Yields o D out) (hE : ∀ s', s'.Lines → s.Kept o s' → D s s' → E s s') :
    s.Yields o E out :=
  ⟨h.kept, fun a ha hlines ho => hE _ hlines h.kept (h.returned a ha hlines ho)⟩

theorem after (hk : s.Kept o s') (h : s'.Yields o D out)
    (hE : o < s.objects.size → s'.Kept o out.2 → D s' out.2 → E s out.2) : s.Yields o E out :=
  ⟨hk.trans h.kept, fun a ha hlines ho =>
    hE ho h.kept (h.returned a ha hlines (Nat.lt_of_lt_of_le ho hk.objects_le))⟩

theorem between (hD : Framed o D) (hs : s.ActivationsKnown) (hbefore : s.Aside o s')
    (h : s'.Yields o D out) (hafter : out.2.Aside o s'') : s.Yields o D (out.1, s'') := by
  have hkept := hbefore.kept hs
  have hlast := hafter.kept h.kept.known
  refine ⟨hkept.trans (h.kept.trans hlast), fun a ha hlines ho => ?_⟩
  have hout := h.returned a ha (hlast.lines hlines) (Nat.lt_of_lt_of_le ho hkept.objects_le)
  exact hD.after hs ho (hkept.trans h.kept) (hD.before hs ho hbefore h.kept hout) hafter

theorem holding (hD : Framed o D) (hs : s.ActivationsKnown) (vs : List Value)
    (hx : ∀ s', s.Aside o s' → s'.classes = s.classes → s'.Yields o D (x s')) :
    s.Yields o D (EvalM.holding vs x s) :=
  have hbefore : s.Aside o { s with held := vs :: s.held } := { Aside.refl o s with }
  between hD hs hbefore (hx _ hbefore rfl) { Aside.refl o _ with }

theorem inScope (hD : Framed o D) (hs : s.ActivationsKnown) (scope : Nat)
    (hx : ∀ s', s.Aside o s' → s'.Yields o D (x s')) : s.Yields o D (EvalM.inScope scope x s) :=
  have hbefore : s.Aside o { s with running := scope :: s.running } := { Aside.refl o s with }
  between hD hs hbefore (hx _ hbefore) { Aside.refl o _ with }

theorem asCall (hD : Framed o D) (hs : s.ActivationsKnown)
    (hx : ∀ s', s.Aside o s' → s'.classes = s.classes → s'.Yields o D (x s')) :
    s.Yields o D (EvalM.asCall x s) := by
  unfold EvalM.asCall
  split
  · have hbefore : s.Aside o
        { s with depth := s.depth + 1, deepest := max s.deepest (s.depth + 1) } :=
      { Aside.refl o s with }
    exact between hD hs hbefore (hx _ hbefore rfl) { Aside.refl o _ with }
  · exact ⟨.refl hs, fun _ h => nomatch h⟩

theorem relabel (h : s.Yields o D (x s)) (label : String) :
    s.Yields o D (EvalM.relabel label x s) := by
  rcases hout : x s with ⟨stop | a, s'⟩
  · have hfault : ∃ stop', EvalM.relabel label x s = (.error stop', s') := by
      unfold EvalM.relabel
      rw [tryCatch_error hout]
      cases stop with
      | fault e =>
        dsimp only
        split
        · exact ⟨_, rfl⟩
        · exact ⟨_, rfl⟩
      | _ => exact ⟨_, rfl⟩
    obtain ⟨stop', hfault⟩ := hfault
    rw [hout] at h
    rw [hfault]
    exact ⟨h.kept, fun _ h => nomatch h⟩
  · have hsame : EvalM.relabel label x s = (.ok a, s') := tryCatch_ok hout
    rw [hsame, ← hout]
    exact h

end Yields

end Store

/-- What code adds for the object `o` in a store that has `n` objects or more. -/
def Advances {α : Type} (n o : Nat) (x : EvalM α) : Prop :=
  ∀ ⦃s : Store⦄, s.ActivationsKnown → n ≤ s.objects.size → s.Yields o (Store.Passing o) (x s)

namespace Advances

variable {α β : Type} {n o : Nat} {x : EvalM α} {k : α → EvalM β}

theorem mono (h : Advances 0 o x) (n : Nat) : Advances n o x :=
  fun _ hs _ => h hs (Nat.zero_le _)

theorem pure (a : α) : Advances n o (Pure.pure a : EvalM α) :=
  fun s hs _ => .pure hs (Store.Aside.passing (.refl o s) hs) a

theorem throw (stop : Stop) : Advances n o (MonadExcept.throw stop : EvalM α) :=
  fun _ hs _ => .throw hs stop

theorem bind (hx : Advances n o x) (hk : ∀ a, Advances n o (k a)) : Advances n o (x >>= k) := by
  intro s hs hn
  refine (hx hs hn).bind (E := Store.Passing o) (fun a s' _ hkept => ?_)
    fun s' s'' _ hkept h hkept' h' _ => h.trans hs hkept hkept' h'
  exact hk a hkept.known (Nat.le_trans hn hkept.objects_le)

theorem read {k : Store → EvalM α} (h : ∀ s, Advances n o (k s)) :
    Advances n o (MonadState.get >>= k) :=
  fun s hs hn => h s hs hn

theorem aside {add : Store → α × Store} (h : ∀ s : Store, s.Aside o (add s).2) :
    Advances n o (EvalM.make add) :=
  fun s hs _ => ⟨(h s).kept hs, fun _ _ _ => (h s).passing hs⟩

theorem rules : StepRules fun _ x => Advances n o x where
  pure := .pure
  throw := .throw
  bind := .bind
  choose _ hy h := fun s hs hn => h s ▸ hy s hs hn
  holding hx vs := fun _ hs hn => .holding Store.Passing.framed hs vs fun _ haside _ =>
    hx (haside.kept hs).known (Nat.le_trans hn haside.objects_le)
  inScope hx scope := fun _ hs hn => .inScope Store.Passing.framed hs scope fun _ haside =>
    hx (haside.kept hs).known (Nat.le_trans hn haside.objects_le)
  relabel hx label := fun _ hs hn => .relabel (hx hs hn) label

theorem asCall (hx : Advances n o x) : Advances n o (EvalM.asCall x) :=
  fun _ hs hn => .asCall Store.Passing.framed hs fun _ haside _ =>
    hx (haside.kept hs).known (Nat.le_trans hn haside.objects_le)

end Advances

theorem Composed.advances {α : Type} {n o : Nat} {x : EvalM α}
    (hx : Composed (fun _ x => Advances n o x) x) : Advances n o x :=
  hx.has Advances.rules id

end Typings
