import Typings.Proofs.Eval.Behavior

namespace Typings

/-- The calls of a machine of `n` levels behave, whatever they are given. -/
structure Machine.Sound (lax : Prop) (n : Nat) (m : Machine) : Prop where
  call : ∀ {s} f {this args}, s.Ready lax → s.Knows lax this → s.KnowsAll lax args →
    Behaves lax n s (Value.Known lax) (m.call f this args s)
  build : ∀ {s} c {this args}, s.Ready lax → s.Knows lax this → s.KnowsAll lax args →
    Behaves lax n s (fun _ _ => True) (m.build c this args s)
  superCall : ∀ {s} scope {args}, s.Ready lax → s.KnowsAll lax args →
    Behaves lax n s (fun _ _ => True) (m.superCall scope args s)

namespace EvalM

variable {lax : Prop} {n : Nat} {m : Machine} {s : Store} {v base callee receiver : Value}
variable {args : List Value} {key : String} {c r : Nat}

theorem addHost_behaves (path : String) :
    Behaves lax n s (Value.Known lax) (make (·.addHost path) s) :=
  .change (.addHost path) trivial rfl rfl

theorem addObject_behaves {class? : Option Nat} (hc : ∀ c ∈ class?, s.Knows lax (.classOf c)) :
    Behaves lax n s (Value.Known lax) (make (·.addObject { class? }) s) :=
  .change (.addObject _ ⟨hc, .empty⟩) trivial rfl rfl

theorem failWith_behaves {α : Type} {Q : Nat → α → Prop} (hs : s.Ready lax) (v : Value)
    (fault : String → Fault) : Behaves lax n s Q ((do fail (fault (← textOf v)) : EvalM α) s) :=
  (Behaves.textOf v).bind hs fun _ _ _ _ _ => .fail _

section
variable (hm : m.Sound lax n) (hs : s.Ready lax)
include hm hs

theorem callValue_behaves (hr : s.Knows lax receiver) (ha : s.KnowsAll lax args) :
    Behaves lax n s (Value.Known lax) (callValue m callee receiver args s) := by
  cases callee with
  | function f => exact hm.call f hs hr ha
  | classOf c => exact .fail _
  | host r path => exact addHost_behaves _
  | _ => exact failWith_behaves hs _ .notFunction

theorem construct_behaves (hc : s.Knows lax callee) (ha : s.KnowsAll lax args) :
    Behaves lax n s (Value.Known lax) (construct m callee args s) := by
  cases callee with
  | function f =>
    refine .get ?_
    split
    · refine (addObject_behaves (by simp)).bind hs
        fun this s₁ h₁ hs₁ (hthis : s₁.Knows lax this) => ?_
      refine (Behaves.holding hs₁ fun s₂ h₂ hs₂ =>
        hm.call f hs₂ (hthis.later h₂) (ha.later (h₁.trans h₂))).bind hs₁ fun v s₃ h₃ _ _ => ?_
      cases v with
      | object r => exact .pure trivial
      | array r => exact .pure trivial
      | _ => exact .pure (hthis.later h₃)
    · exact failWith_behaves hs _ .notConstructor
  | classOf c =>
    refine (addObject_behaves (by simpa using hc)).bind hs
      fun this s₁ h₁ hs₁ (hthis : s₁.Knows lax this) => ?_
    refine (Behaves.holding hs₁ fun s₂ h₂ hs₂ =>
      hm.build c hs₂ (hthis.later h₂) (ha.later (h₁.trans h₂))).bind hs₁ fun _ s₃ h₃ _ _ => ?_
    exact .pure (hthis.later h₃)
  | host r path => exact addHost_behaves _
  | _ => exact failWith_behaves hs _ .notConstructor

theorem readSlot_behaves {slot : Slot} (hslot : slot.All (s.Knows lax))
    (hr : s.Knows lax receiver) :
    Behaves lax n s (Value.Known lax) (readSlot m slot receiver s) := by
  match slot with
  | .data v => exact .pure hslot
  | .accessor (some getter) _ =>
    exact .holding hs fun s₁ h₁ hs₁ => callValue_behaves hm hs₁ (hr.later h₁) .nil
  | .accessor none _ => exact .pure trivial

end

theorem rootProperty_behaves (c : Nat) (key : String) :
    Behaves lax n s (Value.Known lax) (rootProperty c key s) := by
  refine .get ?_
  cases s.root c with
  | host r path => exact addHost_behaves _
  | _ => exact .pure trivial

theorem sharedProperty?_known (hs : s.Sound lax) {p : Property}
    (h : s.sharedProperty? c key = some p) :
    p.slot.All (s.Knows lax) := by
  obtain ⟨c', _, hp⟩ := List.exists_of_findSome?_eq_some h
  exact (hs.values.classes c').2.1.get? hp

theorem staticProperty?_known (hs : s.Sound lax) {p : Property}
    (h : s.staticProperty? c key = some p) :
    p.slot.All (s.Knows lax) := by
  obtain ⟨c', _, hp⟩ := List.exists_of_findSome?_eq_some h
  exact (hs.values.classes c').2.2.get? hp

section
variable (hm : m.Sound lax n) (hs : s.Ready lax)
include hm hs

theorem sharedGet_behaves (hc : s.Knows lax (.classOf c)) (hr : s.Knows lax receiver) :
    Behaves lax n s (Value.Known lax) (sharedGet m c key receiver s) := by
  unfold sharedGet
  split
  · exact .pure hc
  · refine .get ?_
    cases hp : s.sharedProperty? c key with
    | some p => exact readSlot_behaves hm hs (sharedProperty?_known hs.sound hp) hr
    | none => exact rootProperty_behaves c key

theorem staticGet_behaves (hr : s.Knows lax receiver) :
    Behaves lax n s (Value.Known lax) (staticGet m c key receiver s) := by
  refine .get ?_
  cases hp : (s.classCell c).statics.get? key with
  | some p => exact readSlot_behaves hm hs ((hs.sound.values.classes c).2.2.get? hp) hr
  | none =>
    split
    · exact .pure trivial
    split
    · exact .pure trivial
    split
    · exact addHost_behaves _
    cases hp : s.staticProperty? c key with
    | some p => exact readSlot_behaves hm hs (staticProperty?_known hs.sound hp) hr
    | none => exact rootProperty_behaves c key

end

theorem getD_known (hs : s.Sound lax) (r i : Nat) :
    s.Knows lax ((s.array r).getD i .undefined) := by
  rw [Array.getD_eq_getD_getElem?]
  cases hi : (s.array r)[i]? with
  | some v => exact hs.values.arrays r v (Array.mem_of_getElem? hi)
  | none => trivial

theorem builtin_behaves (b : Builtin) : Behaves lax n s (Value.Known lax) (builtin b s) :=
  .change (.addFunction _ .empty) trivial rfl rfl

theorem method_behaves (methods : List Builtin) (key : String) :
    Behaves lax n s (Value.Known lax) (method methods key s) := by
  unfold method
  cases methods.find? (·.name == key) with
  | some b => exact builtin_behaves b
  | none => exact .pure trivial

theorem textProperty_behaves (text key : String) :
    Behaves lax n s (Value.Known lax) (textProperty text key s) := by
  unfold textProperty
  split
  · exact .pure trivial
  cases indexOfKey? key with
  | none => exact method_behaves _ key
  | some i =>
    refine .pure ?_
    split <;> trivial

theorem arrayProperty_behaves (r : Nat) (key : String) (hs : s.Sound lax) :
    Behaves lax n s (Value.Known lax) (arrayProperty (s.array r) key s) := by
  unfold arrayProperty
  split
  · exact .pure trivial
  cases indexOfKey? key with
  | none => exact method_behaves _ key
  | some i => exact .pure (getD_known hs r i)

theorem getProperty_behaves (hm : m.Sound lax n) (hs : s.Ready lax) (hb : s.Knows lax base) :
    Behaves lax n s (Value.Known lax) (getProperty m base key s) := by
  refine .get ?_
  cases base with
  | undefined => exact .fail _
  | null => exact .fail _
  | boolean b => exact .pure trivial
  | number x => exact .pure trivial
  | string t => exact textProperty_behaves t key
  | array r => exact arrayProperty_behaves r key hs.sound
  | object r =>
    have ho := hs.sound.values.objects r
    dsimp only
    cases hp : (s.object r).props.get? key with
    | some p => exact readSlot_behaves hm hs (ho.2.get? hp) hb
    | none =>
      cases hc : (s.object r).class? with
      | some c => exact sharedGet_behaves hm hs (ho.1 c hc) hb
      | none => exact .pure trivial
  | function r =>
    dsimp only
    cases hp : (s.function r).props.get? key with
    | some p => exact readSlot_behaves hm hs ((hs.sound.values.functions r).get? hp) hb
    | none =>
      split
      · exact .pure trivial
      split
      · exact .pure trivial
      · exact .pure trivial
  | classOf c => exact staticGet_behaves hm hs hb
  | host r path => exact addHost_behaves _

theorem mem_resize {items : Array Value} {len : Nat} (h : v ∈ resize items len) :
    v ∈ items ∨ v = .undefined := by
  unfold resize at h
  split at h
  · obtain ⟨i, _, rfl⟩ := Array.mem_extract_iff_getElem.1 h
    exact .inl (Array.getElem_mem _)
  · rcases Array.mem_append.1 h with h | h
    · exact .inl h
    · exact .inr (Array.eq_of_mem_replicate h)

theorem mem_modify {items : Array Value} {i : Nat} {v' : Value}
    (h : v ∈ items.modify i fun _ => v') :
    v ∈ items ∨ v = v' := by
  obtain ⟨j, hj⟩ := Array.mem_iff_getElem?.1 h
  rw [Array.getElem?_modify] at hj
  split at hj
  · obtain ⟨_, _, rfl⟩ := Option.map_eq_some_iff.1 hj
    exact .inr rfl
  · exact .inl (Array.mem_of_getElem? hj)

theorem size_resize (items : Array Value) (len : Nat) : (resize items len).size = len := by
  unfold resize
  split
  · rw [Array.take_eq_extract, Array.size_extract]
    omega
  · rw [Array.size_append, Array.size_replicate]
    omega

theorem denseLength_behaves (len : Nat) :
    Behaves lax n s (fun _ len' => len' = len ∧ len ≤ maxDenseLength) (denseLength len s) := by
  unfold denseLength
  split
  · exact .pure ⟨rfl, by assumption⟩
  · exact .fail _

theorem setElement_behaves (hs : s.Ready lax) (r : Nat) (key : String) (hv : s.Knows lax v) :
    Behaves lax n s (fun _ _ => True) (setElement r key v s) := by
  unfold setElement
  split
  · refine (Behaves.lengthOf r v).bind hs fun x s₁ h₁ hs₁ _ => ?_
    dsimp only
    split
    · refine (denseLength_behaves _).bind hs₁ fun len s₂ h₂ hs₂ hlen =>
        .change (.setArray r _ ?_ (.inl ?_)) trivial rfl rfl
      · intro v hv
        rcases mem_resize hv with hv | rfl
        · exact hs₂.sound.values.arrays r v hv
        · trivial
      · rw [size_resize, hlen.1]
        exact Nat.le_trans hlen.2 s₂.limit_le_arrayBound
    · exact .fail_bind ..
  · cases indexOfKey? key with
    | none => exact .pure trivial
    | some i =>
      dsimp only
      split
      · have hlen : Behaves lax n s (fun _ _ => i + 1 ≤ maxDenseLength)
            (discard (denseLength (i + 1)) s) :=
          .map (denseLength_behaves _) fun _ _ h => h.2
        refine hlen.bind hs fun _ s₁ h₁ hs₁ hlen => .change (.setArray r _ ?_ ?_) trivial rfl rfl
        · intro v' hv'
          rcases mem_modify hv' with hv' | rfl
          · split at hv'
            · exact hs₁.sound.values.arrays r v' hv'
            · rcases mem_resize hv' with hv' | rfl
              · exact hs₁.sound.values.arrays r v' hv'
              · trivial
          · exact hv.later h₁
        · rw [Array.size_modify]
          split
          · exact hs₁.sound.lengths r
          · rw [size_resize]
            exact .inl (Nat.le_trans hlen s₁.limit_le_arrayBound)
      · exact .pure trivial

section
variable (hm : m.Sound lax n) (hs : s.Ready lax) (hb : s.Knows lax base) (hv : s.Knows lax v)
include hm hs hb hv

theorem callSetter_behaves (setter : Value) :
    Behaves lax n s (fun _ _ => True) (callSetter m setter base v s) :=
  Behaves.discard <| Behaves.holding hs fun _ h₁ hs₁ =>
    callValue_behaves hm hs₁ (hb.later h₁) (.cons (hv.later h₁) .nil)

theorem writeThrough_behaves (setter : Option Value) (key : String) :
    Behaves lax n s (fun _ _ => True) (writeThrough m setter base key v s) := by
  cases setter with
  | some f => exact callSetter_behaves hm hs hb hv f
  | none => exact .fail _

theorem setProperty_behaves (key : String) :
    Behaves lax n s (fun _ _ => True) (setProperty m base key v s) := by
  refine .get ?_
  cases base with
  | undefined => exact .fail _
  | null => exact .fail _
  | object r =>
    have ho := hs.sound.values.objects r
    have hwrite : Behaves lax n s (fun _ _ => True)
        ((set (s.setObject r fun o => { o with props := o.props.insert key (.data v) }) :
          EvalM Unit) s) :=
      .change (.setObject r _ ⟨ho.1, ho.2.insert (p := .data v) hv key⟩) trivial rfl rfl
    dsimp only
    generalize
      ((s.object r).props.get? key <|> do s.sharedProperty? (← (s.object r).class?) key) = found
    match found with
    | some ⟨.accessor _ setter, _⟩ => exact writeThrough_behaves hm hs hb hv setter key
    | some ⟨.data _, _⟩ => exact hwrite
    | none => exact hwrite
  | array r => exact setElement_behaves hs r key hv
  | function r =>
    have hf := hs.sound.values.functions r
    exact .change (.setFunction r _ (hf.insert (p := .data v) hv key)) trivial rfl rfl
  | classOf c =>
    have hc := hs.sound.values.classes c
    have hwrite : Behaves lax n s (fun _ _ => True)
        ((set (s.setClass c fun c => { c with statics := c.statics.insert key (.data v) }) :
          EvalM Unit) s) :=
      .change (.setClass c _ ⟨hc.1, hc.2.1, hc.2.2.insert (p := .data v) hv key⟩ rfl) trivial
        rfl rfl
    dsimp only
    match s.staticProperty? c key with
    | some ⟨.accessor _ (some setter), _⟩ => exact callSetter_behaves hm hs hb hv setter
    | some ⟨.accessor _ none, _⟩ => exact hwrite
    | some ⟨.data _, _⟩ => exact hwrite
    | none => exact hwrite
  | _ => exact .pure trivial

end

theorem hasProperty_behaves (base : Value) (key : String) :
    Behaves lax n s (fun _ _ => True) (hasProperty base key s) := by
  refine .get ?_
  cases base with
  | object r => exact .pure trivial
  | array r => exact .pure trivial
  | classOf c => exact .pure trivial
  | function f => exact .pure trivial
  | host r path => exact .pure trivial
  | _ => exact .fail _

theorem deleteProperty_behaves (hs : s.Ready lax) (base : Value) (key : String) :
    Behaves lax n s (fun _ _ => True) (deleteProperty base key s) := by
  refine .get ?_
  cases base with
  | object r =>
    have ho := hs.sound.values.objects r
    exact .change (.setObject r _ ⟨ho.1, ho.2.erase key⟩) trivial rfl rfl
  | classOf c =>
    have hc := hs.sound.values.classes c
    exact .change (.setClass c _ ⟨hc.1, hc.2.1, hc.2.2.erase key⟩ rfl) trivial rfl rfl
  | array r =>
    dsimp only
    cases indexOfKey? key with
    | none => exact .pure trivial
    | some i =>
      refine .change (.setArray r _ ?_ ?_) trivial rfl rfl
      · intro v hv
        rcases mem_modify hv with hv | rfl
        · exact hs.sound.values.arrays r v hv
        · trivial
      · rw [Array.size_modify]
        exact hs.sound.lengths r
  | _ => exact .pure trivial

end EvalM

end Typings
