import Typings.Proofs.Eval.Access

namespace Typings.EvalM

variable {lax : Prop} {n : Nat} {m : Machine} {s : Store} {v a b this callback array : Value}
variable {args : List Value} {key : String} {c r : Nat}

theorem unary_behaves (hs : s.Ready lax) (op : UnaryOp) (v : Value) :
    Behaves lax n s (Value.Known lax) (unary op v s) := by
  have hnumber : ∀ f : Float → Value, (∀ x k, (f x).Known lax k) →
      Behaves lax n s (Value.Known lax) ((do return f (← numberOf v) : EvalM Value) s) :=
    fun f hf => (Behaves.numberOf v).bind hs fun x _ _ _ _ => .pure (hf x _)
  cases op with
  | negate => exact hnumber (fun x => .number (-x)) fun _ _ => trivial
  | plus => exact hnumber .number fun _ _ => trivial
  | bitNot =>
    exact hnumber (fun x => wordValue (-(signedWord (floatToWord x)) - 1)) fun _ _ => trivial
  | _ => exact .pure trivial

theorem isInstance_behaves (hs : s.Ready lax) (v target : Value) :
    Behaves lax n s (fun _ _ => True) (isInstance v target s) := by
  refine .get ?_
  cases target with
  | classOf c =>
    cases v with
    | object r => exact .pure trivial
    | _ => exact .pure trivial
  | function f => exact .pure trivial
  | host r path => exact .pure trivial
  | _ => exact failWith_behaves hs _ .noInstancesOf

theorem arithmetic_behaves (hs : s.Ready lax) (a b : Value) {f : Float → Float → Value}
    (hf : ∀ x y k, (f x y).Known lax k) : Behaves lax n s (Value.Known lax) (arithmetic a b f s) :=
  (Behaves.numberOf a).bind hs fun x _ _ hs₁ _ =>
    (Behaves.numberOf b).bind hs₁ fun y _ _ _ _ => .pure (hf x y _)

theorem equality_behaves (hs : s.Ready lax) (a b : Value) (test : Bool → Bool) :
    Behaves lax n s (Value.Known lax) (equality a b test s) :=
  (Behaves.converted (fun _ _ => trivial) Store.looseEquals_eq_none).bind (P := fun _ _ => True) hs
    fun _ _ _ _ _ => .pure trivial

theorem ordered_behaves (hs : s.Ready lax) (a b : Value) (test : Ordering → Bool) :
    Behaves lax n s (Value.Known lax) (ordered a b test s) :=
  (Behaves.converted (fun _ _ => trivial) Store.order_eq_none).bind (P := fun _ _ => True) hs
    fun _ _ _ _ _ => .pure trivial

theorem binary_behaves (hs : s.Ready lax) (op : BinaryOp) (a b : Value) :
    Behaves lax n s (Value.Known lax) (binary op a b s) := by
  cases op with
  | add =>
    unfold binary
    dsimp only
    split
    · exact arithmetic_behaves hs a b fun _ _ _ => trivial
    · exact (Behaves.textOf a).bind hs fun _ _ _ hs₁ _ =>
        (Behaves.textOf b).bind hs₁ fun _ _ _ _ _ => .pure trivial
  | equal => exact equality_behaves hs a b id
  | notEqual => exact equality_behaves hs a b (!·)
  | strictEqual => exact .pure trivial
  | strictNotEqual => exact .pure trivial
  | less => exact ordered_behaves hs a b (·.isLT)
  | lessEqual => exact ordered_behaves hs a b (·.isLE)
  | greater => exact ordered_behaves hs a b (·.isGT)
  | greaterEqual => exact ordered_behaves hs a b (·.isGE)
  | instanceOf => exact (isInstance_behaves hs a b).bind hs fun _ _ _ _ _ => .pure trivial
  | isIn =>
    exact (Behaves.textOf a).bind hs fun key _ _ hs₁ _ =>
      (hasProperty_behaves b key).bind hs₁ fun _ _ _ _ _ => .pure trivial
  | _ => exact arithmetic_behaves hs a b fun _ _ _ => trivial

theorem array_known (hs : s.Sound lax) (r : Nat) : s.KnowsAll lax (s.array r).toList :=
  fun v hv => hs.values.arrays r v (Array.mem_toList_iff.1 hv)

theorem receiverText_behaves (hs : s.Ready lax) (v : Value) :
    Behaves lax n s (fun _ _ => True) (receiverText v s) := by
  cases v with
  | string t => exact .pure trivial
  | _ => exact failWith_behaves hs _ .notString

theorem receiverArray_behaves (hs : s.Ready lax) (v : Value) :
    Behaves lax n s (fun _ _ => True) (receiverArray v s) := by
  cases v with
  | array r => exact .pure trivial
  | _ => exact failWith_behaves hs _ .notArray

theorem position_behaves (hs : s.Ready lax) (v : Value) (len default : Nat) :
    Behaves lax n s (fun _ _ => True) (position v len default s) := by
  unfold position
  split
  · exact .pure trivial
  · exact (Behaves.numberOf v).bind hs fun _ _ _ _ _ => .pure trivial

theorem slice_behaves {α : Type} (hs : s.Ready lax) (items : List α) (args : List Value) :
    Behaves lax n s (fun _ out => out.Sublist items) (slice items args s) := by
  refine (position_behaves hs _ _ _).bind hs fun start s₁ _ hs₁ _ => ?_
  refine (position_behaves hs₁ _ _ _).bind hs₁ fun stop s₂ _ _ _ => .pure ?_
  exact (List.drop_sublist ..).trans (List.take_sublist ..)

theorem newArray_behaves {items : List Value} (h : s.KnowsAll lax items)
    (hsize : items.length ≤ s.arrayBound ∨ lax) :
    Behaves lax n s (Value.Known lax) (newArray items s) := by
  refine .change (.addArray _ (fun v hv => h v ?_) hsize) trivial rfl rfl
  simpa using hv

theorem gather_behaves {items : List Value} (h : s.KnowsAll lax items) :
    Behaves lax n s (Value.Known lax) (make (·.gather items.toArray) s) := by
  have hnote : s.Evolves lax { s with gathered := max s.gathered items.length } :=
    (Store.Change.note s.depth s.deepest _ s.running s.held (Nat.le_max_left ..)).evolves
  have hadd := newArray_behaves (n := n) (s := { s with gathered := max s.gathered items.length })
    h (.inl (Nat.le_trans (Nat.le_max_right ..) (Nat.le_max_right ..)))
  exact ⟨hnote.trans hadd.evolves, hadd.depth, hadd.deepest, trivial⟩

theorem extend_behaves (hs : s.Ready lax) (r : Nat) (h : s.KnowsAll lax args) :
    Behaves lax n s (fun _ _ => True) ((modify (·.extend r args.toArray) : EvalM Unit) s) := by
  let s₁ : Store := { s with gathered := max s.gathered ((s.array r).size + args.toArray.size) }
  have hnote : s.Evolves lax s₁ :=
    (Store.Change.note s.depth s.deepest _ s.running s.held (Nat.le_max_left ..)).evolves
  have hset : Store.Change lax s₁ (s₁.setArray r (· ++ args.toArray)) := by
    refine .setArray r _ ?_ (.inl ?_)
    · intro v hv
      rcases Array.mem_append.1 hv with hv | hv
      · exact hs.sound.values.arrays r v hv
      · exact h v (by simpa using hv)
    · rw [Array.size_append]
      exact Nat.le_trans (Nat.le_max_right ..) (Nat.le_max_right ..)
  exact ⟨hnote.trans hset.evolves, rfl, Nat.le_max_left .., trivial⟩

/-- A built-in function picks the item or the result of its callback, or nothing. -/
def Picks (pick : Value → Value → Option Value) : Prop :=
  ∀ item result v, pick item result = some v → v = item ∨ v = result

section
variable (hm : m.Sound lax n) (hs : s.Ready lax)
include hm hs

theorem eachItem_behaves {pick : Value → Value → Option Value} (hpick : Picks pick) (i : Nat)
    {found items : List Value} (hf : s.KnowsAll lax found) (hi : s.KnowsAll lax items)
    (ha : s.Knows lax array) :
    Behaves lax n s
      (fun k vs => Value.AllKnown lax k vs ∧ vs.length ≤ found.length + items.length)
      (eachItem m callback array pick i found items s) := by
  induction items generalizing s i found with
  | nil => exact .pure ⟨hf, Nat.le_refl _⟩
  | cons item rest ih =>
    have hcall : Behaves lax n s (Value.Known lax) (holding found (holding (item :: rest)
        (callValue m callback .undefined [item, .number (floatOfInt i), array])) s) := by
      refine .holding hs fun s₁ h₁ hs₁ => .holding hs₁ fun s₂ h₂ hs₂ => ?_
      have h := h₁.trans h₂
      have hitem : s₂.Knows lax item := Store.Knows.later (hi item (by simp)) h
      exact callValue_behaves hm hs₂ trivial (.cons hitem (.cons trivial (.cons (ha.later h) .nil)))
    refine hcall.bind hs fun result s₁ h₁ hs₁ hresult => ?_
    have hi₁ : s₁.KnowsAll lax (item :: rest) := hi.later h₁
    have hpicked : ((pick item result).toList ++ found).length ≤ found.length + 1 := by
      cases pick item result <;> simp
    have hfound : s₁.KnowsAll lax ((pick item result).toList ++ found) := by
      refine .append ?_ (hf.later h₁)
      intro v hv
      rcases hpick item result v (by simpa using hv) with rfl | rfl
      · exact hi₁ v (by simp)
      · exact hresult
    refine (ih hs₁ (i + 1) hfound (fun v hv => hi₁ v (by simp [hv])) (ha.later h₁)).mono ?_
    intro k vs hvs
    refine ⟨hvs.1, Nat.le_trans hvs.2 ?_⟩
    rw [List.length_cons]
    omega

theorem visit_behaves {pick : Value → Value → Option Value} (hpick : Picks pick)
    (ht : s.Knows lax this) (args : List Value) :
    Behaves lax n s
      (fun k vs => Value.AllKnown lax k vs ∧ (vs.length ≤ s.arrayBound ∨ lax))
      (visit m this args pick s) := by
  unfold visit
  cases this with
  | array r =>
    simp only [receiverArray, pure_bind]
    refine .get ?_
    split
    · refine (eachItem_behaves hm hs hpick 0 .nil (array_known hs.sound r) ht).bind hs ?_
      intro found s₂ _ _ hfound
      refine .pure ⟨fun v hv => hfound.1 v (List.mem_reverse.1 hv), ?_⟩
      refine (hs.sound.lengths r).imp_left fun hlen => ?_
      rw [List.length_reverse]
      exact Nat.le_trans hfound.2 (by simpa using hlen)
    · exact (Behaves.textOf _).bind hs fun _ _ _ _ _ => .fail_bind ..
  | _ =>
    exact (failWith_behaves (Q := fun _ _ => False) hs _ .notArray).bind hs
      fun _ _ _ _ hfalse => hfalse.elim

omit hm in
theorem textBuiltin_behaves {f : String → String → Value} (hf : ∀ x y k, (f x y).Known lax k) :
    Behaves lax n s (Value.Known lax)
      ((do
        let text ← receiverText this
        let other ← textOf (argument args 0)
        return f text other : EvalM Value) s) :=
  (receiverText_behaves hs this).bind hs fun _ _ _ hs₁ _ =>
    (Behaves.textOf _).bind hs₁ fun _ _ _ _ _ => .pure (hf ..)

theorem runBuiltin_behaves (b : Builtin) (ht : s.Knows lax this) (ha : s.KnowsAll lax args) :
    Behaves lax n s (Value.Known lax) (runBuiltin m b this args s) := by
  cases b with
  | parseInt =>
    refine (Behaves.textOf _).bind hs fun text s₁ _ hs₁ _ => ?_
    by_cases hradix : (argument args 1).isUndefined
    · rw [if_pos hradix]
      exact .pure trivial
    · rw [if_neg hradix]
      exact (Behaves.numberOf _).bind hs₁ fun _ _ _ _ _ => .pure trivial
  | parseFloat => exact (Behaves.textOf _).bind hs fun _ _ _ _ _ => .pure trivial
  | isNaN => exact (Behaves.numberOf _).bind hs fun _ _ _ _ _ => .pure trivial
  | charAt =>
    exact (receiverText_behaves hs this).bind hs fun _ _ _ hs₁ _ =>
      (Behaves.numberOf _).bind hs₁ fun _ _ _ _ _ => .pure trivial
  | textIndexOf => exact textBuiltin_behaves hs fun _ _ _ => trivial
  | textIncludes => exact textBuiltin_behaves hs fun _ _ _ => trivial
  | startsWith => exact textBuiltin_behaves hs fun _ _ _ => trivial
  | endsWith => exact textBuiltin_behaves hs fun _ _ _ => trivial
  | textSlice =>
    exact (receiverText_behaves hs this).bind hs fun text _ _ hs₁ _ =>
      (slice_behaves hs₁ text.toList args).bind hs₁ fun _ _ _ _ _ => .pure trivial
  | toUpperCase => exact (receiverText_behaves hs this).bind hs fun _ _ _ _ _ => .pure trivial
  | toLowerCase => exact (receiverText_behaves hs this).bind hs fun _ _ _ _ _ => .pure trivial
  | trim => exact (receiverText_behaves hs this).bind hs fun _ _ _ _ _ => .pure trivial
  | toText => exact (receiverText_behaves hs this).bind hs fun _ _ _ _ _ => .pure trivial
  | push =>
    refine (receiverArray_behaves hs this).bind hs fun r s₁ h₁ hs₁ _ => ?_
    exact (extend_behaves hs₁ r (ha.later h₁)).bind hs₁ fun _ _ _ _ _ => .get (.pure trivial)
  | pop =>
    refine (receiverArray_behaves hs this).bind hs fun r s₁ h₁ hs₁ _ => .get ?_
    refine Behaves.bind (P := fun _ _ => True) hs₁ (.change (.setArray r _ ?_ ?_) trivial rfl rfl)
      fun _ s₂ h₂ _ _ => ?_
    · intro v hv
      rw [← Array.mem_toList_iff, Array.toList_pop] at hv
      exact array_known hs₁.sound r v ((List.dropLast_sublist _).subset hv)
    · rw [Array.size_pop]
      exact (hs₁.sound.lengths r).imp_left fun hlen => Nat.le_trans (Nat.sub_le ..) hlen
    · refine .pure (Store.Knows.later (s := s₁) ?_ h₂)
      cases hlast : (s₁.array r).back? with
      | none => trivial
      | some v => exact hs₁.sound.values.arrays r v (Array.mem_of_back? hlast)
  | arrayIndexOf =>
    exact (receiverArray_behaves hs this).bind hs fun _ _ _ _ _ => .get (.pure trivial)
  | arrayIncludes =>
    exact (receiverArray_behaves hs this).bind hs fun _ _ _ _ _ => .get (.pure trivial)
  | join =>
    refine (receiverArray_behaves hs this).bind hs fun r s₁ h₁ hs₁ _ => ?_
    have htexts : ∀ (separator : String) (s₂ : Store), s₂.Ready lax →
        Behaves lax n s₂ (Value.Known lax) ((do
          let texts ← ((← get).array r).toList.mapM fun v =>
            if v.isNullish then pure "" else textOf v
          return .string (separator.intercalate texts) : EvalM Value) s₂) := by
      intro separator s₂ hs₂
      refine .get (Behaves.bind hs₂ (.mapM hs₂ fun v _ s₃ _ => ?_) fun _ _ _ _ _ => .pure trivial)
      split
      · exact .pure trivial
      · exact .textOf v
    dsimp only
    split
    · exact htexts "," s₁ hs₁
    · exact (Behaves.textOf _).bind hs₁ fun separator s₂ _ hs₂ _ => htexts separator s₂ hs₂
  | arraySlice =>
    refine (receiverArray_behaves hs this).bind hs fun r s₁ _ hs₁ _ => .get ?_
    refine (slice_behaves hs₁ (s₁.array r).toList args).bind hs₁ fun items s₂ h₂ _ hitems => ?_
    refine newArray_behaves (fun v hv => ?_) (h₂.inBounds ?_)
    · exact (array_known hs₁.sound r).later h₂ v (hitems.subset hv)
    · exact (hs₁.sound.lengths r).imp_left fun hlen => Nat.le_trans hitems.length_le hlen
  | concat =>
    refine (receiverArray_behaves hs this).bind hs fun r s₁ h₁ hs₁ _ => .get ?_
    refine gather_behaves (.append (array_known hs₁.sound r) ?_)
    intro v hv
    obtain ⟨arg, harg, hv⟩ := List.mem_flatMap.1 hv
    split at hv
    · exact array_known hs₁.sound _ v hv
    · cases List.mem_singleton.1 hv
      exact ha.later h₁ v harg
  | map =>
    refine (visit_behaves hm hs ?_ ht args).bind hs fun _ _ h₁ _ h =>
      newArray_behaves h.1 (h₁.inBounds h.2)
    rintro item result v ⟨⟩
    exact .inr rfl
  | filter =>
    refine (visit_behaves hm hs ?_ ht args).bind hs fun _ _ h₁ _ h =>
      newArray_behaves h.1 (h₁.inBounds h.2)
    intro item result v hv
    dsimp only at hv
    split at hv
    · cases hv
      exact .inl rfl
    · cases hv
  | forEach =>
    refine (visit_behaves hm hs ?_ ht args).discard.bind hs fun _ _ _ _ _ => .pure trivial
    rintro item result v ⟨⟩

end

end Typings.EvalM
