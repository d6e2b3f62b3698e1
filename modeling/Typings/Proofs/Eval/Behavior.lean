import Typings.Proofs.Eval.Search
import Typings.Proofs.Outcome

namespace Typings

variable {lax : Prop} {n : Nat} {s s' : Store} {α β : Type} {P Q : Nat → α → Prop}
  {R : Nat → β → Prop}

/-- A store from which a machine of `n` levels never runs out of levels or of imports to follow. -/
structure Store.Enough (n : Nat) (s : Store) : Prop where
  levels : maxCallDepth < n + s.depth
  imports : s.ImportsSound
  acyclic : s.ImportsAcyclic

theorem Store.Enough.later (h : s.Enough n) (he : s.Evolves lax s') (hd : s'.depth = s.depth) :
    s'.Enough n where
  levels := hd ▸ h.levels
  imports := h.imports.later he.importsKept
  acyclic := h.acyclic.later h.imports he.importsKept

/-- A store in which a step may start. -/
structure Store.Ready (lax : Prop) (s : Store) : Prop where
  sound : s.Sound lax
  depth_le : s.depth ≤ maxCallDepth

theorem Store.Ready.later (h : s.Ready lax) (he : s.Evolves lax s') (hd : s'.depth = s.depth) :
    s'.Ready lax where
  sound := he.sound h.sound
  depth_le := hd ▸ h.depth_le

/-- Why a step that started in `s` may have stopped in `s'`. -/
def Stop.Allowed (lax : Prop) (n : Nat) (s s' : Store) : Stop → Prop
  | .fault _ => True
  | .thrown v => s'.Knows lax v
  | .circular vs => ∃ v ∈ vs, s'.Circular v
  | .locked r v => s'.LeadsTo v r
  | .exhausted => ¬ s.Enough n

/--
How a step on a machine of `n` levels that started in `s` may have ended. `Q` says what its result
has to do with the number of classes.
-/
structure Behaves (lax : Prop) (n : Nat) (s : Store) (Q : Nat → α → Prop)
    (out : Except Stop α × Store) :
    Prop where
  evolves : s.Evolves lax out.2
  depth : out.2.depth = s.depth
  deepest : out.2.deepest ≤ max s.deepest maxCallDepth
  ends : Ends (Q out.2.classes.size) (Stop.Allowed lax n s out.2) out.1

/-- A step behaves wherever it may start. -/
def Safe (lax : Prop) (n : Nat) (Q : Nat → α → Prop) (x : EvalM α) : Prop :=
  ∀ ⦃s⦄, s.Ready lax → Behaves lax n s Q (x s)

namespace Behaves

theorem still {result : Except Stop α}
    (h : Ends (Q s.classes.size) (Stop.Allowed lax n s s) result) :
    Behaves lax n s Q (result, s) :=
  ⟨.refl, rfl, Nat.le_max_left .., h⟩

theorem pure {a : α} (h : Q s.classes.size a) :
    Behaves lax n s Q ((Pure.pure a : EvalM α) s) :=
  still h

theorem fail (f : Fault) : Behaves lax n s Q (EvalM.fail f s) := still trivial

theorem bind {x : EvalM α} {f : α → EvalM β} (hs : s.Ready lax) (hx : Behaves lax n s P (x s))
    (hf : ∀ a s', s.Evolves lax s' → s'.Ready lax → P s'.classes.size a →
      Behaves lax n s' R (f a s')) :
    Behaves lax n s R ((x >>= f) s) := by
  rcases hout : x s with ⟨stop | a, s'⟩
  · rw [hout] at hx
    rw [bind_error hout]
    exact ⟨hx.evolves, hx.depth, hx.deepest, hx.ends⟩
  · rw [hout] at hx
    rw [bind_ok hout]
    obtain ⟨hevolves, hdepth, hdeepest, ha⟩ := hx
    have h := hf a s' hevolves (hs.later hevolves hdepth) ha
    refine ⟨hevolves.trans h.evolves, h.depth.trans hdepth, ?_, ?_⟩
    · exact Nat.le_trans h.deepest (Nat.max_le.2 ⟨hdeepest, Nat.le_max_right ..⟩)
    · refine h.ends.mono (fun _ => id) ?_
      intro stop hstop
      cases stop with
      | exhausted => exact fun henough => hstop (henough.later hevolves hdepth)
      | _ => exact hstop

theorem map {x : EvalM α} {f : α → β} (hx : Behaves lax n s P (x s))
    (hf : ∀ k a, P k a → R k (f a)) :
    Behaves lax n s R ((f <$> x) s) := by
  rcases hout : x s with ⟨stop | a, s'⟩
  · rw [hout] at hx
    rw [map_error hout]
    exact ⟨hx.evolves, hx.depth, hx.deepest, hx.ends⟩
  · rw [hout] at hx
    rw [map_ok hout]
    exact ⟨hx.evolves, hx.depth, hx.deepest, hf _ a hx.ends⟩

theorem mono {out : Except Stop α × Store} (h : Behaves lax n s P out)
    (hP : ∀ k a, P k a → Q k a) : Behaves lax n s Q out :=
  ⟨h.evolves, h.depth, h.deepest, h.ends.mono (fun a => hP _ a) fun _ => id⟩

theorem discard {x : EvalM α} (hx : Behaves lax n s P (x s)) :
    Behaves lax n s (fun _ _ => True) (discard x s) :=
  map hx fun _ _ _ => trivial

theorem fail_bind (f : Fault) (g : α → EvalM β) : Behaves lax n s R ((EvalM.fail f >>= g) s) :=
  still trivial

theorem mapM {f : α → EvalM β} {l : List α} (hs : s.Ready lax)
    (hf : ∀ a ∈ l, ∀ s', s'.Ready lax → Behaves lax n s' (fun _ _ => True) (f a s')) :
    Behaves lax n s (fun _ _ => True) (l.mapM f s) := by
  induction l generalizing s with
  | nil => exact pure trivial
  | cons a l ih =>
    rw [List.mapM_cons]
    refine (hf a (by simp) s hs).bind hs fun b s₁ _ hs₁ _ => ?_
    refine (ih hs₁ fun a ha => hf a (by simp [ha])).bind hs₁ fun _ _ _ _ _ => pure trivial

theorem forM {f : α → EvalM PUnit} {l : List α} (hs : s.Ready lax)
    (hf : ∀ a ∈ l, ∀ s', s.Evolves lax s' → s'.Ready lax →
      Behaves lax n s' (fun _ _ => True) (f a s')) :
    Behaves lax n s (fun _ _ => True) (l.forM f s) := by
  induction l generalizing s with
  | nil => exact pure trivial
  | cons a l ih =>
    refine (hf a (by simp) s .refl hs).bind hs fun _ s₁ h₁ hs₁ _ => ?_
    exact ih hs₁ fun a ha s' h' => hf a (by simp [ha]) s' (h₁.trans h')

theorem get {f : Store → EvalM α} (h : Behaves lax n s Q (f s s)) :
    Behaves lax n s Q ((MonadState.get >>= f) s) := h

theorem change {a : α} (hc : Store.Change lax s s') (hQ : Q s'.classes.size a)
    (hdepth : s'.depth = s.depth) (hdeepest : s'.deepest = s.deepest) :
    Behaves lax n s Q (.ok a, s') :=
  ⟨hc.evolves, hdepth, hdeepest ▸ Nat.le_max_left .., hQ⟩

theorem converted {vs : List Value} {conversion : Store → Option α} (hQ : ∀ k a, Q k a)
    (h : conversion s = none → ∃ v ∈ vs, s.Circular v) :
    Behaves lax n s Q (EvalM.converted vs conversion s) := by
  refine get ?_
  cases hc : conversion s with
  | some a => exact pure (hQ _ a)
  | none => exact still (h hc)

theorem textOf (v : Value) : Behaves lax n s (fun _ _ => True) (EvalM.textOf v s) :=
  converted (fun _ _ => trivial) fun h => ⟨v, by simp, Store.text?_eq_none h⟩

theorem numberOf (v : Value) : Behaves lax n s (fun _ _ => True) (EvalM.numberOf v s) :=
  converted (fun _ _ => trivial) fun h => ⟨v, by simp, Store.number?_eq_none h⟩

theorem lengthOf (r : Nat) (v : Value) :
    Behaves lax n s (fun _ _ => True) (EvalM.lengthOf r v s) := by
  refine get ?_
  split
  · exact still (Store.numberReads_iff.1 ‹_›)
  · exact numberOf v

theorem thrown {v : Value} (hv : s.Knows lax v) :
    Behaves lax n s Q ((throw (.thrown v) : EvalM α) s) := still hv

theorem noted {running running' : List Nat} {held held' : List (List Value)}
    {out : Except Stop α × Store} (h : Behaves lax n { s with running, held } Q out) :
    Behaves lax n s Q (out.1, { out.2 with running := running', held := held' }) := by
  have hstart : s.Evolves lax { s with running, held } := .noted ..
  have hend : out.2.Evolves lax { out.2 with running := running', held := held' } :=
    .noted ..
  refine ⟨(hstart.trans h.evolves).trans hend, h.depth, h.deepest, h.ends.mono (fun _ => id) ?_⟩
  intro stop hstop
  cases stop with
  | exhausted => exact fun henough => hstop (henough.later hstart rfl)
  | _ => exact hstop

theorem holding {vs : List Value} {x : EvalM α} (hs : s.Ready lax)
    (hx : ∀ s', s.Evolves lax s' → s'.Ready lax → Behaves lax n s' Q (x s')) :
    Behaves lax n s Q (EvalM.holding vs x s) := by
  have hstart : s.Evolves lax { s with held := vs :: s.held } := .noted ..
  exact (hx _ hstart (hs.later hstart rfl)).noted

theorem inScope {scope : Nat} {x : EvalM α} (hs : s.Ready lax)
    (hx : ∀ s', s.Evolves lax s' → s'.Ready lax → Behaves lax n s' Q (x s')) :
    Behaves lax n s Q (EvalM.inScope scope x s) := by
  have hstart : s.Evolves lax { s with running := scope :: s.running } :=
    .noted ..
  exact (hx _ hstart (hs.later hstart rfl)).noted

/-- A call takes one level, and one more is under way only while it runs. -/
theorem asCall {x : EvalM α} (hs : s.Ready lax)
    (hx : ∀ s', s.Evolves lax s' → s'.Ready lax → Behaves lax n s' Q (x s')) :
    Behaves lax (n + 1) s Q (EvalM.asCall x s) := by
  unfold EvalM.asCall
  split
  · rename_i hlt
    let s₁ : Store := { s with depth := s.depth + 1, deepest := max s.deepest (s.depth + 1) }
    have hstart : s.Evolves lax s₁ := .noted ..
    have h := hx s₁ hstart ⟨hstart.sound hs.sound, hlt⟩
    change Behaves lax (n + 1) s Q ((x s₁).1, { (x s₁).2 with depth := (x s₁).2.depth - 1 })
    have hdepth : (x s₁).2.depth = s.depth + 1 := h.depth
    have hdeepest : (x s₁).2.deepest ≤ max (max s.deepest (s.depth + 1)) maxCallDepth := h.deepest
    have hend : (x s₁).2.Evolves lax { (x s₁).2 with depth := (x s₁).2.depth - 1 } :=
      .noted ..
    refine ⟨(hstart.trans h.evolves).trans hend, ?_, ?_, h.ends.mono (fun _ => id) ?_⟩
    · change (x s₁).2.depth - 1 = s.depth
      omega
    · change (x s₁).2.deepest ≤ max s.deepest maxCallDepth
      omega
    · intro stop hstop
      cases stop with
      | exhausted =>
        -- there is one level less and one call more
        intro henough
        have hlevels := henough.levels
        refine hstop ⟨?_, henough.imports.later hstart.importsKept,
          henough.acyclic.later henough.imports hstart.importsKept⟩
        change maxCallDepth < n + (s.depth + 1)
        omega
      | _ => exact hstop
  · exact still trivial

end Behaves

theorem Safe.holding {x : EvalM α} (hx : Safe lax n Q x) (vs : List Value) :
    Safe lax n Q (EvalM.holding vs x) :=
  fun _ hs => .holding hs fun _ _ hs₁ => hx hs₁

end Typings
