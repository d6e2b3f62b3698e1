namespace Typings
set_option autoImplicit true

/-- A computation that gives a result gives one with `P`, and one that fails does so with `Q`. -/
def Ends (P : α → Prop) (Q : ε → Prop) : Except ε α → Prop
  | .ok a => P a
  | .error e => Q e

theorem Ends.bind {x : Except ε α} {f : α → Except ε β} (h : Ends P Q x)
    (hf : ∀ a, P a → Ends P' Q (f a)) : Ends P' Q (x >>= f) := by
  cases x with
  | ok a => exact hf a h
  | error e => exact h

theorem Ends.mono {x : Except ε α} (h : Ends P Q x) (hP : ∀ a, P a → P' a) (hQ : ∀ e, Q e → Q' e) :
    Ends P' Q' x := by
  cases x with
  | ok a => exact hP a h
  | error e => exact hQ e h

theorem Ends.mapError {x : Except ε α} {f : ε → ε'} (hx : ∀ a, x = .ok a → P a)
    (hf : ∀ e, x = .error e → Q (f e)) : Ends P Q (x.mapError f) := by
  cases x with
  | ok a => exact hx a rfl
  | error e => exact hf e rfl

/-- A fold keeps what each of its steps keeps. `I` knows the items that were taken. -/
theorem Ends.foldlM {f : σ → α → Except ε σ} {I : List α → σ → Prop} {Q : ε → Prop} (l : List α)
    (hstep : ∀ before a after s, l = before ++ a :: after → I before s →
      Ends (I (before ++ [a])) Q (f s a))
    (s : σ) (hs : I [] s) : Ends (I l) Q (l.foldlM f s) := by
  suffices h : ∀ rest before s, l = before ++ rest → I before s → Ends (I l) Q (rest.foldlM f s) by
    exact h l [] s rfl hs
  intro rest
  induction rest with
  | nil =>
    intro before s hl hI
    rw [hl, List.append_nil]
    exact hI
  | cons a rest ih =>
    intro before s hl hI
    rw [List.foldlM_cons]
    apply (hstep before a rest s hl hI).bind
    intro s' hI'
    apply ih (before ++ [a]) s' _ hI'
    rw [hl, List.append_assoc, List.singleton_append]

theorem Ends.ok {x : Except ε α} (h : Ends P Q x) (hx : x = .ok a) : P a := by
  subst hx
  exact h

theorem Ends.error {x : Except ε α} (h : Ends P Q x) (hx : x = .error e) : Q e := by
  subst hx
  exact h

theorem bind_eq_ok {x : Except ε α} {f : α → Except ε β} (h : (x >>= f) = .ok b) :
    ∃ a, x = .ok a ∧ f a = .ok b := by
  cases x with
  | ok a => exact ⟨a, rfl, h⟩
  | error e => cases h

section
variable {x : ExceptT ε (StateM σ) α} {s s' : σ} {e : ε}

theorem stateM_bind (x : StateM σ α) (f : α → StateM σ β) (s : σ) :
    (x >>= f) s = f (x s).1 (x s).2 := rfl

theorem bind_ok {f : α → ExceptT ε (StateM σ) β} (h : x s = (.ok a, s')) :
    (x >>= f) s = f a s' := by
  refine (stateM_bind x (ExceptT.bindCont f) s).trans ?_
  rw [h]
  rfl

theorem bind_error {f : α → ExceptT ε (StateM σ) β} (h : x s = (.error e, s')) :
    (x >>= f) s = (.error e, s') := by
  refine (stateM_bind x (ExceptT.bindCont f) s).trans ?_
  rw [h]
  rfl

theorem get_bind {f : σ → ExceptT ε (StateM σ) α} (s : σ) : (get >>= f) s = f s s := rfl

theorem bind_run_ok {f : α → ExceptT ε (StateM σ) β} {b : β} (h : (x >>= f) s = (.ok b, s')) :
    ∃ a s₁, x s = (.ok a, s₁) ∧ f a s₁ = (.ok b, s') := by
  rcases hrun : x s with ⟨e | a, s₁⟩
  · rw [bind_error hrun] at h
    cases h
  · rw [bind_ok hrun] at h
    exact ⟨a, s₁, rfl, h⟩

theorem bind_run_congr {y : ExceptT ε (StateM σ) α} {f g : α → ExceptT ε (StateM σ) β}
    (hxy : x s = y s) (hf : ∀ a s', x s = (.ok a, s') → f a s' = g a s') :
    (x >>= f) s = (y >>= g) s := by
  rcases hrun : x s with ⟨e | a, s'⟩
  · rw [bind_error hrun, bind_error (hxy.symm.trans hrun)]
  · rw [bind_ok hrun, bind_ok (hxy.symm.trans hrun), hf a s' hrun]

theorem map_ok {f : α → β} (h : x s = (.ok a, s')) : (f <$> x) s = (.ok (f a), s') := by
  rw [map_eq_pure_bind, bind_ok h]
  rfl

theorem map_error {f : α → β} (h : x s = (.error e, s')) : (f <$> x) s = (.error e, s') := by
  rw [map_eq_pure_bind, bind_error h]

theorem tryCatch_ok {f : ε → ExceptT ε (StateM σ) α} (h : x s = (.ok a, s')) :
    tryCatch x f s = (.ok a, s') := by
  have hrun : tryCatch x f s = (pure (.ok a) : StateM σ (Except ε α)) s' := by
    simp [tryCatch, tryCatchThe, MonadExceptOf.tryCatch, ExceptT.tryCatch, ExceptT.mk, StateT.bind,
      Bind.bind, h]
  exact hrun

theorem tryCatch_error {f : ε → ExceptT ε (StateM σ) α} (h : x s = (.error e, s')) :
    tryCatch x f s = f e s' := by
  simp [tryCatch, tryCatchThe, MonadExceptOf.tryCatch, ExceptT.tryCatch, ExceptT.mk, StateT.bind,
    Bind.bind, h]

/-- Whatever state a computation starts from, its result has `P`. -/
structure Gives (P : α → Prop) (x : ExceptT ε (StateM σ) α) : Prop where
  ok : ∀ s a s', x s = (.ok a, s') → P a

theorem Gives.pure (h : P a) : Gives P (pure a : ExceptT ε (StateM σ) α) := by
  constructor
  intro s a' s' hout
  cases hout
  exact h

theorem Gives.bind {f : α → ExceptT ε (StateM σ) β} (hx : Gives P x)
    (hf : ∀ a, P a → Gives Q (f a)) : Gives Q (x >>= f) := by
  constructor
  intro s b s₂ hout
  obtain ⟨a, s₁, hrun, hout⟩ := bind_run_ok hout
  exact (hf a (hx.ok s a s₁ hrun)).ok s₁ b s₂ hout

theorem Gives.after {f : α → ExceptT ε (StateM σ) β} (hf : ∀ a, Gives Q (f a)) :
    Gives Q (x >>= f) :=
  Gives.bind (P := fun _ => True) ⟨fun _ _ _ _ => trivial⟩ fun a _ => hf a

theorem Gives.mapM {f : α → ExceptT ε (StateM σ) β} {l : List α} (h : ∀ a ∈ l, Gives P (f a)) :
    Gives (fun bs => ∀ b ∈ bs, P b) (l.mapM f) := by
  induction l with
  | nil => exact .pure (by simp)
  | cons a l ih =>
    rw [List.mapM_cons]
    apply (h a (by simp)).bind
    intro b hb
    apply (ih fun a' ha' => h a' (by simp [ha'])).bind
    intro bs hbs
    apply Gives.pure
    intro b' hb'
    rcases List.mem_cons.1 hb' with rfl | hb'
    · exact hb
    · exact hbs b' hb'

end

end Typings
