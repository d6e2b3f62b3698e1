import Typings.Proofs.Syntax.Nesting

namespace Typings

open Parse

namespace Cursor

section

variable {c : Cursor} {t : Token} {s : Span} {l : List Lexeme}

/-- The tokens from the position on. -/
def ahead (c : Cursor) : List Lexeme := c.tokens.toList.drop c.pos

theorem lexeme_of_ahead {x : Lexeme} (h : c.ahead = x :: l) : c.lexeme = x := by
  have hx : (c.tokens.toList.drop c.pos)[0]? = some x := by
    rw [show c.tokens.toList.drop c.pos = x :: l from h]
    rfl
  rw [List.getElem?_drop, Nat.add_zero, c.getElem?_pos] at hx
  exact Option.some.inj hx

theorem token_of_ahead (h : c.ahead = (t, s) :: l) : c.token = t := by
  rw [token, lexeme_of_ahead h]

theorem succ_pos_lt_of_ahead {x y : Lexeme} (h : c.ahead = x :: y :: l) :
    c.pos + 1 < c.tokens.size := by
  have hlength := congrArg List.length h
  simp only [ahead, List.length_drop, Array.length_toList, List.length_cons] at hlength
  omega

theorem ahead_step {x y : Lexeme} (h : c.ahead = x :: y :: l) : c.step.ahead = y :: l := by
  rw [ahead, step, dif_pos (succ_pos_lt_of_ahead h)]
  show c.tokens.toList.drop (c.pos + 1) = y :: l
  rw [← List.tail_drop, show c.tokens.toList.drop c.pos = x :: y :: l from h, List.tail_cons]

theorem token_step (h : c.pos + 1 < c.tokens.size) : c.step.token = c.peek 1 := by
  rw [peek, tokenAt_of_lt h, step, dif_pos h]
  rfl

theorem peek_of_ahead {x : Lexeme} (h : c.ahead = x :: (t, s) :: l) : c.peek 1 = t := by
  rw [← token_step (succ_pos_lt_of_ahead h), token_of_ahead (ahead_step h)]

end

variable {c : Cursor} {t u : Token} {l : List Token}

/-- The tokens ahead, without their places. -/
def upcoming (c : Cursor) : List Token := c.ahead.map (·.1)

theorem exists_ahead (h : c.upcoming = t :: l) : ∃ s us, c.ahead = (t, s) :: us ∧ us.map (·.1) = l := by
  obtain ⟨⟨t', s⟩, us, hus, rfl, rfl⟩ := List.map_eq_cons_iff.1 h
  exact ⟨s, us, hus, rfl⟩

theorem token_of_upcoming (h : c.upcoming = t :: l) : c.token = t := by
  obtain ⟨s, us, hus, _⟩ := exists_ahead h
  exact token_of_ahead hus

theorem upcoming_step (h : c.upcoming = t :: u :: l) : c.step.upcoming = u :: l := by
  obtain ⟨s, us, hus, hmap⟩ := exists_ahead h
  obtain ⟨⟨u', s'⟩, us, rfl, rfl, rfl⟩ := List.map_eq_cons_iff.1 hmap
  rw [upcoming, ahead_step hus]
  rfl

theorem upcoming_ofTokens (us : List Lexeme) :
    (Cursor.ofTokens us).upcoming = (Cursor.terminated us).map (·.1) := by
  simp [Cursor.upcoming, Cursor.ahead, Cursor.ofTokens]

theorem upcoming_ofTokens_of_eof {us : List Lexeme} (h : us.map (·.1) = l ++ [.eof]) :
    (Cursor.ofTokens us).upcoming = l ++ [.eof] := by
  have hlast := congrArg List.getLast? h
  rw [List.getLast?_map, List.getLast?_concat] at hlast
  obtain ⟨⟨_, s⟩, hs, rfl⟩ := Option.map_eq_some_iff.1 hlast
  rw [upcoming_ofTokens, terminated_of_getLast? hs]
  exact h

end Cursor

variable {α β σ : Type} {d : Nat} {ts us l : List Token} {t u : Token} {P : α → Prop} {Q : β → Prop}
variable {x : Parse α} {f : α → Parse β}

/-- A reading of the tokens `ts` that leaves the tokens `l`, with `d` nestings open. -/
def Takes (d : Nat) (ts l : List Token) (P : α → Prop) (x : Parse α) : Prop :=
  ∀ c : Cursor, c.depth = d → c.upcoming = ts →
    ∃ a c', x c = (.ok a, c') ∧ P a ∧ c'.depth = d ∧ c'.upcoming = l

namespace Takes

theorem pure {a : α} (h : P a) : Takes d l l P (Pure.pure a) :=
  fun c hd hc => ⟨a, c, rfl, h, hd, hc⟩

theorem bind (hx : Takes d ts us P x) (hf : ∀ a, P a → Takes d us l Q (f a)) :
    Takes d ts l Q (x >>= f) := by
  intro c hd hc
  obtain ⟨a, c₁, hrun, ha, hd₁, hc₁⟩ := hx c hd hc
  rw [bind_ok hrun]
  exact hf a ha c₁ hd₁ hc₁

theorem map {h : α → β} (hx : Takes d ts l P x) (hPQ : ∀ a, P a → Q (h a)) :
    Takes d ts l Q (h <$> x) := by
  rw [map_eq_pure_bind]
  exact hx.bind fun a ha => .pure (hPQ a ha)

theorem mono {P' : α → Prop} (hx : Takes d ts l P x) (h : ∀ a, P a → P' a) : Takes d ts l P' x := by
  intro c hd hc
  obtain ⟨a, c', hrun, ha, hend⟩ := hx c hd hc
  exact ⟨a, c', hrun, h a ha, hend⟩

theorem get {f : Cursor → Parse α} (hf : ∀ c : Cursor, c.upcoming = ts → Takes d ts l P (f c)) :
    Takes d ts l P (MonadState.get >>= f) :=
  fun c hd hc => hf c hc c hd hc

theorem nested (hd : d < nestingLimit) (hx : Takes (d + 1) ts l P x) :
    Takes d ts l P (Parse.nested x) := by
  intro c hdepth hc
  obtain ⟨a, c₁, hrun, ha, hd₁, hc₁⟩ := hx c.deeper (congrArg (· + 1) hdepth) hc
  refine ⟨a, c₁.shallower, ?_, ha, ?_, hc₁⟩
  · rw [nested_of_lt (hdepth ▸ hd), hrun]
  · show c₁.depth - 1 = d
    rw [hd₁]
    rfl

end Takes

/-- A reading of the tokens `ts` that gets too deep, with `d` nestings open. -/
def Refuses (d : Nat) (ts : List Token) (x : Parse α) : Prop :=
  ∀ c : Cursor, c.depth = d → c.upcoming = ts → ∃ e c', x c = (.error e, c') ∧ e.TooDeep

namespace Refuses

theorem bind (hx : Refuses d ts x) : Refuses d ts (x >>= f) := by
  intro c hd hc
  obtain ⟨e, c', hrun, he⟩ := hx c hd hc
  exact ⟨e, c', bind_error hrun, he⟩

theorem map {h : α → β} (hx : Refuses d ts x) : Refuses d ts (h <$> x) := by
  rw [map_eq_pure_bind]
  exact hx.bind

theorem get {f : Cursor → Parse α} (hf : ∀ c : Cursor, c.upcoming = ts → Refuses d ts (f c)) :
    Refuses d ts (MonadState.get >>= f) :=
  fun c hd hc => hf c hc c hd hc

theorem nested (hx : d < nestingLimit → Refuses (d + 1) ts x) : Refuses d ts (Parse.nested x) := by
  intro c hdepth hc
  rcases Nat.lt_or_ge c.depth nestingLimit with hlimit | hlimit
  · obtain ⟨e, c₁, hrun, he⟩ := hx (hdepth ▸ hlimit) c.deeper (congrArg (· + 1) hdepth) hc
    refine ⟨e, c₁.shallower, ?_, he⟩
    rw [nested_of_lt hlimit, hrun]
  · exact ⟨_, _, nested_of_le hlimit, rfl⟩

end Refuses

theorem Takes.refuses (hx : Takes d ts us P x) (hf : ∀ a, P a → Refuses d us (f a)) :
    Refuses d ts (x >>= f) := by
  intro c hd hc
  obtain ⟨a, c₁, hrun, ha, hd₁, hc₁⟩ := hx c hd hc
  rw [bind_ok hrun]
  exact hf a ha c₁ hd₁ hc₁

namespace Parse

theorem takes_here : Takes d l l (fun _ => True) here := fun c hd hc => ⟨c.span, c, rfl, trivial, hd, hc⟩

theorem takes_previous : Takes d l l (fun _ => True) previous :=
  fun c hd hc => ⟨c.previousSpan, c, rfl, trivial, hd, hc⟩

theorem takes_current : Takes d (t :: l) (t :: l) (· = t) current :=
  fun c hd hc => ⟨c.token, c, rfl, Cursor.token_of_upcoming hc, hd, hc⟩

theorem takes_atPunct (p : Punct) : Takes d (t :: l) (t :: l) (· = t.isPunct p) (atPunct p) :=
  fun c hd hc => ⟨c.token.isPunct p, c, rfl, by rw [Cursor.token_of_upcoming hc], hd, hc⟩

theorem takes_atKeyword (k : Keyword) : Takes d (t :: l) (t :: l) (· = t.isWord k) (atKeyword k) :=
  fun c hd hc => ⟨c.token.isWord k, c, rfl, by rw [Cursor.token_of_upcoming hc], hd, hc⟩

theorem takes_advance : Takes d (t :: u :: l) (u :: l) (fun _ => True) advance :=
  fun c hd hc => ⟨(), c.step, rfl, trivial, c.depth_step.trans hd, Cursor.upcoming_step hc⟩

theorem takes_eat {p : Punct} (h : t.isPunct p = true) :
    Takes d (t :: u :: l) (u :: l) (· = true) (eat p) := by
  refine (takes_atPunct p).bind fun found hfound => ?_
  rw [hfound, h]
  exact takes_advance.bind fun _ _ => .pure rfl

theorem takes_eat_none {p : Punct} (h : t.isPunct p = false) :
    Takes d (t :: l) (t :: l) (· = false) (eat p) := by
  refine (takes_atPunct p).bind fun found hfound => ?_
  rw [hfound, h]
  exact .pure rfl

theorem takes_eatKeyword {k : Keyword} (h : t.isWord k = true) :
    Takes d (t :: u :: l) (u :: l) (· = true) (eatKeyword k) := by
  refine (takes_atKeyword k).bind fun found hfound => ?_
  rw [hfound, h]
  exact takes_advance.bind fun _ _ => .pure rfl

theorem takes_expect {p : Punct} (h : t.isPunct p = true) :
    Takes d (t :: u :: l) (u :: l) (fun _ => True) (expect p) := by
  refine (takes_eat h).bind fun found hfound => ?_
  rw [hfound]
  exact .pure trivial

theorem takes_expectKeyword {k : Keyword} (h : t.isWord k = true) :
    Takes d (t :: u :: l) (u :: l) (fun _ => True) (expectKeyword k) := by
  refine (takes_eatKeyword h).bind fun found hfound => ?_
  rw [hfound]
  exact .pure trivial

theorem takes_semicolon : Takes d (.punct .semicolon :: u :: l) (u :: l) (fun _ => True) semicolon := by
  refine (takes_eat rfl).bind fun found hfound => ?_
  rw [hfound]
  exact .pure trivial

theorem takes_loop {step : σ → Parse (σ ⊕ β)} {init : σ}
    (hstep : Takes d ts l (fun r => ∃ b, r = .inr b ∧ Q b) (step init)) :
    Takes d ts l Q (loop init step) := by
  refine .get fun c _ => hstep.bind fun r hr => ?_
  obtain ⟨b, rfl, hb⟩ := hr
  exact .pure hb

theorem takes_loop_once {step : σ → Parse (σ ⊕ β)} {init : σ} {I : σ → Prop}
    (hfirst : Takes d ts us (fun r => ∃ s, r = .inl s ∧ I s) (step init))
    (hsecond : ∀ s, I s → Takes d us l (fun r => ∃ b, r = .inr b ∧ Q b) (step s)) :
    Takes d ts l Q (loop init step) := by
  refine .get fun c _ => ?_
  obtain ⟨k, hk⟩ : ∃ k, c.remaining = k + 1 := by
    have hlt := c.pos_lt
    exact ⟨c.remaining - 1, by rw [Cursor.remaining]; omega⟩
  rw [hk]
  refine hfirst.bind fun r hr => ?_
  obtain ⟨s, rfl, hs⟩ := hr
  refine (hsecond s hs).bind fun r hr => ?_
  obtain ⟨b, rfl, hb⟩ := hr
  exact .pure hb

theorem takes_itemsUntil_nil {closer : Punct} {item : Parse α} (h : t.isPunct closer = true) :
    Takes d (t :: u :: l) (u :: l) (· = []) (itemsUntil closer item) := by
  refine Takes.bind (P := (· = [])) (takes_loop ?_) fun items hitems =>
    (takes_expect h).bind fun _ _ => .pure hitems
  refine (takes_atPunct closer).bind fun found hfound => ?_
  rw [hfound, h]
  exact .pure ⟨_, rfl, rfl⟩

theorem refuses_loop {step : σ → Parse (σ ⊕ β)} {init : σ} (h : Refuses d ts (step init)) :
    Refuses d ts (loop init step) :=
  .get fun _ _ => h.bind

theorem refuses_itemsUntil {closer : Punct} {item : Parse α} (ht : t.isPunct closer = false)
    (h : Refuses d (t :: ts) item) : Refuses d (t :: ts) (itemsUntil closer item) := by
  refine (refuses_loop ((takes_atPunct closer).refuses fun found hfound => ?_)).bind
  rw [hfound, ht]
  exact h.bind

end Parse

theorem Grammar.atArrow_of_upcoming {a : String} {c : Cursor} (h : c.upcoming = .identifier a :: u :: l)
    (hu : u.isPunct .arrow = false) : atArrow c = false := by
  obtain ⟨s, us, hus, hmap⟩ := Cursor.exists_ahead h
  obtain ⟨x, us, rfl, rfl, _⟩ := List.map_eq_cons_iff.1 hmap
  rw [atArrow, Cursor.token_of_ahead hus]
  show (c.peek 1).isPunct .arrow = false
  rw [Cursor.peek_of_ahead (t := x.1) (s := x.2) hus, hu]

end Typings
