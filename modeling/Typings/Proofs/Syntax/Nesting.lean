import Typings.Proofs.Syntax.Levels

namespace Typings

open Parse

variable {α β σ : Type} {b : Nat} {c d c' c'' : Cursor} {P Q : α → Prop} {R : β → Prop}
variable {x : Parse α} {f : α → Parse β}

namespace Cursor

/-- The same tokens with the same nesting open, and the limit was kept on the way. -/
structure Resumes (c c' : Cursor) : Prop where
  tokens : c'.tokens = c.tokens
  depth : c'.depth = c.depth
  deepest : c'.deepest ≤ max c.deepest nestingLimit

theorem Resumes.refl : c.Resumes c := ⟨rfl, rfl, Nat.le_max_left ..⟩

theorem Resumes.trans (h : c.Resumes c') (h' : c'.Resumes c'') : c.Resumes c'' := by
  refine ⟨h'.tokens.trans h.tokens, h'.depth.trans h.depth, Nat.le_trans h'.deepest ?_⟩
  exact Nat.max_le.2 ⟨h.deepest, Nat.le_max_right ..⟩

/-- At the same token of the same tokens. -/
structure Abreast (c d : Cursor) : Prop where
  tokens : d.tokens = c.tokens
  pos : d.pos = c.pos

theorem Abreast.refl : c.Abreast c := ⟨rfl, rfl⟩

theorem Abreast.exists_eq (h : c.Abreast d) : ∃ depth deepest bodies,
    d = { c with depth := depth, deepest := deepest, bodies := bodies } := by
  obtain ⟨tokens, pos, depth, deepest, bodies, pos_lt, isEof_last⟩ := c
  obtain ⟨tokens', pos', depth', deepest', bodies', pos_lt', isEof_last'⟩ := d
  obtain ⟨rfl, rfl⟩ := h
  exact ⟨depth', deepest', bodies', rfl⟩

theorem Abreast.token (h : c.Abreast d) : d.token = c.token := by
  obtain ⟨_, _, _, rfl⟩ := h.exists_eq
  rfl

theorem Abreast.closing (h : c.Abreast d) (opening closer : Punct) (fuel i opened : Nat) :
    d.closing opening closer fuel i opened = c.closing opening closer fuel i opened := by
  have htoken : ∀ i, d.tokenAt i = c.tokenAt i := by
    obtain ⟨_, _, _, rfl⟩ := h.exists_eq
    exact fun _ => rfl
  induction fuel generalizing i opened with
  | zero => rfl
  | succ fuel ih => simp only [Cursor.closing, htoken, ih]

theorem Abreast.atArrow (h : c.Abreast d) : Grammar.atArrow d = Grammar.atArrow c := by
  have hclosing := h.closing .leftParen .rightParen c.tokens.size c.pos 0
  obtain ⟨_, _, _, rfl⟩ := h.exists_eq
  simp only [Grammar.atArrow, matchingParen?, hclosing]
  rfl

theorem Abreast.moveTo (h : c.Abreast d) (i : Nat) : (c.moveTo i).Abreast (d.moveTo i) := by
  obtain ⟨_, _, _, rfl⟩ := h.exists_eq
  exact ⟨rfl, rfl⟩

/-- At the same token with `k` more nestings open. -/
structure Deepens (k : Nat) (c d : Cursor) : Prop extends c.Abreast d where
  depth : c.depth = d.depth + k

/-- Cursors that differ in what they record at most. -/
abbrev Twin (c d : Cursor) : Prop := c.Deepens 0 d

theorem moveTo_pos (c : Cursor) : c.moveTo c.pos = c := by
  have hpos : min c.pos (c.tokens.size - 1) = c.pos := by
    have := c.pos_lt
    omega
  simp only [moveTo, hpos]

theorem resumes_moveTo (c : Cursor) (i : Nat) : c.Resumes (c.moveTo i) :=
  ⟨rfl, rfl, Nat.le_max_left ..⟩

end Cursor

theorem nested_of_lt (h : c.depth < nestingLimit) :
    nested x c = ((x c.deeper).1, (x c.deeper).2.shallower) := by
  rw [nested, if_neg (Nat.not_le.2 h)]
  rfl

theorem nested_of_le (h : nestingLimit ≤ c.depth) :
    nested x c = (.error ⟨.limitExceeded ("Maximum nesting depth (" ++ toString nestingLimit ++
      ") exceeded"), c.span⟩, c) := by
  rw [nested, if_pos h]

/-- The error that no more nestings may be opened. -/
def ParseError.TooDeep (e : ParseError) : Prop :=
  e.fault = .limitExceeded ("Maximum nesting depth (" ++ toString nestingLimit ++ ") exceeded")

/-- Two readings, the first with `k` more nestings open: they agree, or the first got too deep. -/
inductive Agrees (k : Nat) : Except ParseError α × Cursor → Except ParseError α × Cursor → Prop
  | same {r : Except ParseError α} {c d : Cursor} (h : c.Deepens k d) : Agrees k (r, c) (r, d)
  | tooDeep {e : ParseError} {c : Cursor} {out : Except ParseError α × Cursor} (hk : 0 < k)
      (h : e.TooDeep) : Agrees k (.error e, c) out

theorem Agrees.of_zero {out out' : Except ParseError α × Cursor} (h : Agrees 0 out out') :
    out'.1 = out.1 ∧ out.2.Twin out'.2 := by
  cases h with
  | same h => exact ⟨rfl, h⟩
  | tooDeep hk => exact absurd hk (Nat.lt_irrefl 0)

theorem Agrees.shallower {k : Nat} {out out' : Except ParseError α × Cursor} (h : Agrees k out out')
    (hopen : k < out.2.depth) : Agrees k (out.1, out.2.shallower) (out'.1, out'.2.shallower) := by
  cases h with
  | @same r c d h =>
    refine .same ⟨⟨h.tokens, h.pos⟩, ?_⟩
    have hdepth := h.depth
    have hopen : k < c.depth := hopen
    show c.depth - 1 = d.depth - 1 + k
    omega
  | tooDeep hk he => exact .tooDeep hk he

/-- How a reading goes that starts where `b` more nestings may be opened. -/
structure Restores (b : Nat) (Q : α → Prop) (x : Parse α) : Prop where
  resumes : ∀ {c : Cursor}, c.depth + b = nestingLimit → c.Resumes (x c).2
  gives : ∀ {c : Cursor} {a}, c.depth + b = nestingLimit → (x c).1 = .ok a → Q a
  agrees : ∀ {k} {c d : Cursor}, c.depth + b = nestingLimit → c.Deepens k d → Agrees k (x c) (x d)

namespace Restores

theorem pure {a : α} (h : Q a) : Restores b Q (Pure.pure a) where
  resumes _ := .refl
  gives := by
    rintro c _ - ⟨⟩
    exact h
  agrees _ h := .same h

theorem throw {e : ParseError} : Restores b Q (MonadExcept.throw e) where
  resumes _ := .refl
  gives := by
    rintro c a - ⟨⟩
  agrees _ h := .same h

theorem mono (h : Restores b P x) (hPQ : ∀ a, P a → Q a) : Restores b Q x :=
  ⟨h.resumes, fun hc ha => hPQ _ (h.gives hc ha), h.agrees⟩

theorem depth_eq (hx : Restores b Q x) (hc : c.depth + b = nestingLimit)
    {r : Except ParseError α} (hout : x c = (r, c')) : c'.depth + b = nestingLimit := by
  have hdepth := (hx.resumes hc).depth
  rw [hout] at hdepth
  exact hdepth ▸ hc

theorem bind (hx : Restores b P x) (hf : ∀ a, P a → Restores b R (f a)) :
    Restores b R (x >>= f) := by
  have hrest : ∀ {c c' : Cursor} {a : α}, c.depth + b = nestingLimit → x c = (.ok a, c') →
      Restores b R (f a) :=
    fun hc hout => hf _ (hx.gives hc (congrArg Prod.fst hout))
  constructor
  · intro c hc
    have hresumes := hx.resumes hc
    rcases hout : x c with ⟨e | a, c'⟩
    · rw [hout] at hresumes
      rwa [bind_error hout]
    · rw [hout] at hresumes
      rw [bind_ok hout]
      exact hresumes.trans ((hrest hc hout).resumes (hx.depth_eq hc hout))
  · intro c r hc hr
    rcases hout : x c with ⟨e | a, c'⟩
    · rw [bind_error hout] at hr
      cases hr
    · rw [bind_ok hout] at hr
      exact (hrest hc hout).gives (hx.depth_eq hc hout) hr
  · intro k c d hc hd
    have hagrees := hx.agrees hc hd
    rcases hout : x c with ⟨r, c'⟩
    rcases hout' : x d with ⟨r', d'⟩
    rw [hout, hout'] at hagrees
    cases hagrees with
    | same hd' =>
      cases r with
      | error e =>
        rw [bind_error hout, bind_error hout']
        exact .same hd'
      | ok a =>
        rw [bind_ok hout, bind_ok hout']
        exact (hrest hc hout).agrees (hx.depth_eq hc hout) hd'
    | tooDeep hk he =>
      rw [bind_error hout]
      exact .tooDeep hk he

theorem map {h : α → β} (hx : Restores b P x) (hPR : ∀ a, P a → R (h a)) :
    Restores b R (h <$> x) := by
  rw [map_eq_pure_bind]
  exact hx.bind fun a ha => .pure (hPR a ha)

theorem get {f : Cursor → Parse α} (hf : ∀ c, Restores b Q (f c))
    (hrecord : ∀ c depth deepest bodies,
      f { c with depth := depth, deepest := deepest, bodies := bodies } = f c) :
    Restores b Q (MonadState.get >>= f) where
  resumes {c} hc := (hf c).resumes hc
  gives {c _} hc ha := (hf c).gives hc ha
  agrees {k c d} hc h := by
    have hsame : f d = f c := by
      obtain ⟨_, _, _, rfl⟩ := h.exists_eq
      exact hrecord c _ _ _
    show Agrees k (f c c) (f d d)
    rw [hsame]
    exact (hf c).agrees hc h

/-- One nesting deeper, one fewer may be opened; where none may, nothing is read. -/
theorem nested (h : ∀ j, b = j + 1 → Restores j Q x) : Restores b Q (Parse.nested x) := by
  have hdeeper : ∀ {c : Cursor}, c.depth + b = nestingLimit → c.depth < nestingLimit →
      c.deeper.depth + (b - 1) = nestingLimit ∧ Restores (b - 1) Q x := by
    intro c hc hlimit
    exact ⟨show c.depth + 1 + (b - 1) = nestingLimit by omega, h (b - 1) (by omega)⟩
  constructor
  · intro c hc
    rcases Nat.lt_or_ge c.depth nestingLimit with hlimit | hlimit
    · obtain ⟨hc', hx⟩ := hdeeper hc hlimit
      have hresumes := hx.resumes hc'
      rw [nested_of_lt hlimit]
      refine ⟨hresumes.tokens, ?_, Nat.le_trans hresumes.deepest ?_⟩
      · show (x c.deeper).2.depth - 1 = c.depth
        rw [hresumes.depth]
        rfl
      · show max (max c.deepest (c.depth + 1)) nestingLimit ≤ max c.deepest nestingLimit
        omega
    · rw [nested_of_le hlimit]
      exact .refl
  · intro c a hc ha
    rcases Nat.lt_or_ge c.depth nestingLimit with hlimit | hlimit
    · obtain ⟨hc', hx⟩ := hdeeper hc hlimit
      rw [nested_of_lt hlimit] at ha
      exact hx.gives hc' ha
    · rw [nested_of_le hlimit] at ha
      cases ha
  · intro k c d hc hd
    have hdepth := hd.depth
    rcases Nat.lt_or_ge c.depth nestingLimit with hlimit | hlimit
    · obtain ⟨hc', hx⟩ := hdeeper hc hlimit
      have hd' : c.deeper.Deepens k d.deeper :=
        ⟨⟨hd.tokens, hd.pos⟩, show c.depth + 1 = d.depth + 1 + k by omega⟩
      have hend : (x c.deeper).2.depth = c.depth + 1 := (hx.resumes hc').depth
      rw [nested_of_lt hlimit, nested_of_lt (by omega)]
      exact (hx.agrees hc' hd').shallower (by omega)
    · rw [nested_of_le hlimit]
      rcases Nat.eq_zero_or_pos k with rfl | hk
      · have hspan : d.span = c.span := by
          obtain ⟨_, _, _, rfl⟩ := hd.exists_eq
          rfl
        rw [nested_of_le (by omega), hspan]
        exact .same hd
      · exact .tooDeep hk rfl

theorem moves (h : ∀ c : Cursor, ∃ i r, ∀ d, c.Abreast d → x d = (r, d.moveTo i)) :
    Restores b (fun _ => True) x where
  resumes {c} _ := by
    obtain ⟨i, r, hx⟩ := h c
    rw [hx c .refl]
    exact c.resumes_moveTo i
  gives _ _ := trivial
  agrees {k c d} _ hd := by
    obtain ⟨i, r, hx⟩ := h c
    rw [hx c .refl, hx d hd.toAbreast]
    exact .same ⟨hd.toAbreast.moveTo i, hd.depth⟩

end Restores

/-- Such a reading of which no result is known. -/
abbrev Neutral (b : Nat) (x : Parse α) : Prop := Restores b (fun _ => True) x

theorem Restores.neutral (h : Restores b Q x) : Neutral b x := h.mono fun _ _ => trivial

theorem Neutral.bind (hx : Neutral b x) (hf : ∀ a, Restores b R (f a)) : Restores b R (x >>= f) :=
  Restores.bind hx fun a _ => hf a

theorem Neutral.discard (hx : Neutral b x) : Neutral b (discard x) := hx.map fun _ => id

theorem Restores.some (hx : Restores b Q x) :
    Restores b (fun found => ∀ a ∈ found, Q a) (Option.some <$> x) :=
  hx.map fun a ha a' ha' => by
    obtain rfl := Option.mem_some.1 ha'
    exact ha

theorem Restores.invalid (reason : String) (span : Span) :
    Restores b Q (Parse.invalid reason span) :=
  .throw

theorem Restores.unexpected (expected : List Token) : Restores b Q (Parse.unexpected expected) :=
  .get (fun _ => .throw) fun _ _ _ _ => rfl

theorem Restores.invalid_bind (reason : String) (span : Span) :
    Restores b R (Parse.invalid reason span >>= f) :=
  (Restores.invalid (Q := fun _ => False) reason span).bind fun _ h => h.elim

theorem Restores.unexpected_bind (expected : List Token) :
    Restores b R (Parse.unexpected expected >>= f) :=
  (Restores.unexpected (Q := fun _ => False) expected).bind fun _ h => h.elim

namespace Parse

theorem neutral_current : Neutral b current :=
  .get (fun _ => .pure trivial) fun _ _ _ _ => rfl

theorem neutral_here : Neutral b here :=
  .get (fun _ => .pure trivial) fun _ _ _ _ => rfl

theorem neutral_previous : Neutral b previous :=
  .get (fun _ => .pure trivial) fun _ _ _ _ => rfl

theorem neutral_atPunct (p : Punct) : Neutral b (atPunct p) :=
  .get (fun _ => .pure trivial) fun _ _ _ _ => rfl

theorem neutral_atKeyword (k : Keyword) : Neutral b (atKeyword k) :=
  .get (fun _ => .pure trivial) fun _ _ _ _ => rfl

theorem neutral_atName (name : String) : Neutral b (atName name) :=
  .get (fun _ => .pure trivial) fun _ _ _ _ => rfl

theorem neutral_advance : Neutral b advance where
  resumes {c} _ := by
    show c.Resumes c.step
    unfold Cursor.step
    split
    · exact ⟨rfl, rfl, Nat.le_max_left ..⟩
    · exact .refl
  gives _ _ := trivial
  agrees {k c d} _ hd := by
    have hdepth := hd.depth
    refine .same (show c.step.Deepens k d.step from ?_)
    obtain ⟨_, _, _, rfl⟩ := hd.exists_eq
    unfold Cursor.step
    dsimp only
    split
    · exact ⟨⟨rfl, rfl⟩, hdepth⟩
    · exact hd

theorem neutral_eat (p : Punct) : Neutral b (eat p) := by
  refine (neutral_atPunct p).bind fun found => ?_
  split
  · exact neutral_advance.bind fun _ => .pure trivial
  · exact .pure trivial

theorem neutral_eatKeyword (k : Keyword) : Neutral b (eatKeyword k) := by
  refine (neutral_atKeyword k).bind fun found => ?_
  split
  · exact neutral_advance.bind fun _ => .pure trivial
  · exact .pure trivial

theorem neutral_expect (p : Punct) : Neutral b (expect p) := by
  refine (neutral_eat p).bind fun found => ?_
  split
  · exact .pure trivial
  · exact .unexpected _

theorem neutral_expectKeyword (k : Keyword) : Neutral b (expectKeyword k) := by
  refine (neutral_eatKeyword k).bind fun found => ?_
  split
  · exact .pure trivial
  · exact .unexpected _

theorem neutral_name : Neutral b name := by
  refine neutral_current.bind fun t => ?_
  split
  · exact neutral_advance.bind fun _ => .pure trivial
  · exact .unexpected _

theorem neutral_name? : Neutral b name? := by
  refine neutral_current.bind fun t => ?_
  split
  · exact neutral_advance.bind fun _ => .pure trivial
  · exact .pure trivial

theorem neutral_propertyName : Neutral b propertyName := by
  refine neutral_current.bind fun t => ?_
  split
  · exact neutral_advance.bind fun _ => .pure trivial
  · exact neutral_advance.bind fun _ => .pure trivial
  · exact neutral_advance.bind fun _ => neutral_name.bind fun _ => .pure trivial
  · exact .unexpected _

theorem neutral_semicolon : Neutral b semicolon := by
  refine (neutral_eat _).bind fun found => ?_
  split
  · exact .pure trivial
  refine .get (fun c => ?_) fun _ _ _ _ => rfl
  split
  · exact .pure trivial
  · exact .throw

theorem neutral_comma (closer : Punct) : Neutral b (comma closer) := by
  refine (neutral_atPunct closer).bind fun found => ?_
  split
  · exact .pure trivial
  · exact neutral_expect _

theorem neutral_braces : Neutral b braces := by
  refine neutral_here.bind fun opening => (neutral_expect _).bind fun _ => .moves fun c => ?_
  have hclosing : ∀ d, c.Abreast d → d.closing .leftBrace .rightBrace d.tokens.size d.pos 1 =
      c.closing .leftBrace .rightBrace c.tokens.size c.pos 1 := by
    intro d h
    rw [h.closing, h.tokens, h.pos]
  cases hi : c.closing .leftBrace .rightBrace c.tokens.size c.pos 1 with
  | ok i =>
    refine ⟨i + 1, .ok (c.tokens.extract c.pos i).toList, fun d h => ?_⟩
    rw [bind_ok (show (get : Parse Cursor) d = (.ok d, d) from rfl), hclosing d h, hi]
    rw [← h.tokens, ← h.pos]
    rfl
  | error i =>
    refine ⟨i, .error ⟨.unclosedDelimiter (.punct .leftBrace) (.punct .rightBrace), opening⟩,
      fun d h => ?_⟩
    rw [bind_ok (show (get : Parse Cursor) d = (.ok d, d) from rfl), hclosing d h, hi]
    rfl

theorem restores_body : Restores b (·.NestsBelow b) body := by
  refine .get (fun c => neutral_braces.bind fun tokens => ?_) fun _ _ _ _ => rfl
  refine Neutral.bind ?_ fun _ => .pure (by simp [FunctionBody.NestsBelow, FunctionBody.inner])
  exact {
    resumes := fun _ => ⟨rfl, rfl, Nat.le_max_left ..⟩
    gives := fun _ _ => trivial
    agrees := fun _ h => .same ⟨⟨h.tokens, h.pos⟩, h.depth⟩ }

theorem neutral_skipGroup : Neutral b skipGroup := by
  refine .moves fun c => ?_
  have hget : ∀ d, (get : Parse Cursor) d = (.ok d, d) := fun _ => rfl
  cases hdelimiters : delimiters? c.token with
  | none =>
    refine ⟨c.pos, (skipGroup c).1, fun d h => ?_⟩
    rw [← h.pos, d.moveTo_pos, skipGroup, bind_ok (hget d), bind_ok (hget c), h.token, hdelimiters]
    obtain ⟨_, _, _, rfl⟩ := h.exists_eq
    rfl
  | some delimiters =>
    obtain ⟨opening, closer⟩ := delimiters
    cases hi : c.closing opening closer c.tokens.size c.pos 0 with
    | ok i =>
      refine ⟨i + 1, .ok ⟨⟩, fun d h => ?_⟩
      rw [skipGroup, bind_ok (hget d), h.token, hdelimiters]
      dsimp only
      rw [h.closing, h.tokens, h.pos, hi]
      rfl
    | error i =>
      refine ⟨i, .error ⟨.unclosedDelimiter (.punct opening) (.punct closer), c.span⟩, fun d h => ?_⟩
      rw [skipGroup, bind_ok (hget d), h.token, hdelimiters]
      dsimp only
      rw [h.closing, h.tokens, h.pos, hi]
      obtain ⟨_, _, _, rfl⟩ := h.exists_eq
      rfl

theorem restores_repeated {step : σ → Parse (σ ⊕ β)} {I : σ → Prop}
    (hstep : ∀ s, I s → Restores b (Sum.elim I R) (step s)) (fuel : Nat) (s : σ) (hs : I s) :
    Restores b R (repeated step fuel s) := by
  induction fuel generalizing s with
  | zero => exact neutral_here.bind fun _ => .throw
  | succ fuel ih =>
    refine (hstep s hs).bind fun r hr => ?_
    cases r with
    | inl s' => exact ih s' hr
    | inr a => exact .pure hr

theorem restores_loop {step : σ → Parse (σ ⊕ β)} {I : σ → Prop}
    (hstep : ∀ s, I s → Restores b (Sum.elim I R) (step s)) {init : σ} (hinit : I init) :
    Restores b R (loop init step) :=
  .get (fun _ => restores_repeated hstep _ _ hinit) fun _ _ _ _ => rfl

theorem restores_itemsUntil {item : Parse α} (h : Restores b Q item) (closer : Punct) :
    Restores b (fun items => ∀ a ∈ items, Q a) (itemsUntil closer item) := by
  refine (restores_loop (I := fun acc => ∀ a ∈ acc, Q a) (fun acc hacc => ?_) (by simp)).bind
    fun items hitems => (neutral_expect _).bind fun _ => .pure hitems
  refine (neutral_atPunct closer).bind fun found => ?_
  split
  · exact .pure fun a ha => hacc a (List.mem_reverse.1 ha)
  · exact h.bind fun a ha => .pure fun a' ha' => by
      rcases List.mem_cons.1 ha' with rfl | ha'
      · exact ha
      · exact hacc a' ha'

end Parse

end Typings
