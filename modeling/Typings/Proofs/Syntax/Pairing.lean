import Typings.Proofs.Syntax.Grouping

namespace Typings

variable {α β σ : Type}

structure Cursor.Sees (L : Likeness) (c d : Cursor) : Prop where
  token : c.token.Like L.span d.token
  span : L.span c.span d.span
  previousSpan : L.span c.previousSpan d.previousSpan
  onNewLine : d.onNewLine = c.onNewLine
  /-- What follows a brace is never looked at before the brace is passed. -/
  next : c.token.isPunct .leftBrace = false → c.token.isPunct .rightBrace = false →
    (c.peek 1).Like L.span (d.peek 1)

theorem Cursor.Sees.refl {L : Likeness} (hspan : ∀ s, L.span s s) (c : Cursor) : c.Sees L c :=
  ⟨.refl hspan _, hspan _, hspan _, rfl, fun _ _ => .refl hspan _⟩

structure Pairing where
  like : Likeness
  /-- The places that belong together. -/
  Rel : Cursor → Cursor → Prop
  /-- The places from which the first reading never gets to one that belongs to another. -/
  Gone : Cursor → Prop

/-- A reading that ended because a bound was too small. -/
def Exhausted (out : Except ParseError α) : Prop := ∃ e, out = .error e ∧ e.fault = .exhausted

/-- How the second reading may end when the first ends with `a` at `c`. -/
def Pairing.Meets (A : Pairing) (R : α → α → Prop) (a : α) (c : Cursor)
    (out : Except ParseError α × Cursor) : Prop :=
  (A.Gone c ∧ ∃ b, R a b) ∨ Exhausted out.1 ∨ ∃ b d, out = (.ok b, d) ∧ R a b ∧ A.Rel c d

/-- Where `x` succeeds, `y` does the same at the place that belongs to it. -/
structure Follows (A : Pairing) (R : α → α → Prop) (x y : Parse α) : Prop where
  together : ∀ {c d c' : Cursor} {a : α}, A.Rel c d → x c = (.ok a, c') → A.Meets R a c' (y d)
  alone : ∀ {c c' : Cursor} {a : α}, A.Gone c → x c = (.ok a, c') → A.Gone c' ∧ ∃ b, R a b

namespace Follows

variable {A : Pairing} {R : α → α → Prop} {T : β → β → Prop} {x y : Parse α}

theorem pure {a b : α} (h : R a b) : Follows A R (Pure.pure a) (Pure.pure b) := by
  constructor
  · intro c d c' a' hrel hrun
    cases hrun
    exact .inr (.inr ⟨b, d, rfl, h, hrel⟩)
  · intro c c' a' hgone hrun
    cases hrun
    exact ⟨hgone, b, h⟩

theorem bind {f g : α → Parse β} (hx : Follows A R x y)
    (hf : ∀ a b, R a b → Follows A T (f a) (g b)) : Follows A T (x >>= f) (y >>= g) := by
  constructor
  · intro c d c' b hrel hrun
    obtain ⟨a, c₁, hfirst, hrun⟩ := bind_run_ok hrun
    rcases hx.together hrel hfirst with ⟨hgone, a', haa⟩ | hexhausted | ⟨a', d₁, hout, haa, hrel₁⟩
    · exact .inl ((hf a a' haa).alone hgone hrun)
    · obtain ⟨e, he, hfault⟩ := hexhausted
      have hout : y d = (.error e, (y d).2) := Prod.ext he rfl
      exact .inr (.inl ⟨e, by rw [bind_error hout], hfault⟩)
    · rw [bind_ok hout]
      exact (hf a a' haa).together hrel₁ hrun
  · intro c c' b hgone hrun
    obtain ⟨a, c₁, hfirst, hrun⟩ := bind_run_ok hrun
    obtain ⟨hgone₁, a', haa⟩ := hx.alone hgone hfirst
    exact (hf a a' haa).alone hgone₁ hrun

theorem andThen {f g : α → Parse β} (hx : Follows A Eq x y) (hf : ∀ a, Follows A T (f a) (g a)) :
    Follows A T (x >>= f) (y >>= g) := by
  apply hx.bind
  intro a b hab
  subst hab
  exact hf a

theorem map {f g : α → β} (hx : Follows A R x y) (hf : ∀ a b, R a b → T (f a) (g b)) :
    Follows A T (f <$> x) (g <$> y) := by
  rw [map_eq_pure_bind, map_eq_pure_bind]
  exact hx.bind fun a b hab => .pure (hf a b hab)

theorem of_fails (h : ∀ c a c', x c ≠ (.ok a, c')) : Follows A R x y :=
  ⟨fun _ hrun => absurd hrun (h _ _ _), fun _ hrun => absurd hrun (h _ _ _)⟩

theorem fail (fault : ParseFault) (span : Span) : Follows A R (Parse.fail fault span) y := by
  apply of_fails
  intro c a c' hrun
  cases hrun

theorem invalid (reason : String) (span : Span) : Follows A R (Parse.invalid reason span) y :=
  fail _ _

theorem unexpected (expected : List Token) : Follows A R (Parse.unexpected expected) y := by
  apply of_fails
  intro c a c' hrun
  cases hrun

theorem invalid_bind (reason : String) (span : Span) {f : α → Parse β} {z : Parse β} :
    Follows A T (Parse.invalid reason span >>= f) z := by
  apply of_fails
  intro c a c' hrun
  obtain ⟨_, _, hrun, _⟩ := bind_run_ok hrun
  cases hrun

theorem unexpected_bind (expected : List Token) {f : α → Parse β} {z : Parse β} :
    Follows A T (Parse.unexpected expected >>= f) z := by
  apply of_fails
  intro c a c' hrun
  obtain ⟨_, _, hrun, _⟩ := bind_run_ok hrun
  cases hrun

theorem exhausted (h : Follows A R x y) :
    Follows A R x (do Parse.fail .exhausted (← Parse.here)) :=
  ⟨fun _ _ => .inr (.inl ⟨_, rfl, rfl⟩), h.alone⟩

theorem repeated {R : σ → σ → Prop} {step step' : σ → Parse (σ ⊕ β)}
    (hstep : ∀ a b, R a b → Follows A (Sum.LiftRel R T) (step a) (step' b)) :
    ∀ n m a b, R a b → Follows A T (Parse.repeated step n a) (Parse.repeated step' m b) := by
  intro n
  induction n with
  | zero =>
    intro m a b _
    apply of_fails
    intro c r c' hrun
    cases hrun
  | succ n ih =>
    intro m a b hab
    have hnext : ∀ m, Follows A T (Parse.repeated step (n + 1) a)
        (Parse.repeated step' (m + 1) b) := by
      intro m
      apply (hstep a b hab).bind
      intro r s hrs
      cases hrs with
      | inl h => exact ih m _ _ h
      | inr h => exact .pure h
    cases m with
    | zero => exact (hnext 0).exhausted
    | succ m => exact hnext m

end Follows

/-- Spans that are alike go together, and nothing is asked of what is on the left. -/
structure Likeness.Sound (L : Likeness) : Prop where
  span_refl : ∀ s, L.span s s
  through : ∀ {s s' t t'}, L.span s s' → L.span t t' → L.span (s.through t) (s'.through t')
  behind : ∀ {s s' : Span}, L.span s s' →
    L.span { s with start := s.stop } { s' with start := s'.stop }
  source : ∀ ts, L.source ts
  known : ∀ c, L.known c

open Parse in
/-- The places of a pairing can be read from, whatever is read. -/
structure Pairing.Sound (A : Pairing) : Prop where
  like : A.like.Sound
  sees : ∀ {c d}, A.Rel c d → c.Sees A.like d
  /-- An arrow function begins at both places, or none that the first reading comes back from. -/
  atArrow : ∀ {c d}, A.Rel c d → Grammar.atArrow d = Grammar.atArrow c ∨
    Grammar.atArrow c = true ∧ ∀ {n e c'}, (Grammar.levels n).arrow c = (.ok e, c') →
      A.Gone c' ∧ ∃ e', e.Like A.like e'
  step : ∀ {c d}, A.Rel c d → A.Gone c.step ∨ A.Rel c.step d.step
  deeper : ∀ {c d}, A.Rel c d → c.depth < nestingLimit → d.depth < nestingLimit ∧
    A.Rel c.deeper d.deeper
  shallower : ∀ {c d}, A.Rel c d → A.Rel c.shallower d.shallower
  body : Follows A (FunctionBody.Like A.like) body body
  /-- A group that is passed, from its first token on or from behind it. -/
  group : ∀ {c d opening closer i k}, A.Rel c d → i ≤ 1 →
    groupSearch opening closer (c.tokens.toList.drop (c.pos + i)) i = .found k →
    A.Gone (c.moveTo (c.pos + (k + i + 1))) ∨
      groupSearch opening closer (d.tokens.toList.drop (d.pos + i)) i = .found k ∧
        A.Rel (c.moveTo (c.pos + (k + i + 1))) (d.moveTo (d.pos + (k + i + 1)))
  sees_gone : ∀ {c}, A.Gone c → c.Sees A.like c
  step_gone : ∀ {c}, A.Gone c → A.Gone c.step
  depth_gone : ∀ {c n k}, A.Gone c → A.Gone { c with depth := n, deepest := k }
  move_gone : ∀ {c i}, A.Gone c → c.pos ≤ i → A.Gone (c.moveTo i)

section
variable {A : Pairing} (hA : A.Sound) {R : α → α → Prop} {T : β → β → Prop}
include hA

theorem follows_get : Follows A (Cursor.Sees A.like) get get := by
  constructor
  · intro c d c' a hrel hrun
    cases hrun
    exact .inr (.inr ⟨d, d, rfl, hA.sees hrel, hrel⟩)
  · intro c c' a hgone hrun
    cases hrun
    exact ⟨hgone, c, hA.sees_gone hgone⟩

theorem Follows.get {f g : Cursor → Parse α} (h : ∀ c d, c.Sees A.like d → Follows A R (f c) (g d)) :
    Follows A R (MonadState.get >>= f) (MonadState.get >>= g) :=
  (follows_get hA).bind h

theorem Follows.current {f g : Token → Parse α} (h : ∀ t, Follows A R (f t) (g t))
    (hg : ∀ parts parts', g (.template parts) = g (.template parts')) :
    Follows A R (Parse.current >>= f) (Parse.current >>= g) := by
  apply Follows.get hA
  intro c d hcd
  show Follows A R (f c.token) (g d.token)
  rw [hcd.token.congr g hg]
  exact h c.token

theorem Follows.currentTemplate {f g : Token → Parse α}
    (h : ∀ t, (∀ parts, t ≠ .template parts) → Follows A R (f t) (g t))
    (htemplate : ∀ parts parts', TemplatePart.AllLike A.like.span parts parts' →
      Follows A R (f (.template parts)) (g (.template parts'))) :
    Follows A R (Parse.current >>= f) (Parse.current >>= g) := by
  apply Follows.get hA
  intro c d hcd
  show Follows A R (f c.token) (g d.token)
  have hlike := hcd.token
  generalize c.token = t, d.token = t' at hlike
  cases t with
  | template parts =>
    obtain ⟨parts', rfl, hparts⟩ := hlike
    exact htemplate parts parts' hparts
  | _ =>
    obtain rfl : t' = _ := hlike
    exact h _ fun _ => Token.noConfusion

theorem follows_here : Follows A A.like.span Parse.here Parse.here :=
  .get hA fun _ _ hcd => .pure hcd.span

theorem follows_previous : Follows A A.like.span Parse.previous Parse.previous :=
  .get hA fun _ _ hcd => .pure hcd.previousSpan

theorem follows_atPunct (p : Punct) : Follows A Eq (Parse.atPunct p) (Parse.atPunct p) :=
  .get hA fun _ _ hcd => .pure (hcd.token.isPunct p).symm

theorem follows_atKeyword (k : Keyword) : Follows A Eq (Parse.atKeyword k) (Parse.atKeyword k) :=
  .get hA fun _ _ hcd => .pure (hcd.token.isWord k).symm

theorem follows_atName (name : String) : Follows A Eq (Parse.atName name) (Parse.atName name) :=
  .get hA fun _ _ hcd => .pure (by rw [hcd.token.name?])

theorem follows_advance : Follows A Eq Parse.advance Parse.advance := by
  constructor
  · intro c d c' a hrel hrun
    cases hrun
    rcases hA.step hrel with hgone | hrel'
    · exact .inl ⟨hgone, _, rfl⟩
    · exact .inr (.inr ⟨_, d.step, rfl, rfl, hrel'⟩)
  · intro c c' a hgone hrun
    cases hrun
    exact ⟨hA.step_gone hgone, _, rfl⟩

theorem follows_eat (p : Punct) : Follows A Eq (Parse.eat p) (Parse.eat p) := by
  apply (follows_atPunct hA p).andThen
  intro b
  split
  · exact (follows_advance hA).andThen fun _ => .pure rfl
  · exact .pure rfl

theorem follows_eatKeyword (k : Keyword) :
    Follows A Eq (Parse.eatKeyword k) (Parse.eatKeyword k) := by
  apply (follows_atKeyword hA k).andThen
  intro b
  split
  · exact (follows_advance hA).andThen fun _ => .pure rfl
  · exact .pure rfl

theorem follows_expect (p : Punct) : Follows A Eq (Parse.expect p) (Parse.expect p) := by
  apply (follows_eat hA p).andThen
  intro b
  split
  · exact .pure rfl
  · exact .unexpected _

theorem follows_expectKeyword (k : Keyword) :
    Follows A Eq (Parse.expectKeyword k) (Parse.expectKeyword k) := by
  apply (follows_eatKeyword hA k).andThen
  intro b
  split
  · exact .pure rfl
  · exact .unexpected _

theorem follows_name : Follows A Eq Parse.name Parse.name := by
  apply Follows.current hA _ fun _ _ => rfl
  intro t
  split
  · exact (follows_advance hA).andThen fun _ => .pure rfl
  · exact .unexpected _

theorem follows_name? : Follows A Eq Parse.name? Parse.name? := by
  apply Follows.current hA _ fun _ _ => rfl
  intro t
  split
  · exact (follows_advance hA).andThen fun _ => .pure rfl
  · exact .pure rfl

theorem follows_propertyName : Follows A Eq Parse.propertyName Parse.propertyName := by
  apply Follows.current hA _ fun _ _ => rfl
  intro t
  split
  · exact (follows_advance hA).andThen fun _ => .pure rfl
  · exact (follows_advance hA).andThen fun _ => .pure rfl
  · exact (follows_advance hA).andThen fun _ => (follows_name hA).andThen fun _ => .pure rfl
  · exact .unexpected _

theorem follows_semicolon : Follows A Eq Parse.semicolon Parse.semicolon := by
  apply (follows_eat hA _).andThen
  intro b
  split
  · exact .pure rfl
  apply Follows.get hA
  intro c d hcd
  have hends : (d.token.isPunct .rightBrace || d.atEnd || d.onNewLine) =
      (c.token.isPunct .rightBrace || c.atEnd || c.onNewLine) := by
    rw [hcd.token.isPunct, Cursor.atEnd, hcd.token.isEof, hcd.onNewLine]
    rfl
  rw [hends]
  split
  · exact .pure rfl
  · exact .fail _ _

theorem follows_comma (closer : Punct) : Follows A Eq (Parse.comma closer) (Parse.comma closer) := by
  apply (follows_atPunct hA closer).andThen
  intro b
  split
  · exact .pure rfl
  · exact follows_expect hA _

theorem follows_braces : Follows A (fun _ _ => True) Parse.braces Parse.braces := by
  constructor
  · intro c d c' ts hrel hrun
    obtain ⟨hbrace, k, hk, _, rfl⟩ := Parse.braces_run_ok hrun
    have hbrace' : d.token.isPunct .leftBrace = true := by rwa [(hA.sees hrel).token.isPunct]
    rcases hA.group hrel (Nat.le_refl 1) hk with hgone | ⟨hk', hrel'⟩
    · exact .inl ⟨hgone, [], trivial⟩
    · exact .inr (.inr ⟨_, _, Parse.braces_eq_ok hbrace' hk', trivial, hrel'⟩)
  · intro c c' ts hgone hrun
    obtain ⟨_, k, _, _, rfl⟩ := Parse.braces_run_ok hrun
    exact ⟨hA.move_gone hgone (by omega), [], trivial⟩

theorem follows_skipGroup : Follows A Eq Parse.skipGroup Parse.skipGroup := by
  constructor
  · intro c d c' u hrel hrun
    obtain ⟨opening, closer, k, hpair, hk, rfl⟩ := Parse.skipGroup_run_ok hrun
    have hpair' : Parse.delimiters? d.token = some (opening, closer) := by
      rwa [(hA.sees hrel).token.congr Parse.delimiters? fun _ _ => rfl]
    rcases hA.group hrel (Nat.zero_le 1) hk with hgone | ⟨hk', hrel'⟩
    · exact .inl ⟨hgone, _, rfl⟩
    · exact .inr (.inr ⟨_, _, Parse.skipGroup_eq_ok hpair' hk', rfl, hrel'⟩)
  · intro c c' u hgone hrun
    obtain ⟨_, _, k, _, _, rfl⟩ := Parse.skipGroup_run_ok hrun
    exact ⟨hA.move_gone hgone (by omega), _, rfl⟩

omit hA in
theorem nested_run_ok {x : Parse α} {c c' : Cursor} {a : α} (h : Parse.nested x c = (.ok a, c')) :
    c.depth < nestingLimit ∧ ∃ c₁, x c.deeper = (.ok a, c₁) ∧
      c' = c₁.shallower := by
  unfold Parse.nested at h
  split at h
  · cases h
  · rename_i hlimit
    rcases hout : x c.deeper with ⟨r, c₁⟩
    rw [hout] at h
    cases h
    exact ⟨Nat.lt_of_not_le hlimit, c₁, rfl, rfl⟩

theorem Follows.nested {x y : Parse α} (h : Follows A R x y) :
    Follows A R (Parse.nested x) (Parse.nested y) := by
  constructor
  · intro c d c' a hrel hrun
    obtain ⟨hdepth, c₁, hinner, rfl⟩ := nested_run_ok hrun
    obtain ⟨hdepth', hrel⟩ := hA.deeper hrel hdepth
    have hnested : Parse.nested y d = ((y d.deeper).1, (y d.deeper).2.shallower) :=
      if_neg (Nat.not_le_of_lt hdepth')
    rcases h.together hrel hinner with ⟨hgone, hb⟩ | ⟨e, he, hfault⟩ | ⟨b, d₁, hout, hab, hrel₁⟩
    · exact .inl ⟨hA.depth_gone hgone, hb⟩
    · exact .inr (.inl ⟨e, by rw [hnested, he], hfault⟩)
    · rw [hout] at hnested
      exact .inr (.inr ⟨b, _, hnested, hab, hA.shallower hrel₁⟩)
  · intro c c' a hgone hrun
    obtain ⟨_, c₁, hinner, rfl⟩ := nested_run_ok hrun
    obtain ⟨hgone, hb⟩ := h.alone (hA.depth_gone hgone) hinner
    exact ⟨hA.depth_gone hgone, hb⟩

theorem Follows.loop {R : σ → σ → Prop} {step step' : σ → Parse (σ ⊕ β)} {init init' : σ}
    (hstep : ∀ a b, R a b → Follows A (Sum.LiftRel R T) (step a) (step' b)) (h : R init init') :
    Follows A T (Parse.loop init step) (Parse.loop init' step') :=
  .get hA fun _ _ _ => Follows.repeated hstep _ _ _ _ h

theorem Follows.itemsLoop {item item' : Parse α} (h : Follows A R item item') (closer : Punct) :
    Follows A (List.Forall₂ R)
      (Parse.loop [] fun acc => do
        if ← Parse.atPunct closer then return .inr acc.reverse
        return .inl ((← item) :: acc))
      (Parse.loop [] fun acc => do
        if ← Parse.atPunct closer then return .inr acc.reverse
        return .inl ((← item') :: acc)) := by
  refine Follows.loop (R := List.Forall₂ R) hA (fun acc acc' hacc => ?_) .nil
  apply (follows_atPunct hA closer).andThen
  intro b
  split
  · exact .pure (.inr (List.rel_reverse hacc))
  · exact h.bind fun a b hab => .pure (.inl (.cons hab hacc))

theorem Follows.itemsUntil {item item' : Parse α} (h : Follows A R item item') (closer : Punct) :
    Follows A (List.Forall₂ R) (Parse.itemsUntil closer item) (Parse.itemsUntil closer item') :=
  (Follows.itemsLoop hA h closer).bind fun _ _ hitems =>
    (follows_expect hA closer).andThen fun _ => .pure hitems

end

end Typings
