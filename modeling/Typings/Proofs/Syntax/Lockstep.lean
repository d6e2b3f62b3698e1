import Typings.Proofs.Syntax.Grouping
import Typings.Proofs.Syntax.Parallel

namespace Typings

open Parse

namespace Cursor

variable {L : Likeness} {c d : Cursor} {x x' y y' : Lexeme} {k k' : Nat}

theorem getElem?_pos (c : Cursor) : c.tokens.toList[c.pos]? = some c.lexeme := by
  have hlt := c.pos_lt
  rw [Array.getElem?_toList, Array.getElem?_eq_getElem hlt]
  rfl

theorem previousSpan_eq (h : c.tokens.toList[c.pos - 1]? = some y) : c.previousSpan = y.2 := by
  have hlt := c.pos_lt
  rw [Array.getElem?_toList, Array.getElem?_eq_getElem (by omega)] at h
  cases h
  rfl

theorem tokenAt_eq {i : Nat} (h : c.tokens.toList[i]? = some x) : c.tokenAt i = x.1 := by
  have hi : i < c.tokens.size := by
    obtain ⟨hi, _⟩ := List.getElem?_eq_some_iff.1 h
    rwa [Array.length_toList] at hi
  rw [tokenAt_of_lt hi]
  rw [Array.getElem?_toList, Array.getElem?_eq_getElem hi] at h
  cases h
  rfl

theorem Sees.intro (hx : c.tokens.toList[c.pos]? = some x) (hx' : d.tokens.toList[d.pos]? = some x')
    (hy : c.tokens.toList[c.pos - 1]? = some y) (hy' : d.tokens.toList[d.pos - 1]? = some y')
    (hxx : Lexeme.Like L.span k k' x x') (hyy : Lexeme.Like L.span k k' y y')
    (hpos : 0 < d.pos ↔ 0 < c.pos)
    (hnext : x.1.isPunct .leftBrace = false → x.1.isPunct .rightBrace = false →
      (c.peek 1).Like L.span (d.peek 1)) :
    c.Sees L d := by
  obtain rfl : c.lexeme = x := Option.some.inj (c.getElem?_pos.symm.trans hx)
  obtain rfl : d.lexeme = x' := Option.some.inj (d.getElem?_pos.symm.trans hx')
  obtain ⟨htoken, hspan, hline⟩ := Lexeme.like_iff.1 hxx
  obtain ⟨_, hspan', hline'⟩ := Lexeme.like_iff.1 hyy
  have hline : c.span.line + k = d.span.line + k' := hline
  have htoken : c.token.Like L.span d.token := htoken
  constructor
  case token => exact htoken
  case span => exact hspan
  case previousSpan =>
    rw [previousSpan_eq hy, previousSpan_eq hy']
    exact hspan'
  case onNewLine =>
    have hlines : decide (y'.2.line < d.span.line) = decide (y.2.line < c.span.line) :=
      decide_eq_decide.2 (by omega)
    rw [Cursor.onNewLine, Cursor.onNewLine, previousSpan_eq hy, previousSpan_eq hy', hlines,
      decide_eq_decide.2 hpos]
  case next => exact hnext

/-- Only from a parenthesis on there is more to look at than a place shows. -/
theorem Sees.atArrow_eq (h : c.Sees L d) (hparen : c.token = .punct .leftParen →
    d.token = .punct .leftParen → Grammar.atArrow d = Grammar.atArrow c) :
    Grammar.atArrow d = Grammar.atArrow c := by
  rcases h.token.eq_or with ht | ⟨parts, parts', ht, ht'⟩
  · by_cases hc : c.token = .punct .leftParen
    · exact hparen hc (ht.trans hc)
    · unfold Grammar.atArrow
      rw [ht]
      split
      · rename_i hname
        have hpunct : ∀ p, c.token.isPunct p = false := by
          intro p
          rw [hname]
          rfl
        exact (h.next (hpunct _) (hpunct _)).isPunct _
      · contradiction
      · rfl
  · rw [Grammar.atArrow, Grammar.atArrow, ht, ht']

/--
The same place in lists that are alike. The bodies that were passed have an end.
-/
structure Alike (L : Likeness) (c d : Cursor) : Prop where
  tokens : Lexeme.AllLike L.span c.tokens.toList d.tokens.toList
  pos : d.pos = c.pos
  depth : d.depth ≤ c.depth
  bodies : ∀ i ∈ c.bodies, ∃ k,
    groupSearch .leftBrace .rightBrace (c.tokens.toList.drop (i + 1)) 1 = .found k

namespace Alike

variable (h : c.Alike L d)
include h

theorem forall_getElem? : ∃ k k', ∀ (i : Nat) x, c.tokens.toList[i]? = some x →
    ∃ x', d.tokens.toList[i]? = some x' ∧ Lexeme.Like L.span k k' x x' := by
  obtain ⟨k, k', htokens⟩ := h.tokens
  rw [Lexeme.shifted_eq] at htokens
  refine ⟨k, k', fun i x hx => ?_⟩
  obtain ⟨hi, rfl⟩ := List.getElem?_eq_some_iff.1 hx
  have hi' : i < d.tokens.toList.length := htokens.length_eq ▸ hi
  exact ⟨_, List.getElem?_eq_getElem hi', htokens.get hi hi'⟩

theorem size_eq : d.tokens.size = c.tokens.size := by
  obtain ⟨k, k', htokens⟩ := h.tokens
  rw [Lexeme.shifted_eq] at htokens
  rw [← Array.length_toList, ← Array.length_toList, htokens.length_eq]

theorem tokenAt (i : Nat) : (c.tokenAt i).Like L.span (d.tokenAt i) := by
  obtain ⟨k, k', htokens⟩ := h.forall_getElem?
  have hlt := c.pos_lt
  have hmin : min i (c.tokens.size - 1) < c.tokens.toList.length := by
    rw [Array.length_toList]
    omega
  obtain ⟨x', hx', hlike⟩ := htokens _ _ (List.getElem?_eq_getElem hmin)
  have hd : d.tokenAt i = x'.1 := by
    rw [← tokenAt_eq hx', Cursor.tokenAt, Cursor.tokenAt]
    simp only [h.size_eq]
    congr 2
    omega
  rw [hd]
  exact (Lexeme.like_iff.1 hlike).1

theorem groupSearch_eq (opening closer : Punct) (i opened : Nat) :
    groupSearch opening closer (d.tokens.toList.drop i) opened =
      groupSearch opening closer (c.tokens.toList.drop i) opened := by
  obtain ⟨k, k', htokens⟩ := h.tokens
  rw [Lexeme.shifted_eq] at htokens
  exact groupSearch_congr (List.forall₂_drop i htokens) opened

theorem between (i n : Nat) :
    Lexeme.AllLike L.span ((c.tokens.toList.drop i).take n) ((d.tokens.toList.drop i).take n) := by
  obtain ⟨k, k', htokens⟩ := h.tokens
  rw [Lexeme.shifted_eq] at htokens
  refine ⟨k, k', ?_⟩
  rw [Lexeme.shifted_eq]
  exact List.forall₂_take n (List.forall₂_drop i htokens)

theorem sees : c.Sees L.inside d := by
  obtain ⟨k, k', htokens⟩ := h.forall_getElem?
  have hlt := c.pos_lt
  have hprevious : c.pos - 1 < c.tokens.toList.length := by
    rw [Array.length_toList]
    omega
  obtain ⟨x', hx', hxx⟩ := htokens c.pos _ c.getElem?_pos
  obtain ⟨y', hy', hyy⟩ := htokens (c.pos - 1) _ (List.getElem?_eq_getElem hprevious)
  have hpos := h.pos
  apply Sees.intro (L := L.inside) c.getElem?_pos (hpos ▸ hx')
    (List.getElem?_eq_getElem hprevious) (hpos ▸ hy') hxx hyy (by rw [hpos])
  intro _ _
  rw [peek, peek, hpos]
  exact h.tokenAt _

theorem atArrow_eq : Grammar.atArrow d = Grammar.atArrow c := by
  refine h.sees.atArrow_eq fun hc hd => ?_
  have hsearch := h.groupSearch_eq .leftParen .rightParen c.pos 0
  apply atArrow_eq_of_paren hc hd
  rw [h.pos, hsearch]
  cases groupSearch .leftParen .rightParen (c.tokens.toList.drop c.pos) 0 with
  | found k => exact .inl ⟨k, k, rfl, rfl, (h.tokenAt _).isPunct _⟩
  | _ => exact .inr ⟨by simp, by simp⟩

theorem moveTo {i : Nat} : (c.moveTo i).Alike L (d.moveTo i) where
  tokens := h.tokens
  pos := by
    show min i (d.tokens.size - 1) = min i (c.tokens.size - 1)
    rw [h.size_eq]
  depth := h.depth
  bodies := h.bodies

theorem step : c.step.Alike L d.step := by
  unfold Cursor.step
  simp only [h.size_eq, h.pos]
  split
  · exact ⟨h.tokens, rfl, h.depth, h.bodies⟩
  · exact h

end Alike

end Cursor

/-- Lists that are alike, read from the same index on. -/
def Pairing.alike (L : Likeness) : Pairing where
  like := L.inside
  Rel := Cursor.Alike L
  Gone _ := False

theorem Likeness.Sound.inside {L : Likeness} (h : L.Sound) : L.inside.Sound :=
  ⟨h.span_refl, h.through, h.behind, h.source, h.known⟩

namespace Pairing

variable {L : Likeness}

theorem alike_sound (hL : L.Sound) : (alike L).Sound where
  like := hL.inside
  sees hrel := hrel.sees
  atArrow hrel := .inl hrel.atArrow_eq
  step hrel := .inr hrel.step
  deeper hrel hdepth :=
    ⟨Nat.lt_of_le_of_lt hrel.depth hdepth, hrel.tokens, hrel.pos, Nat.succ_le_succ hrel.depth,
      hrel.bodies⟩
  shallower hrel := ⟨hrel.tokens, hrel.pos, Nat.sub_le_sub_right hrel.depth 1, hrel.bodies⟩
  body := by
    refine ⟨fun {c d c' a} hrel hrun => .inr (.inr ?_), fun hgone => hgone.elim⟩
    obtain ⟨hbrace, k, hk, rfl, rfl⟩ := body_run_ok hrun
    have hbrace' : d.token.isPunct .leftBrace = true := by
      rwa [hrel.sees.token.isPunct]
    have hk' := hk
    rw [← hrel.groupSearch_eq, ← hrel.pos] at hk'
    refine ⟨_, _, body_eq_ok hbrace' hk', ⟨_, _, rfl, ?_⟩, ?_⟩
    · rw [hrel.pos]
      exact ⟨hL.source _, hrel.between _ _⟩
    · rw [hrel.pos]
      refine ⟨hrel.tokens, hrel.moveTo.pos, hrel.depth, fun i hi => ?_⟩
      rcases List.mem_cons.1 hi with rfl | hi
      · exact ⟨k, hk⟩
      · exact hrel.bodies i hi
  group hrel _ hk := by
    rw [← hrel.groupSearch_eq, ← hrel.pos] at hk
    exact .inr ⟨hk, hrel.pos ▸ hrel.moveTo⟩
  sees_gone hgone := hgone.elim
  step_gone hgone := hgone.elim
  depth_gone hgone := hgone.elim
  move_gone hgone := hgone.elim

theorem outcome_of_follows {α : Type} {R : α → α → Prop} {x y : Parse α} {c d : Cursor} {a : α}
    (h : Follows (alike L) R x y) (hrel : c.Alike L d) (ha : (x c).1 = .ok a) :
    Exhausted (y d).1 ∨ ∃ b, (y d).1 = .ok b ∧ R a b := by
  have hrun : x c = (.ok a, (x c).2) := Prod.ext ha rfl
  rcases h.together hrel hrun with ⟨hgone, _⟩ | hexhausted | ⟨b, d', hout, hab, _⟩
  · exact hgone.elim
  · exact .inl hexhausted
  · exact .inr ⟨b, congrArg Prod.fst hout, hab⟩

end Pairing

theorem Cursor.terminated_of_getLast? {ts : List Lexeme} {t : Token} {s : Span}
    (h : ts.getLast? = some (t, s)) : terminated ts =
      if t.isEof then ts else ts ++ [(.eof, { s with start := s.stop })] := by
  rw [terminated, h]
  cases t <;> rfl

theorem Lexeme.AllLike.terminated {L : Likeness} (hL : L.Sound) {ts ts' : List Lexeme}
    (h : Lexeme.AllLike L.span ts ts') :
    Lexeme.AllLike L.span (Cursor.terminated ts) (Cursor.terminated ts') := by
  obtain ⟨k, k', h⟩ := h
  rw [Lexeme.shifted_eq] at h
  have hlast := forall₂_getLast? h
  generalize ho : ts.getLast? = o, ho' : ts'.getLast? = o' at hlast
  cases hlast with
  | none =>
    rw [Cursor.terminated, Cursor.terminated, ho, ho']
    exact ⟨0, 0, .refl 0 hL.span_refl _⟩
  | some hx =>
    obtain ⟨ht, hs, hline⟩ := Lexeme.like_iff.1 hx
    rw [Cursor.terminated_of_getLast? ho, Cursor.terminated_of_getLast? ho', ht.isEof]
    refine ⟨k, k', ?_⟩
    rw [Lexeme.shifted_eq]
    split
    · exact h
    · exact List.rel_append h (.cons (Lexeme.like_iff.2 ⟨rfl, hL.behind hs, hline⟩) .nil)

theorem Cursor.alike_ofTokens {L : Likeness} (hL : L.Sound) {ts ts' : List Lexeme}
    (h : Lexeme.AllLike L.span ts ts') : (Cursor.ofTokens ts).Alike L (Cursor.ofTokens ts') where
  tokens := by simpa [ofTokens] using h.terminated hL
  pos := rfl
  depth := Nat.le_refl _
  bodies := by simp [ofTokens]

namespace Grammar

variable {L : Likeness} {g g' : Grammar}

theorem wholeOf_follow (hL : L.Sound) (hg : g.Parallel (.alike L) g') {ts ts' : List Lexeme}
    (h : Lexeme.AllLike L.span ts ts') {e : Expr} (he : wholeOf g ts = .ok e) :
    Exhausted (wholeOf g' ts') ∨ ∃ e', wholeOf g' ts' = .ok e' ∧ e.Like L.inside e' := by
  have hA := Pairing.alike_sound hL
  have hread : Follows (.alike L) (Expr.Like L.inside)
      (do
        let e ← expressionOf g
        unless (← get).atEnd do unexpected [.eof]
        return e)
      (do
        let e ← expressionOf g'
        unless (← get).atEnd do unexpected [.eof]
        return e) := by
    apply (follows_expressionOf hA hg).bind
    intro e e' he
    apply Follows.get hA
    intro c d hcd
    rw [show d.atEnd = c.atEnd from hcd.token.isEof]
    dsimp only
    split
    · exact .pure he
    · exact .unexpected_bind _
  exact Pairing.outcome_of_follows hread (Cursor.alike_ofTokens hL h) he

theorem parallel_exhausted {A : Pairing} (g' : Grammar) : exhausted.Parallel A g' := by
  have hfails : ∀ {α : Type} {R : α → α → Prop} {y : Parse α},
      Follows A R (do fail .exhausted (← here)) y := by
    intro α R y
    apply Follows.of_fails
    intro c a c' hrun
    cases hrun
  exact ⟨⟨0, rfl⟩, hfails, hfails, fun _ => hfails, hfails, hfails, hfails, hfails,
    fun _ he => (by cases he)⟩

/-- However many levels two grammars have, one follows the other unless its levels run out. -/
theorem levels_parallel (n n' : Nat) {A : Pairing} (hA : A.Sound) :
    (levels n).Parallel A (levels n') := by
  induction n generalizing n' A with
  | zero => exact parallel_exhausted _
  | succ n ih =>
    have hwhole : ∀ {ts ts' e}, Lexeme.AllLike A.like.span ts ts' → wholeOf (levels n) ts = .ok e →
        ∀ m, Exhausted (wholeOf (levels m) ts') ∨
          ∃ e', wholeOf (levels m) ts' = .ok e' ∧ e.Like A.like.inside e' :=
      fun h he m => wholeOf_follow hA.like (ih m (Pairing.alike_sound hA.like)) h he
    have hself : ∀ {ts e}, wholeOf (levels n) ts = .ok e → ∃ e', e.Like A.like.inside e' := by
      intro ts e he
      rcases hwhole ⟨0, 0, .refl 0 hA.like.span_refl ts⟩ he n with ⟨_, herr, _⟩ | ⟨e', _, h⟩
      · rw [he] at herr
        cases herr
      · exact ⟨e', h⟩
    cases n' with
    | zero =>
      have hg := ih n hA
      exact {
        level := ⟨_, rfl⟩
        expression := (follows_expressionOf hA hg).exhausted
        assignment := (follows_assignmentOf hA hg).exhausted
        infixes := fun least => (follows_infixesOf hA hg least).exhausted
        unary := (follows_unaryOf hA hg).exhausted
        instantiation := (follows_instantiationOf hA hg).exhausted
        leftHandSide := (follows_leftHandSideOf hA hg).exhausted
        statement := (follows_statementOf hA hg).exhausted
        whole := fun _ he => ⟨hself he, .inl ⟨_, rfl, rfl⟩⟩ }
    | succ n' =>
      have hg := ih n' hA
      exact {
        level := ⟨_, rfl⟩
        expression := follows_expressionOf hA hg
        assignment := follows_assignmentOf hA hg
        infixes := follows_infixesOf hA hg
        unary := follows_unaryOf hA hg
        instantiation := follows_instantiationOf hA hg
        leftHandSide := follows_leftHandSideOf hA hg
        statement := follows_statementOf hA hg
        whole := fun h he => ⟨hself he, hwhole h he n'⟩ }

end Grammar

end Typings
