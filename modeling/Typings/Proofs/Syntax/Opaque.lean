import Typings.Proofs.Syntax.Whole

namespace Typings

open Parse

def tokensAround (before : List Lexeme) (opening : Span) (body : List Lexeme) (closing : Span)
    (after : List Lexeme) : List Lexeme :=
  before ++ (.punct .leftBrace, opening) :: (body ++ (.punct .rightBrace, closing) :: after)

/-- Trees that are equal, but that the body which opens at `opening` is `new` and not `old`. -/
def Likeness.exceptBody (opening : Nat) (old new : List Lexeme) : Likeness where
  span := Eq
  source _ := True
  known _ := True
  body ts i ts' := if i = opening then ts = old ∧ ts' = new else ts' = ts

/-- Tokens in which those between two braces are exchanged for others. -/
structure BodyChange where
  before : List Lexeme
  opening : Span
  old : List Lexeme
  new : List Lexeme
  closing : Span
  after : List Lexeme
  noEof_old : ∀ x ∈ old, x.1.isEof = false
  noEof_new : ∀ x ∈ new, x.1.isEof = false
  braces_old : Balanced .leftBrace .rightBrace old
  braces_new : Balanced .leftBrace .rightBrace new
  parens_old : Balanced .leftParen .rightParen old
  parens_new : Balanced .leftParen .rightParen new

theorem Cursor.bodies_step (c : Cursor) : c.step.bodies = c.bodies := by
  unfold Cursor.step
  split
  · rfl
  · rfl

namespace BodyChange

/-- A body in its braces, and the tokens behind it. -/
def inBraces (w : BodyChange) (body : List Lexeme) : List Lexeme :=
  (.punct .leftBrace, w.opening) :: (body ++ (.punct .rightBrace, w.closing) :: w.after)

def around (w : BodyChange) (body : List Lexeme) : List Lexeme := w.before ++ w.inBraces body

def likeness (w : BodyChange) : Likeness := .exceptBody w.before.length w.old w.new

variable {w : BodyChange} {c d c' : Cursor} {ts : List Lexeme} {i j : Nat}

theorem likeness_sound (w : BodyChange) : w.likeness.Sound where
  span_refl _ := rfl
  through h h' := congrArg₂ Span.through h h'
  behind h := by
    cases h
    rfl
  source _ := trivial
  known _ := trivial

section
variable (heof : ∀ x ∈ ts, x.1.isEof = false)
include heof

theorem groupSearch_braces (hbraces : Balanced .leftBrace .rightBrace ts) :
    groupSearch .leftBrace .rightBrace (ts ++ (.punct .rightBrace, w.closing) :: w.after) 1 =
      .found ts.length := by
  rw [groupSearch_append, groupSearch_of_balanced heof hbraces (Nat.le_refl 1)]
  rfl

/-- A search for the end of an outer group in parentheses passes a group in braces. -/
theorem groupSearch_parens (hparens : Balanced .leftParen .rightParen ts) {outer : Nat}
    (houter : 1 ≤ outer) :
    groupSearch .leftParen .rightParen (w.inBraces ts) outer =
      (groupSearch .leftParen .rightParen w.after outer).shift (ts.length + 2) := by
  have hbody : groupSearch .leftParen .rightParen
      (ts ++ (.punct .rightBrace, w.closing) :: w.after) outer =
        ((groupSearch .leftParen .rightParen w.after outer).shift 1).shift ts.length := by
    rw [groupSearch_append, groupSearch_of_balanced heof hparens houter]
    rfl
  have hopening : groupSearch .leftParen .rightParen (w.inBraces ts) outer =
      (groupSearch .leftParen .rightParen
        (ts ++ (.punct .rightBrace, w.closing) :: w.after) outer).shift 1 := rfl
  rw [hopening, hbody, GroupSearch.shift_shift, GroupSearch.shift_shift]
  congr 1
  omega

end

theorem getElem?_around_of_le (hi : i ≤ w.before.length) :
    (w.around ts)[i]? = (w.before ++ [(.punct .leftBrace, w.opening)])[i]? := by
  rw [around, inBraces, List.append_cons, List.getElem?_append_left]
  simp only [List.length_append, List.length_singleton]
  omega

theorem getElem?_around_before : (w.around ts)[w.before.length]? =
    some (.punct .leftBrace, w.opening) := by
  rw [getElem?_around_of_le (Nat.le_refl _), List.getElem?_concat_length]

theorem groupSearch_around (opening closer : Punct) (ts : List Lexeme) (opened : Nat)
    (hi : i ≤ w.before.length) :
    groupSearch opening closer ((w.around ts).drop i) opened =
      (groupSearch opening closer (w.before.drop i) opened).andThen (w.before.drop i).length
        (groupSearch opening closer (w.inBraces ts)) := by
  rw [around, List.drop_append_of_le_length hi, groupSearch_append]

theorem drop_around_succ : (w.around ts).drop (w.before.length + 1) =
    ts ++ (.punct .rightBrace, w.closing) :: w.after := by
  rw [around, inBraces, List.drop_append]
  simp

theorem drop_around_after (ts : List Lexeme) (j : Nat) : (w.around ts).drop (w.before.length + 1 + ts.length + j) =
    ((.punct .rightBrace, w.closing) :: w.after).drop j := by
  rw [← List.drop_drop, ← List.drop_drop, drop_around_succ, List.drop_append]
  simp

theorem getElem?_around_after (ts : List Lexeme) (j : Nat) :
    (w.around ts)[w.before.length + 1 + ts.length + j]? =
      ((.punct .rightBrace, w.closing) :: w.after)[j]? := by
  rw [← Nat.add_zero (w.before.length + 1 + ts.length + j), ← List.getElem?_drop,
    drop_around_after, List.getElem?_drop, Nat.add_zero]

theorem length_around : (w.around ts).length = w.before.length + ts.length + w.after.length + 2 := by
  simp only [around, inBraces, List.length_append, List.length_cons]
  omega

/-- Both readings are at the same place and have not passed the body. -/
structure Before (w : BodyChange) (c d : Cursor) : Prop where
  left : c.tokens.toList = w.around w.old
  right : d.tokens.toList = w.around w.new
  depth : d.depth = c.depth
  pos_le : c.pos ≤ w.before.length
  pos : d.pos = c.pos
  fresh : w.before.length ∉ c.bodies

/-- Both readings have passed the body and are equally far behind it. -/
structure After (w : BodyChange) (c d : Cursor) : Prop where
  left : c.tokens.toList = w.around w.old
  right : d.tokens.toList = w.around w.new
  depth : d.depth = c.depth
  behind : ∃ j, c.pos = w.before.length + 1 + w.old.length + (j + 1) ∧
    d.pos = w.before.length + 1 + w.new.length + (j + 1)
  passed : w.before.length ∈ c.bodies

/-- The first reading is gone when it is behind the opening brace and has not passed the body. -/
def pairing (w : BodyChange) : Pairing where
  like := w.likeness
  Rel c d := w.Before c d ∨ w.After c d
  Gone c := w.before.length < c.pos ∧ w.before.length ∉ c.bodies

namespace Before

variable (h : w.Before c d)
include h

theorem getElem?_eq (hi : i ≤ w.before.length) : d.tokens.toList[i]? = c.tokens.toList[i]? := by
  rw [h.left, h.right, getElem?_around_of_le hi, getElem?_around_of_le hi]

theorem exists_getElem? (hi : i ≤ w.before.length) :
    ∃ x, c.tokens.toList[i]? = some x ∧ d.tokens.toList[i]? = some x := by
  have hlength : i < c.tokens.toList.length := by
    rw [h.left, length_around]
    omega
  refine ⟨_, List.getElem?_eq_getElem hlength, ?_⟩
  rw [h.getElem?_eq hi]
  exact List.getElem?_eq_getElem hlength

theorem tokenAt_eq (hi : i ≤ w.before.length) : d.tokenAt i = c.tokenAt i := by
  obtain ⟨x, hx, hx'⟩ := h.exists_getElem? hi
  rw [Cursor.tokenAt_eq hx, Cursor.tokenAt_eq hx']

theorem pos_lt {t : Token} (ht : c.token = t) (hbrace : t.isPunct .leftBrace = false) :
    c.pos < w.before.length := by
  rcases Nat.lt_or_eq_of_le h.pos_le with hlt | heq
  · exact hlt
  · have hx := c.getElem?_pos
    rw [h.left, heq, getElem?_around_before] at hx
    have ht' : c.token = .punct .leftBrace := by rw [Cursor.token, ← Option.some.inj hx]
    rw [← ht, ht'] at hbrace
    cases hbrace

/-- A group either ends before the body in both, or it ends behind the opening brace. -/
theorem groupSearch_found {opening closer : Punct} {opened k : Nat} (hi : i ≤ w.before.length)
    (hk : groupSearch opening closer (c.tokens.toList.drop i) opened = .found k) :
    (i + k < w.before.length ∧
      groupSearch opening closer (d.tokens.toList.drop i) opened = .found k) ∨
      w.before.length ≤ i + k := by
  rcases Nat.lt_or_ge (i + k) w.before.length with hlt | hge
  · refine .inl ⟨hlt, ?_⟩
    rw [h.left, groupSearch_around _ _ _ _ hi] at hk
    rw [h.right, groupSearch_around _ _ _ _ hi]
    cases hsearch : groupSearch opening closer (w.before.drop i) opened with
    | found k' =>
      rw [hsearch] at hk
      exact hk
    | stopped =>
      rw [hsearch] at hk
      cases hk
    | unfinished m =>
      rw [hsearch] at hk
      obtain ⟨k', _, rfl⟩ := GroupSearch.shift_eq_found hk
      rw [List.length_drop] at hlt
      omega
  · exact .inr hge

theorem lexeme_eq : d.lexeme = c.lexeme := by
  have hd := d.getElem?_pos
  rw [h.pos, h.getElem?_eq h.pos_le, c.getElem?_pos] at hd
  exact (Option.some.inj hd).symm

theorem sees : c.Sees w.likeness d := by
  obtain ⟨y, hy, hy'⟩ := h.exists_getElem? (Nat.le_trans (Nat.sub_le c.pos 1) h.pos_le)
  have hspan : ∀ s, w.likeness.span s s := fun _ => rfl
  apply Cursor.Sees.intro c.getElem?_pos d.getElem?_pos hy (h.pos.symm ▸ hy')
    (h.lexeme_eq ▸ Lexeme.Like.refl 0 hspan c.lexeme) (Lexeme.Like.refl 0 hspan y) (by rw [h.pos])
  intro hbrace _
  have hlt := h.pos_lt rfl hbrace
  rw [Cursor.peek, Cursor.peek, h.pos, h.tokenAt_eq hlt]
  exact .refl hspan _

/-- The parenthesis that closes the one at the place, from what stands around the body. -/
theorem atArrow_eq : Grammar.atArrow d = Grammar.atArrow c := by
  refine h.sees.atArrow_eq fun hc hd => ?_
  have hlt := h.pos_lt hc rfl
  apply Cursor.atArrow_eq_of_paren hc hd
  rw [h.pos]
  have hleft := groupSearch_around .leftParen .rightParen w.old 0 h.pos_le
  have hright := groupSearch_around .leftParen .rightParen w.new 0 h.pos_le
  rw [← h.left] at hleft
  rw [← h.right] at hright
  cases hsearch : groupSearch .leftParen .rightParen (w.before.drop c.pos) 0 with
  | found k =>
    rw [hsearch] at hleft hright
    refine .inl ⟨k, k, hleft, hright, ?_⟩
    obtain ⟨x, hx, _⟩ := getElem?_of_groupSearch_found hsearch
    obtain ⟨hk, _⟩ := List.getElem?_eq_some_iff.1 hx
    rw [List.length_drop] at hk
    rw [h.tokenAt_eq (by omega)]
  | stopped =>
    rw [hsearch] at hleft hright
    refine .inr ⟨fun k hk => ?_, fun k hk => ?_⟩
    · rw [hleft] at hk
      cases hk
    · rw [hright] at hk
      cases hk
  | unfinished m =>
    -- the group is open at the body, so that its end is counted from behind the body
    have hm : 1 ≤ m := by
      have hx := c.getElem?_pos
      rw [h.left, getElem?_around_of_le h.pos_le, List.getElem?_append_left hlt] at hx
      obtain ⟨_, hx⟩ := List.getElem?_eq_some_iff.1 hx
      rw [List.drop_eq_getElem_cons hlt, hx] at hsearch
      have hparen : c.lexeme.1.isPunct .leftParen = true := by rw [← Cursor.token, hc]; rfl
      exact pos_of_groupSearch_opening hparen hsearch
    rw [hsearch, GroupSearch.andThen, groupSearch_parens w.noEof_old w.parens_old hm,
      GroupSearch.shift_shift] at hleft
    rw [hsearch, GroupSearch.andThen, groupSearch_parens w.noEof_new w.parens_new hm,
      GroupSearch.shift_shift] at hright
    cases hafter : groupSearch .leftParen .rightParen w.after m with
    | found k =>
      rw [hafter] at hleft hright
      refine .inl ⟨_, _, hleft, hright, ?_⟩
      have hindex : ∀ n : Nat, c.pos + ((w.before.drop c.pos).length + (n + 2) + k) + 1 =
          w.before.length + 1 + n + (k + 2) := by
        intro n
        rw [List.length_drop]
        omega
      have hin := Cursor.lt_of_groupSearch_found hleft
      rw [hindex, ← Array.length_toList] at hin
      obtain ⟨x, hx⟩ : ∃ x, c.tokens.toList[w.before.length + 1 + w.old.length + (k + 2)]? = some x :=
        ⟨_, List.getElem?_eq_getElem hin⟩
      have hx' := hx
      rw [h.left, getElem?_around_after, ← getElem?_around_after w.new, ← h.right] at hx'
      rw [hindex, hindex, Cursor.tokenAt_eq hx, Cursor.tokenAt_eq hx']
    | _ =>
      rw [hafter] at hleft hright
      refine .inr ⟨fun k hk => ?_, fun k hk => ?_⟩
      · rw [hleft] at hk
        cases hk
      · rw [hright] at hk
        cases hk

theorem between_eq {n : Nat} (hi : i + n ≤ w.before.length) :
    (d.tokens.toList.drop i).take n = (c.tokens.toList.drop i).take n := by
  have hbefore : ∀ ts, ((w.around ts).drop i).take n = (w.before.drop i).take n := by
    intro ts
    rw [around, List.drop_append_of_le_length (by omega), List.take_append_of_le_length]
    rw [List.length_drop]
    omega
  rw [h.left, h.right, hbefore, hbefore]

theorem moveTo {j : Nat} (hj : j ≤ w.before.length) : w.Before (c.moveTo j) (d.moveTo j) := by
  have hc : j < c.tokens.size := by
    rw [← Array.length_toList, h.left, length_around]
    omega
  have hd : j < d.tokens.size := by
    rw [← Array.length_toList, h.right, length_around]
    omega
  refine ⟨h.left, h.right, h.depth, ?_, ?_, h.fresh⟩
  · rw [Cursor.pos_moveTo hc]
    exact hj
  · rw [Cursor.pos_moveTo hc, Cursor.pos_moveTo hd]

theorem step : w.pairing.Gone c.step ∨ w.pairing.Rel c.step d.step := by
  have hsize : w.before.length + 1 < c.tokens.size := by
    rw [← Array.length_toList, h.left, length_around]
    omega
  have hsize' : w.before.length + 1 < d.tokens.size := by
    rw [← Array.length_toList, h.right, length_around]
    omega
  have hle := h.pos_le
  have hpos := h.pos
  rw [Cursor.step, Cursor.step, dif_pos (by omega), dif_pos (by omega)]
  rcases Nat.lt_or_eq_of_le hle with hlt | heq
  · exact .inr (.inl ⟨h.left, h.right, h.depth, hlt, by simp [hpos], h.fresh⟩)
  · exact .inl ⟨by simp [heq], h.fresh⟩

end Before

namespace After

variable (h : w.After c d)
include h

theorem drop_eq (j : Nat) : d.tokens.toList.drop (d.pos + j) = c.tokens.toList.drop (c.pos + j) := by
  obtain ⟨i, hc, hd⟩ := h.behind
  rw [h.left, h.right, hc, hd, Nat.add_assoc _ (i + 1), Nat.add_assoc _ (i + 1),
    drop_around_after, drop_around_after]

theorem getElem?_eq (j : Nat) : d.tokens.toList[d.pos + j]? = c.tokens.toList[c.pos + j]? := by
  have hdrop := congrArg (·[0]?) (h.drop_eq j)
  simpa only [List.getElem?_drop, Nat.add_zero] using hdrop

theorem previous_eq : d.tokens.toList[d.pos - 1]? = c.tokens.toList[c.pos - 1]? := by
  obtain ⟨i, hc, hd⟩ := h.behind
  have hc' : c.pos - 1 = w.before.length + 1 + w.old.length + i := by omega
  have hd' : d.pos - 1 = w.before.length + 1 + w.new.length + i := by omega
  rw [h.left, h.right, hc', hd', getElem?_around_after, getElem?_around_after]

theorem size_iff (j : Nat) : d.pos + j < d.tokens.size ↔ c.pos + j < c.tokens.size := by
  have hlength := congrArg List.length (h.drop_eq j)
  simp only [List.length_drop, Array.length_toList] at hlength
  omega

theorem lexeme_eq : d.lexeme = c.lexeme := by
  have hd := h.getElem?_eq 0
  rw [Nat.add_zero, Nat.add_zero, d.getElem?_pos, c.getElem?_pos] at hd
  exact Option.some.inj hd

theorem tokenAt_eq (j : Nat) : d.tokenAt (d.pos + j) = c.tokenAt (c.pos + j) := by
  rcases Nat.lt_or_ge (c.pos + j) c.tokens.size with hlt | hge
  · rw [← Array.length_toList] at hlt
    have hx := List.getElem?_eq_getElem hlt
    rw [Cursor.tokenAt_eq hx, Cursor.tokenAt_eq ((h.getElem?_eq j).trans hx)]
  · have hge' : d.tokens.size ≤ d.pos + j := by
      have := h.size_iff j
      omega
    rw [Cursor.tokenAt_of_le hge, Cursor.tokenAt_of_le hge']

theorem sees : c.Sees w.likeness d := by
  obtain ⟨i, hc, hd⟩ := h.behind
  have hspan : ∀ s, w.likeness.span s s := fun _ => rfl
  have hlt := c.pos_lt
  obtain ⟨y, hy⟩ : ∃ y, c.tokens.toList[c.pos - 1]? = some y :=
    ⟨_, List.getElem?_eq_getElem (by rw [Array.length_toList]; omega)⟩
  apply Cursor.Sees.intro c.getElem?_pos d.getElem?_pos hy (h.previous_eq.trans hy)
    (h.lexeme_eq ▸ Lexeme.Like.refl 0 hspan c.lexeme) (Lexeme.Like.refl 0 hspan y) (by omega)
  intro _ _
  rw [Cursor.peek, Cursor.peek, h.tokenAt_eq]
  exact .refl hspan _

theorem atArrow_eq : Grammar.atArrow d = Grammar.atArrow c := by
  refine h.sees.atArrow_eq fun hparen hparen' => ?_
  have hdrop := h.drop_eq 0
  rw [Nat.add_zero, Nat.add_zero] at hdrop
  apply Cursor.atArrow_eq_of_paren hparen hparen'
  rw [hdrop]
  cases groupSearch .leftParen .rightParen (c.tokens.toList.drop c.pos) 0 with
  | found k => exact .inl ⟨k, k, rfl, rfl, by rw [Nat.add_assoc, h.tokenAt_eq, Nat.add_assoc]⟩
  | _ => exact .inr ⟨by simp, by simp⟩

theorem step : w.After c.step d.step := by
  obtain ⟨i, hc, hd⟩ := h.behind
  have hsize := h.size_iff 1
  rcases Nat.lt_or_ge (c.pos + 1) c.tokens.size with hlt | hge
  · rw [Cursor.step, Cursor.step, dif_pos hlt, dif_pos (hsize.2 hlt)]
    exact ⟨h.left, h.right, h.depth, ⟨i + 1, by dsimp only; omega, by dsimp only; omega⟩, h.passed⟩
  · rw [Cursor.step, Cursor.step, dif_neg (by omega), dif_neg (by omega)]
    exact h

theorem moveTo {j : Nat} (hj : c.pos + j < c.tokens.size) :
    w.After (c.moveTo (c.pos + j)) (d.moveTo (d.pos + j)) := by
  obtain ⟨i, hc, hd⟩ := h.behind
  refine ⟨h.left, h.right, h.depth, ⟨i + j, ?_, ?_⟩, h.passed⟩
  · rw [Cursor.pos_moveTo hj]
    omega
  · rw [Cursor.pos_moveTo ((h.size_iff j).2 hj)]
    omega

end After

theorem block_like {i : Nat} (i' : Nat) (hi : i ≠ w.before.length) :
    FunctionBody.Like w.likeness (.block ts i) (.block ts i') :=
  ⟨ts, i', rfl, by simp [likeness, Likeness.exceptBody, hi]⟩

theorem Before.passing (h : w.Before c d) {opening closer : Punct} {opened k : Nat}
    (hi : i ≤ w.before.length + 1)
    (hk : groupSearch opening closer (c.tokens.toList.drop i) opened = .found k) :
    w.before.length < (c.moveTo (i + k + 1)).pos ∨
      (i + k < w.before.length ∧
        groupSearch opening closer (d.tokens.toList.drop i) opened = .found k) := by
  have hin := Cursor.lt_of_groupSearch_found hk
  rw [Cursor.pos_moveTo hin]
  rcases Nat.lt_or_ge w.before.length i with hlt | hle
  · exact .inl (by omega)
  · rcases h.groupSearch_found hle hk with hbefore | hbehind
    · exact .inr hbefore
    · exact .inl (by omega)

theorem Before.meets_body (h : w.Before c d) {b : FunctionBody} (hrun : body c = (.ok b, c')) :
    w.pairing.Meets (FunctionBody.Like w.likeness) b c' (body d) := by
  obtain ⟨hbrace, k, hk, rfl, rfl⟩ := body_run_ok hrun
  have hbrace' : d.token.isPunct .leftBrace = true := by rwa [h.sees.token.isPunct]
  have hmove : c.pos + 1 + k + 1 = c.pos + k + 2 := by omega
  rcases Nat.lt_or_eq_of_le h.pos_le with hlt | heq
  · have hne : w.before.length ≠ c.pos := by omega
    have hfresh : w.before.length ∉ c.pos :: c.bodies := by
      simp [h.fresh, hne]
    rcases h.passing (by omega) hk with hbehind | ⟨hbefore, hk'⟩
    · exact .inl ⟨⟨hmove ▸ hbehind, hfresh⟩, _, block_like 0 hne.symm⟩
    · have hmoved := h.moveTo (j := c.pos + k + 2) (by omega)
      refine .inr (.inr ⟨_, _, body_eq_ok hbrace' (h.pos ▸ hk'), ?_, .inl ?_⟩)
      · rw [h.pos, h.between_eq (by omega)]
        exact block_like _ hne.symm
      · rw [h.pos]
        exact ⟨hmoved.left, hmoved.right, hmoved.depth, hmoved.pos_le, hmoved.pos, hfresh⟩
  · -- the body that is exchanged
    have hk' : groupSearch .leftBrace .rightBrace (d.tokens.toList.drop (d.pos + 1)) 1 =
        .found w.new.length := by
      rw [h.pos, heq, h.right, drop_around_succ, groupSearch_braces w.noEof_new w.braces_new]
    have hold : groupSearch .leftBrace .rightBrace (c.tokens.toList.drop (c.pos + 1)) 1 =
        .found w.old.length := by
      rw [heq, h.left, drop_around_succ, groupSearch_braces w.noEof_old w.braces_old]
    obtain rfl : w.old.length = k := by
      rw [hold] at hk
      cases hk
      rfl
    have hin := Cursor.lt_of_groupSearch_found hold
    have hin' := Cursor.lt_of_groupSearch_found hk'
    refine .inr (.inr ⟨_, _, body_eq_ok hbrace' hk', ⟨_, _, rfl, ?_⟩, .inr ?_⟩)
    · rw [heq, h.left, h.pos, heq, h.right, drop_around_succ, drop_around_succ]
      simp [likeness, Likeness.exceptBody]
    · refine ⟨h.left, h.right, h.depth, ⟨0, ?_, ?_⟩, by simp [heq]⟩
      · show (c.moveTo _).pos = _
        rw [Cursor.pos_moveTo (by omega)]
        omega
      · show (d.moveTo _).pos = _
        rw [Cursor.pos_moveTo (by omega), h.pos]
        omega

theorem After.meets_body (h : w.After c d) {b : FunctionBody} (hrun : body c = (.ok b, c')) :
    w.pairing.Meets (FunctionBody.Like w.likeness) b c' (body d) := by
  obtain ⟨hbrace, k, hk, rfl, rfl⟩ := body_run_ok hrun
  have hbrace' : d.token.isPunct .leftBrace = true := by rwa [h.sees.token.isPunct]
  have hin := Cursor.lt_of_groupSearch_found hk
  obtain ⟨i, hc, hd⟩ := h.behind
  rw [← h.drop_eq] at hk
  have hmoved := h.moveTo (j := k + 2) (by omega)
  refine .inr (.inr ⟨_, _, body_eq_ok hbrace' hk, ?_, .inr ?_⟩)
  · rw [h.drop_eq]
    exact block_like _ (by omega)
  · exact ⟨hmoved.left, hmoved.right, hmoved.depth, hmoved.behind, List.mem_cons_of_mem _ h.passed⟩

theorem follows_body (w : BodyChange) :
    Follows w.pairing (FunctionBody.Like w.likeness) body body := by
  constructor
  · intro c d c' b hrel hrun
    rcases hrel with h | h
    · exact h.meets_body hrun
    · exact h.meets_body hrun
  · intro c c' b hgone hrun
    obtain ⟨hlt, hfresh⟩ := hgone
    obtain ⟨_, k, hk, rfl, rfl⟩ := body_run_ok hrun
    have hin := Cursor.lt_of_groupSearch_found hk
    have hne : w.before.length ≠ c.pos := by omega
    refine ⟨⟨?_, by simp [hfresh, hne]⟩, _, block_like 0 hne.symm⟩
    show _ < (c.moveTo _).pos
    rw [Cursor.pos_moveTo (by omega)]
    omega

theorem passing {opening closer : Punct} {n k : Nat} (hrel : w.pairing.Rel c d) (hn : n ≤ 1)
    (hk : groupSearch opening closer (c.tokens.toList.drop (c.pos + n)) n = .found k) :
    w.pairing.Gone (c.moveTo (c.pos + (k + n + 1))) ∨
      groupSearch opening closer (d.tokens.toList.drop (d.pos + n)) n = .found k ∧
        w.pairing.Rel (c.moveTo (c.pos + (k + n + 1))) (d.moveTo (d.pos + (k + n + 1))) := by
  have hmove : c.pos + n + k + 1 = c.pos + (k + n + 1) := by omega
  rcases hrel with h | h
  · rcases h.passing (Nat.add_le_add h.pos_le hn) hk with hbehind | ⟨hbefore, hk'⟩
    · exact .inl ⟨hmove ▸ hbehind, h.fresh⟩
    · rw [h.pos]
      exact .inr ⟨hk', .inl (h.moveTo (by omega))⟩
  · have hin := Cursor.lt_of_groupSearch_found hk
    rw [← h.drop_eq] at hk
    exact .inr ⟨hk, .inr (h.moveTo (by omega))⟩

theorem pairing_sound (w : BodyChange) : w.pairing.Sound where
  like := w.likeness_sound
  sees hrel := hrel.elim Before.sees After.sees
  atArrow hrel := .inl (hrel.elim Before.atArrow_eq After.atArrow_eq)
  step hrel := hrel.elim Before.step fun h => .inr (.inr h.step)
  deeper := by
    intro c d hrel hdepth
    rcases hrel with h | h
    · exact ⟨h.depth ▸ hdepth, .inl ⟨h.left, h.right, congrArg (· + 1) h.depth, h.pos_le, h.pos, h.fresh⟩⟩
    · exact ⟨h.depth ▸ hdepth, .inr ⟨h.left, h.right, congrArg (· + 1) h.depth, h.behind, h.passed⟩⟩
  shallower := by
    intro c d hrel
    rcases hrel with h | h
    · exact .inl ⟨h.left, h.right, congrArg (· - 1) h.depth, h.pos_le, h.pos, h.fresh⟩
    · exact .inr ⟨h.left, h.right, congrArg (· - 1) h.depth, h.behind, h.passed⟩
  body := w.follows_body
  group := passing
  sees_gone _ := .refl (fun _ => rfl) _
  step_gone hgone :=
    ⟨Nat.lt_of_lt_of_le hgone.1 (Cursor.leads_step _).pos_le, by
      rw [Cursor.bodies_step]
      exact hgone.2⟩
  depth_gone hgone := hgone
  move_gone hgone hi :=
    ⟨Nat.lt_of_lt_of_le hgone.1 (Cursor.leads_moveTo hi).pos_le, hgone.2⟩

end BodyChange

theorem Cursor.exists_terminated_append (x : Lexeme) (us : List Lexeme) :
    ∃ us', ∀ ts, terminated (ts ++ x :: us) = ts ++ x :: us' := by
  obtain ⟨y, hy⟩ : ∃ y, (x :: us).getLast? = some y := ⟨_, List.getLast?_cons ..⟩
  have hlast : ∀ ts, (ts ++ x :: us).getLast? = some y := by
    intro ts
    rw [List.getLast?_append, hy]
    rfl
  by_cases hend : y.1.isEof
  · refine ⟨us, fun ts => ?_⟩
    rw [terminated_of_getLast? (hlast ts), if_pos hend]
  · refine ⟨us ++ [(.eof, { y.2 with start := y.2.stop })], fun ts => ?_⟩
    rw [terminated_of_getLast? (hlast ts), if_neg hend, List.append_assoc, List.cons_append]

section
variable {before old new after : List Lexeme} {opening closing : Span} {m : Module}

/--
Whatever balanced tokens a function body is exchanged for, the module is read as before, with only
that body exchanged. The body is one that the reading passed: it opens at the index of its brace.
-/
theorem bodies_are_opaque
    (hread : Module.ofTokens (tokensAround before opening old closing after) = .ok m)
    (hbody : before.length ∈
      (Module.lastCursor (tokensAround before opening old closing after)).bodies)
    (hbraces : Balanced .leftBrace .rightBrace old) (hparens : Balanced .leftParen .rightParen old)
    (hbraces' : Balanced .leftBrace .rightBrace new)
    (hparens' : Balanced .leftParen .rightParen new) (heof : ∀ x ∈ new, x.1.isEof = false) :
    ∃ m', Module.ofTokens (tokensAround before opening new closing after) = .ok m' ∧
      m.Like (.exceptBody before.length old new) m' := by
  obtain ⟨after', hafter⟩ := Cursor.exists_terminated_append (.punct .rightBrace, closing) after
  have hterminated : ∀ ts, Cursor.terminated (tokensAround before opening ts closing after) =
      tokensAround before opening ts closing after' := by
    intro ts
    have h := hafter (before ++ (.punct .leftBrace, opening) :: ts)
    simpa [tokensAround] using h
  -- the body was passed, so that no end of all tokens stands in it
  have heofOld : ∀ x ∈ old, x.1.isEof = false := by
    intro x hx
    cases hend : x.1.isEof with
    | false => rfl
    | true =>
      obtain ⟨k, hk⟩ := Module.groupSearch_of_mem_bodies hread hbody
      have hdrop : (tokensAround before opening old closing after').drop (before.length + 1) =
          old ++ (.punct .rightBrace, closing) :: after' := by
        simp [tokensAround, List.drop_append]
      rw [hterminated, hdrop, groupSearch_append,
        groupSearch_of_eof ⟨x, hx, hend⟩ (Nat.le_refl 1) hbraces] at hk
      cases hk
  let w : BodyChange := ⟨before, opening, old, new, closing, after', heofOld, heof, hbraces,
    hbraces', hparens, hparens'⟩
  have hstart : w.Before (Cursor.ofTokens (tokensAround before opening old closing after))
      (Cursor.ofTokens (tokensAround before opening new closing after)) := by
    refine ⟨?_, ?_, rfl, Nat.zero_le _, rfl, by simp [Cursor.ofTokens]⟩
    · exact hterminated old
    · exact hterminated new
  rcases Module.ofTokens_follow w.pairing_sound (.inl hstart) hread with hgone | ⟨m', hm', hlike, _⟩
  · exact absurd hbody hgone.2
  · exact ⟨m', hm', hlike⟩

end

/-- The default of a parameter of `(a = function () { b }) => b` gets another body. -/
theorem bodies_are_opaque_inParameter :
    let s : Span := ⟨0, 1, 1, 1⟩
    let before : List Lexeme := [(.punct .leftParen, s), (.identifier "a", s), (.punct .equal, s),
      (.keyword .kwFunction, s), (.punct .leftParen, s), (.punct .rightParen, s)]
    let after : List Lexeme := [(.punct .rightParen, s), (.punct .arrow, s), (.identifier "b", s)]
    let old : List Lexeme := [(.identifier "b", s)]
    let new : List Lexeme := [(.punct .leftParen, s), (.punct .rightParen, s), (.punct .arrow, s),
      (.punct .leftBrace, s), (.punct .rightBrace, s)]
    ∃ m m', Module.ofTokens (tokensAround before s old s after) = .ok m ∧
      Module.ofTokens (tokensAround before s new s after) = .ok m' ∧
      m.Like (.exceptBody 6 old new) m' := by
  intro s before after old new
  have hok : (Module.ofTokens (tokensAround before s old s after)).isOk = true := by
    decide +kernel
  cases hread : Module.ofTokens (tokensAround before s old s after) with
  | error errors =>
    rw [hread] at hok
    cases hok
  | ok m =>
    have hbody : before.length ∈ (Module.lastCursor (tokensAround before s old s after)).bodies := by
      decide +kernel
    have hbraces : Balanced .leftBrace .rightBrace new := by decide
    have hparens : Balanced .leftParen .rightParen new := by decide
    have heof : ∀ x ∈ new, x.1.isEof = false := by decide
    obtain ⟨m', hread', hlike⟩ :=
      bodies_are_opaque hread hbody (by decide) (by decide) hbraces hparens heof
    exact ⟨m, m', rfl, hread', hlike⟩

end Typings
