import Typings.Proofs.Syntax.Lockstep

namespace Typings

open Parse

/-- Trees that are the same when spans are ignored. -/
def Likeness.upToSpans : Likeness where
  span _ _ := True
  source _ := True
  known _ := True
  body ts _ ts' := Lexeme.AllLike (fun _ _ => True) ts ts'

theorem Likeness.upToSpans_sound : upToSpans.Sound := by
  constructor <;> intros <;> trivial

theorem Lexeme.AllLike.refl (ts : List Lexeme) : AllLike (fun _ _ => True) ts ts :=
  ⟨0, 0, .refl 0 (fun _ => trivial) ts⟩

theorem FunctionBody.block_like_self (ts : List Lexeme) (i : Nat) :
    (FunctionBody.block ts i).Like .upToSpans (.block ts i) := ⟨ts, i, rfl, .refl ts⟩

/-- What is read from one place on: the places behind it, and nothing to compare them with. -/
def Pairing.alone (c : Cursor) : Pairing where
  like := .upToSpans
  Rel _ _ := False
  Gone := c.Leads

theorem Pairing.alone_sound (c : Cursor) : (alone c).Sound where
  like := Likeness.upToSpans_sound
  sees := False.elim
  atArrow := False.elim
  step := False.elim
  deeper := False.elim
  shallower := False.elim
  body := by
    refine ⟨False.elim, fun {c₁ c' b} hgone hrun => ?_⟩
    obtain ⟨_, k, _, rfl, rfl⟩ := body_run_ok hrun
    have hmove := hgone.trans (c₁.leads_moveTo (i := c₁.pos + k + 2) (by omega))
    exact ⟨⟨hmove.tokens, hmove.pos_le⟩, _, FunctionBody.block_like_self ..⟩
  group := False.elim
  sees_gone _ := .refl (fun _ => trivial) _
  step_gone hgone := hgone.trans (Cursor.leads_step _)
  depth_gone hgone := ⟨hgone.tokens, hgone.pos_le⟩
  move_gone hgone hi := hgone.trans (Cursor.leads_moveTo hi)

/-- The tokens are those of an arrow function. -/
def Lexeme.ReadsArrow (ts : List Lexeme) : Prop :=
  ∃ (n : Nat) (c c' : Cursor) (e : Expr), (Grammar.levels n).arrow c = (.ok e, c') ∧
    (c.tokens.toList.drop c.pos).take (c'.pos - c.pos) = ts

/--
Tokens `inside` two lists. They end with a brace, and no parenthesis that an arrow function among
them begins with is closed behind them by one before an arrow. Behind the second list's tokens is its
end.
-/
structure Window where
  before : List Lexeme
  inside : List Lexeme
  after : List Lexeme
  front : List Lexeme
  inside' : List Lexeme
  back : Span
  like : Lexeme.AllLike (fun _ _ => True) inside inside'
  brace : ∃ s, inside.getLast? = some (.punct .rightBrace, s)
  after_ne_nil : after ≠ []
  arrows : ∀ i j k s, inside[i]? = some (.punct .leftParen, s) →
    Lexeme.ReadsArrow ((inside.drop i).take j) → i + j ≤ inside.length → inside.length ≤ i + k →
    groupSearch .leftParen .rightParen (inside.drop i ++ after) 0 = .found k →
    ∀ x, after[i + k + 1 - inside.length]? = some x → x.1.isPunct .arrow = false

namespace Window

variable {w : Window} {c d c' : Cursor} {i : Nat} {x : Lexeme}

/-- The list that is read first. -/
def left (w : Window) : List Lexeme := w.before ++ (w.inside ++ w.after)

def right (w : Window) : List Lexeme := w.front ++ (w.inside' ++ [(.eof, w.back)])

/-- Both readings are at the same token behind the first of the window. -/
structure Rel (w : Window) (c d : Cursor) : Prop where
  left : c.tokens.toList = w.left
  right : d.tokens.toList = w.right
  depth : d.depth ≤ c.depth
  pos : ∃ i, 0 < i ∧ i < w.inside.length ∧ c.pos = w.before.length + i ∧ d.pos = w.front.length + i

def pairing (w : Window) : Pairing where
  like := .upToSpans
  Rel := w.Rel
  Gone c := w.before.length + w.inside.length ≤ c.pos

theorem length_inside' (w : Window) : w.inside'.length = w.inside.length := by
  obtain ⟨k, k', hlike⟩ := w.like
  rw [Lexeme.shifted_eq] at hlike
  exact hlike.length_eq.symm

theorem drop_left (hi : i ≤ w.inside.length) :
    w.left.drop (w.before.length + i) = w.inside.drop i ++ w.after := by
  rw [left, List.drop_length_add_append, List.drop_append_of_le_length hi]

theorem drop_right (hi : i ≤ w.inside.length) :
    w.right.drop (w.front.length + i) = w.inside'.drop i ++ [(.eof, w.back)] := by
  rw [right, List.drop_length_add_append, List.drop_append_of_le_length (by rwa [length_inside'])]

theorem length_left (w : Window) : w.before.length + w.inside.length < w.left.length := by
  have := List.length_pos_iff.2 w.after_ne_nil
  simp only [left, List.length_append]
  omega

theorem length_right (w : Window) : w.right.length = w.front.length + w.inside.length + 1 := by
  have := w.length_inside'
  simp only [right, List.length_append, List.length_cons, List.length_nil]
  omega

theorem getElem?_left (hi : i < w.inside.length) :
    w.left[w.before.length + i]? = w.inside[i]? := by
  rw [left, List.getElem?_append_right (Nat.le_add_right ..), Nat.add_sub_cancel_left,
    List.getElem?_append_left hi]

theorem getElem?_right (hi : i < w.inside.length) :
    w.right[w.front.length + i]? = w.inside'[i]? := by
  rw [right, List.getElem?_append_right (Nat.le_add_right ..), Nat.add_sub_cancel_left,
    List.getElem?_append_left (by rwa [length_inside'])]

theorem forall_getElem? (w : Window) : ∃ k k', ∀ i < w.inside.length, ∃ x x',
    w.left[w.before.length + i]? = some x ∧ w.right[w.front.length + i]? = some x' ∧
      Lexeme.Like (fun _ _ => True) k k' x x' := by
  obtain ⟨k, k', hlike⟩ := w.like
  rw [Lexeme.shifted_eq] at hlike
  refine ⟨k, k', fun i hi => ?_⟩
  have hi' : i < w.inside'.length := by rwa [length_inside']
  refine ⟨_, _, ?_, ?_, hlike.get hi hi'⟩
  · rw [getElem?_left hi]
    exact List.getElem?_eq_getElem hi
  · rw [getElem?_right hi]
    exact List.getElem?_eq_getElem hi'

theorem succ_lt_of_not_brace (hi : i < w.inside.length) (hx : w.left[w.before.length + i]? = some x)
    (hbrace : x.1.isPunct .rightBrace = false) : i + 1 < w.inside.length := by
  rcases Nat.lt_or_ge (i + 1) w.inside.length with hlt | hge
  · exact hlt
  · obtain ⟨s, hlast⟩ := w.brace
    have hi' : w.inside.length - 1 = i := by omega
    rw [getElem?_left hi] at hx
    rw [List.getLast?_eq_getElem?, hi', hx] at hlast
    cases hlast
    cases hbrace

/-- A group ends in the window of both lists, or in no place of the second and not in the window. -/
theorem groupSearch_cases (w : Window) (opening closer : Punct) (opened : Nat)
    (hi : i ≤ w.inside.length) :
    (∃ k, i + k < w.inside.length ∧
      groupSearch opening closer (w.left.drop (w.before.length + i)) opened = .found k ∧
      groupSearch opening closer (w.right.drop (w.front.length + i)) opened = .found k) ∨
    ((∀ k, groupSearch opening closer (w.left.drop (w.before.length + i)) opened = .found k →
        w.inside.length ≤ i + k) ∧
      ∀ k, groupSearch opening closer (w.right.drop (w.front.length + i)) opened ≠ .found k) := by
  obtain ⟨l, l', hlike⟩ := w.like
  rw [Lexeme.shifted_eq] at hlike
  have hright : groupSearch opening closer (w.inside'.drop i) opened =
      groupSearch opening closer (w.inside.drop i) opened :=
    groupSearch_congr (List.forall₂_drop i hlike) opened
  rw [drop_left hi, drop_right hi, groupSearch_append, groupSearch_append, hright]
  cases hinside : groupSearch opening closer (w.inside.drop i) opened with
  | found k =>
    obtain ⟨x, hx, _⟩ := getElem?_of_groupSearch_found hinside
    obtain ⟨hk, _⟩ := List.getElem?_eq_some_iff.1 hx
    rw [List.length_drop] at hk
    exact .inl ⟨k, by omega, rfl, rfl⟩
  | stopped =>
    refine .inr ⟨fun k hk => ?_, fun k hk => ?_⟩
    · cases hk
    · cases hk
  | unfinished m =>
    refine .inr ⟨fun k hk => ?_, fun k hk => ?_⟩
    · obtain ⟨j, _, rfl⟩ := GroupSearch.shift_eq_found hk
      rw [List.length_drop]
      omega
    · cases hk

namespace Rel

variable (h : w.Rel c d)
include h

theorem size_left : w.before.length + w.inside.length < c.tokens.size := by
  rw [← Array.length_toList, h.left]
  exact w.length_left

theorem size_right : d.tokens.size = w.front.length + w.inside.length + 1 := by
  rw [← Array.length_toList, h.right, w.length_right]

theorem moveTo {n : Nat} (hn : c.pos + n < c.tokens.size) :
    w.pairing.Gone (c.moveTo (c.pos + n)) ∨ w.Rel (c.moveTo (c.pos + n)) (d.moveTo (d.pos + n)) := by
  obtain ⟨i, hpos, hi, hc, hd⟩ := h.pos
  have hright := h.size_right
  rcases Nat.lt_or_ge (i + n) w.inside.length with hlt | hge
  · refine .inr ⟨h.left, h.right, h.depth, i + n, by omega, hlt, ?_, ?_⟩
    · rw [Cursor.pos_moveTo hn]
      omega
    · rw [Cursor.pos_moveTo (by omega)]
      omega
  · refine .inl ?_
    show w.before.length + w.inside.length ≤ (c.moveTo (c.pos + n)).pos
    rw [Cursor.pos_moveTo hn]
    omega

theorem step : w.pairing.Gone c.step ∨ w.Rel c.step d.step := by
  obtain ⟨i, hpos, hi, hc, hd⟩ := h.pos
  have hleft := h.size_left
  have hright := h.size_right
  rw [Cursor.step, dif_pos (by omega), Cursor.step, dif_pos (by omega)]
  rcases Nat.lt_or_ge (i + 1) w.inside.length with hlt | hge
  · exact .inr ⟨h.left, h.right, h.depth, i + 1, by omega, hlt, by dsimp only; omega,
      by dsimp only; omega⟩
  · refine .inl ?_
    show w.before.length + w.inside.length ≤ c.pos + 1
    omega

theorem sees : c.Sees .upToSpans d := by
  obtain ⟨i, hpos, hi, hc, hd⟩ := h.pos
  obtain ⟨l, l', htokens⟩ := w.forall_getElem?
  obtain ⟨x, x', hx, hx', hxx⟩ := htokens i hi
  obtain ⟨y, y', hy, hy', hyy⟩ := htokens (i - 1) (by omega)
  rw [← h.left] at hx hy
  rw [← h.right] at hx' hy'
  have hcpos : w.before.length + (i - 1) = c.pos - 1 := by omega
  have hdpos : w.front.length + (i - 1) = d.pos - 1 := by omega
  rw [← hc] at hx
  rw [← hd] at hx'
  rw [hcpos] at hy
  rw [hdpos] at hy'
  apply Cursor.Sees.intro hx hx' hy hy' hxx hyy (by omega)
  intro _ hbrace
  rw [h.left, hc] at hx
  have hnext := succ_lt_of_not_brace hi hx hbrace
  obtain ⟨z, z', hz, hz', hzz⟩ := htokens (i + 1) hnext
  rw [← h.left, ← Nat.add_assoc, ← hc] at hz
  rw [← h.right, ← Nat.add_assoc, ← hd] at hz'
  rw [Cursor.peek, Cursor.peek, Cursor.tokenAt_eq hz, Cursor.tokenAt_eq hz']
  exact (Lexeme.like_iff.1 hzz).1

/-- A parenthesis that is closed behind the window is before an arrow only in the first list. -/
theorem atArrow_cases (hc : c.token = .punct .leftParen) (hd : d.token = .punct .leftParen) :
    Grammar.atArrow d = Grammar.atArrow c ∨ Grammar.atArrow c = true ∧
      ∀ {n e c'}, (Grammar.levels n).arrow c = (.ok e, c') → w.pairing.Gone c' := by
  obtain ⟨i, hpos, hi, hci, hdi⟩ := h.pos
  obtain ⟨l, l', htokens⟩ := w.forall_getElem?
  have hiff := Cursor.atArrow_iff_of_paren hc
  have hiff' := Cursor.atArrow_iff_of_paren hd
  rw [h.left, hci] at hiff
  rw [h.right, hdi] at hiff'
  rcases w.groupSearch_cases .leftParen .rightParen 0 (Nat.le_of_lt hi) with
    ⟨k, hlt, hleft, hright⟩ | ⟨hleft, hright⟩
  · -- the parenthesis is not the last token, which is a brace
    obtain ⟨x, _, hx, _, _⟩ := htokens (i + k) hlt
    have hparen : x.1.isPunct .rightBrace = false := by
      obtain ⟨y, hy, hcloser⟩ := getElem?_of_groupSearch_found hleft
      rw [List.getElem?_drop, Nat.add_assoc, hx] at hy
      cases hy
      exact Token.isPunct_of_ne hcloser (by decide)
    obtain ⟨y, y', hy, hy', hlike⟩ := htokens (i + k + 1) (succ_lt_of_not_brace hlt hx hparen)
    rw [← h.left, ← Nat.add_assoc, ← Nat.add_assoc] at hy
    rw [← h.right, ← Nat.add_assoc, ← Nat.add_assoc] at hy'
    refine .inl (Bool.eq_iff_iff.2 ?_)
    rw [hiff, hiff', hleft, hright]
    simp [Cursor.tokenAt_eq hy, Cursor.tokenAt_eq hy', (Lexeme.like_iff.1 hlike).1.isPunct]
  · have hfalse : Grammar.atArrow d = false := by
      rw [Bool.eq_false_iff, Ne, hiff']
      exact fun ⟨k, hk, _⟩ => hright k hk
    cases harrow : Grammar.atArrow c with
    | false => exact .inl hfalse
    | true =>
      refine .inr ⟨rfl, fun {n e c'} hrun => Nat.le_of_not_lt fun hinside => ?_⟩
      obtain ⟨k, hk, harrow⟩ := hiff.1 harrow
      have hge := hleft k hk
      have hin := hk
      rw [← h.left] at hin
      have hsize := Cursor.lt_of_groupSearch_found hin
      rw [← Array.length_toList] at hsize
      obtain ⟨x, hx⟩ : ∃ x, c.tokens.toList[w.before.length + i + k + 1]? = some x :=
        ⟨_, List.getElem?_eq_getElem hsize⟩
      rw [Cursor.tokenAt_eq hx] at harrow
      have hafter : w.after[i + k + 1 - w.inside.length]? = some x := by
        rw [h.left, Window.left, Nat.add_assoc, Nat.add_assoc, List.getElem?_append_right (by omega),
          List.getElem?_append_right (by omega)] at hx
        rw [← hx]
        congr 1
        omega
      have hparen : w.inside[i]? = some (.punct .leftParen, c.span) := by
        rw [← getElem?_left hi, ← h.left, ← hci, c.getElem?_pos, ← hc]
        rfl
      have hreads : Lexeme.ReadsArrow ((w.inside.drop i).take (c'.pos - c.pos)) := by
        refine ⟨n, c, c', e, hrun, ?_⟩
        rw [h.left, hci, drop_left (Nat.le_of_lt hi), List.take_append_of_le_length]
        rw [List.length_drop]
        omega
      rw [drop_left (Nat.le_of_lt hi)] at hk
      rw [w.arrows i _ k c.span hparen hreads (by omega) hge hk x hafter] at harrow
      cases harrow

theorem atArrow : Grammar.atArrow d = Grammar.atArrow c ∨
    Grammar.atArrow c = true ∧ ∀ {n e c'}, (Grammar.levels n).arrow c = (.ok e, c') →
      w.pairing.Gone c' ∧ ∃ e', e.Like .upToSpans e' := by
  by_cases hparens : c.token = .punct .leftParen ∧ d.token = .punct .leftParen
  · refine (h.atArrow_cases hparens.1 hparens.2).imp_right fun ⟨harrow, hgone⟩ =>
      ⟨harrow, fun {n e c'} hrun => ⟨hgone hrun, ?_⟩⟩
    have halone := Pairing.alone_sound c
    exact ((Grammar.follows_arrow halone (Grammar.levels_parallel n n halone)).alone .refl hrun).2
  · exact .inl (h.sees.atArrow_eq fun hc hd => absurd ⟨hc, hd⟩ hparens)

theorem passing {opening closer : Punct} {opened n k : Nat} (hn : n ≤ 1)
    (hk : groupSearch opening closer (c.tokens.toList.drop (c.pos + n)) opened = .found k) :
    w.pairing.Gone (c.moveTo (c.pos + (k + n + 1))) ∨
      (groupSearch opening closer (d.tokens.toList.drop (d.pos + n)) opened = .found k ∧
        Lexeme.AllLike (fun _ _ => True) ((c.tokens.toList.drop (c.pos + n)).take k)
          ((d.tokens.toList.drop (d.pos + n)).take k) ∧
        w.Rel (c.moveTo (c.pos + (k + n + 1))) (d.moveTo (d.pos + (k + n + 1)))) := by
  obtain ⟨i, hpos, hi, hci, hdi⟩ := h.pos
  have hin : i + n ≤ w.inside.length := by omega
  have hsize := Cursor.lt_of_groupSearch_found hk
  have hsize : c.pos + (k + n + 1) < c.tokens.size := by omega
  have hleft : c.tokens.toList.drop (c.pos + n) = w.inside.drop (i + n) ++ w.after := by
    rw [h.left, hci, Nat.add_assoc, drop_left hin]
  have hright : d.tokens.toList.drop (d.pos + n) = w.inside'.drop (i + n) ++ [(.eof, w.back)] := by
    rw [h.right, hdi, Nat.add_assoc, drop_right hin]
  have hcases := w.groupSearch_cases opening closer opened hin
  rw [drop_left hin, drop_right hin, ← hleft, ← hright] at hcases
  rcases hcases with ⟨k', hlt, hfound, hfound'⟩ | ⟨hfound, _⟩
  · cases hk.symm.trans hfound
    rcases h.moveTo hsize with hgone | hrel
    · exact .inl hgone
    · refine .inr ⟨hfound', ?_, hrel⟩
      have hlength := w.length_inside'
      obtain ⟨l, l', hlike⟩ := w.like
      refine ⟨l, l', ?_⟩
      rw [Lexeme.shifted_eq] at hlike ⊢
      rw [hleft, hright, List.take_append_of_le_length (by rw [List.length_drop]; omega),
        List.take_append_of_le_length (by rw [List.length_drop]; omega)]
      exact List.forall₂_take k (List.forall₂_drop (i + n) hlike)
  · have hge := hfound k hk
    refine .inl ?_
    show w.before.length + w.inside.length ≤ (c.moveTo (c.pos + (k + n + 1))).pos
    rw [Cursor.pos_moveTo hsize]
    omega

end Rel

theorem pairing_sound (w : Window) : w.pairing.Sound where
  like := Likeness.upToSpans_sound
  sees hrel := hrel.sees
  atArrow hrel := hrel.atArrow
  step hrel := hrel.step
  deeper hrel hdepth :=
    ⟨Nat.lt_of_le_of_lt hrel.depth hdepth, hrel.left, hrel.right, Nat.succ_le_succ hrel.depth,
      hrel.pos⟩
  shallower hrel := ⟨hrel.left, hrel.right, Nat.sub_le_sub_right hrel.depth 1, hrel.pos⟩
  body := by
    constructor
    · intro c d c' b hrel hrun
      obtain ⟨hbrace, k, hk, rfl, rfl⟩ := body_run_ok hrun
      have hbrace' : d.token.isPunct .leftBrace = true := by rwa [hrel.sees.token.isPunct]
      rcases hrel.passing (Nat.le_refl 1) hk with hgone | ⟨hk', hlike, hrel'⟩
      · exact .inl ⟨hgone, _, FunctionBody.block_like_self ..⟩
      · exact .inr (.inr ⟨_, _, body_eq_ok hbrace' hk', ⟨_, _, rfl, hlike⟩, hrel'.left, hrel'.right,
          hrel'.depth, hrel'.pos⟩)
    · intro c c' b hgone hrun
      obtain ⟨_, k, _, rfl, rfl⟩ := body_run_ok hrun
      have hmove := c.leads_moveTo (i := c.pos + k + 2) (by omega)
      exact ⟨Nat.le_trans hgone hmove.pos_le, _, FunctionBody.block_like_self ..⟩
  group hrel hi hk := (hrel.passing hi hk).imp_right fun h => ⟨h.1, h.2.2⟩
  sees_gone _ := .refl (fun _ => trivial) _
  step_gone hgone := Nat.le_trans hgone (Cursor.leads_step _).pos_le
  depth_gone hgone := hgone
  move_gone hgone hi := Nat.le_trans hgone (Cursor.leads_moveTo hi).pos_le

end Window

end Typings
