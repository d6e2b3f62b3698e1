import Mathlib.Order.Bounds.Basic
import Typings.Proofs.Syntax.Grouping

namespace Typings

open Parse

/-- Lists of tokens in which groups of one kind nest, whatever other tokens stand among them. -/
inductive Nested (opening closer : Punct) : List Lexeme → Prop
  | nil : Nested opening closer []
  | token {x : Lexeme} {ts : List Lexeme} (hopening : x.1.isPunct opening = false)
      (hcloser : x.1.isPunct closer = false) (hts : Nested opening closer ts) :
      Nested opening closer (x :: ts)
  | group {x y : Lexeme} {inner ts : List Lexeme} (hx : x.1.isPunct opening = true)
      (hinner : Nested opening closer inner) (hy : y.1.isPunct closer = true)
      (hts : Nested opening closer ts) : Nested opening closer (x :: (inner ++ y :: ts))

section
variable {opening closer : Punct} {x : Lexeme} {ts : List Lexeme} {opened : Nat}

theorem openGroups_append (us : List Lexeme) : openGroups opening closer (ts ++ us) opened =
    (openGroups opening closer ts opened).bind (openGroups opening closer us) := by
  induction ts generalizing opened with
  | nil => rfl
  | cons x ts ih =>
    simp only [List.cons_append, openGroups, ih]
    split
    · rfl
    split
    · split <;> rfl
    · rfl

theorem openGroups_add {after : Nat} (outer : Nat)
    (h : openGroups opening closer ts opened = some after) :
    openGroups opening closer ts (opened + outer) = some (after + outer) := by
  induction ts generalizing opened with
  | nil =>
    cases h
    rfl
  | cons x ts ih =>
    rw [openGroups] at h
    split at h
    · rw [openGroups_opening ‹_›, Nat.add_right_comm]
      exact ih h
    split at h
    · cases opened with
      | zero => cases h
      | succ opened =>
        rw [Nat.add_right_comm, openGroups_closer ‹_› ‹_›]
        exact ih h
    · rw [openGroups_other ‹_› ‹_›]
      exact ih h

theorem Nested.balanced (hne : opening ≠ closer) (h : Nested opening closer ts) :
    Balanced opening closer ts := by
  induction h with
  | nil => rfl
  | token hopening hcloser _ ih =>
    rw [Balanced, openGroups_other (by simp [hopening]) (by simp [hcloser])]
    exact ih
  | @group x y inner ts hx _ hy _ ihinner ih =>
    rw [Balanced, openGroups_opening hx, openGroups_append, openGroups_add 1 ihinner]
    exact (openGroups_closer (by simp [Token.isPunct_of_ne hy hne.symm]) hy).trans ih

/-- Where one group more is closed than opened, the token that closes it can be told. -/
theorem exists_closer_of_openGroups (h : openGroups opening closer ts (opened + 1) = some 0) :
    ∃ before y after, ts = before ++ y :: after ∧ y.1.isPunct closer = true ∧
      openGroups opening closer before opened = some 0 ∧ Balanced opening closer after := by
  induction ts generalizing opened with
  | nil => cases h
  | cons x ts ih =>
    -- a token behind which the group is still open stands before the one that closes it
    have hnext : ∀ {opened' : Nat}, openGroups opening closer ts (opened' + 1) = some 0 →
        (∀ us, openGroups opening closer (x :: us) opened =
          openGroups opening closer us opened') →
        ∃ before y after, x :: ts = before ++ y :: after ∧ y.1.isPunct closer = true ∧
          openGroups opening closer before opened = some 0 ∧ Balanced opening closer after := by
      intro opened' hrest hcons
      obtain ⟨before, y, after, rfl, hy, hbefore, hafter⟩ := ih hrest
      exact ⟨x :: before, y, after, rfl, hy, (hcons before).trans hbefore, hafter⟩
    rw [openGroups] at h
    split at h
    · exact hnext h fun us => openGroups_opening ‹_›
    split at h
    · cases opened with
      | zero => exact ⟨[], x, ts, rfl, ‹_›, rfl, h⟩
      | succ opened => exact hnext h fun us => openGroups_closer ‹_› ‹_›
    · exact hnext h fun us => openGroups_other ‹_› ‹_›

theorem Balanced.nested (h : Balanced opening closer ts) : Nested opening closer ts := by
  induction hlength : ts.length using Nat.strongRecOn generalizing ts with
  | ind n ih =>
    subst hlength
    cases ts with
    | nil => exact .nil
    | cons x ts =>
      rw [Balanced, openGroups] at h
      split at h
      · obtain ⟨inner, y, after, rfl, hy, hinner, hafter⟩ := exists_closer_of_openGroups h
        exact .group ‹_› (ih _ (by simp +arith) hinner rfl) hy (ih _ (by simp +arith) hafter rfl)
      split at h
      · cases h
      · exact .token (Bool.eq_false_of_not_eq_true ‹_›) (Bool.eq_false_of_not_eq_true ‹_›)
          (ih _ (Nat.lt_succ_self _) h rfl)

/-- Before the end of a group every other group is closed, and nothing is the end of all tokens. -/
theorem openGroups_of_groupSearch_found {k : Nat}
    (h : groupSearch opening closer ts (opened + 1) = .found k) :
    openGroups opening closer (ts.take k) opened = some 0 ∧ ∀ x ∈ ts.take k, x.1.isEof = false := by
  induction ts generalizing opened k with
  | nil => cases h
  | cons x ts ih =>
    rw [groupSearch] at h
    split at h
    · cases h
    have hnext : ∀ {opened' : Nat},
        (groupSearch opening closer ts (opened' + 1)).shift 1 = .found k →
        (∀ us, openGroups opening closer (x :: us) opened =
          openGroups opening closer us opened') →
        openGroups opening closer ((x :: ts).take k) opened = some 0 ∧
          ∀ x' ∈ (x :: ts).take k, x'.1.isEof = false := by
      intro opened' hrest hcons
      obtain ⟨j, hj, rfl⟩ := GroupSearch.shift_eq_found hrest
      obtain ⟨hopen, heof⟩ := ih hj
      rw [Nat.add_comm, List.take_succ_cons]
      exact ⟨(hcons _).trans hopen,
        List.forall_mem_cons.2 ⟨Bool.eq_false_of_not_eq_true ‹_›, heof⟩⟩
    split at h
    · exact hnext h fun us => openGroups_opening ‹_›
    split at h
    · cases opened with
      | zero =>
        cases h
        exact ⟨rfl, by simp⟩
      | succ opened =>
        rw [if_neg (by omega)] at h
        exact hnext h fun us => openGroups_closer ‹_› ‹_›
    · exact hnext h fun us => openGroups_other ‹_› ‹_›

theorem groupSearch_eq_found_iff (hne : opening ≠ closer) {k : Nat} :
    groupSearch opening closer ts 1 = .found k ↔
      (∃ y, ts[k]? = some y ∧ y.1.isPunct closer = true) ∧
        Nested opening closer (ts.take k) ∧ ∀ x ∈ ts.take k, x.1.isEof = false := by
  constructor
  · intro h
    obtain ⟨hbalanced, heof⟩ := openGroups_of_groupSearch_found h
    exact ⟨getElem?_of_groupSearch_found h, Balanced.nested hbalanced, heof⟩
  · rintro ⟨⟨y, hy, hcloser⟩, hnested, heof⟩
    obtain ⟨hk, rfl⟩ := List.getElem?_eq_some_iff.1 hy
    have hsearch := groupSearch_of_balanced heof (hnested.balanced hne) (Nat.le_refl 1)
    have hclosed : groupSearch opening closer (ts[k] :: ts.drop (k + 1)) 1 = .found 0 := by
      rw [groupSearch, Token.isEof_of_isPunct hcloser, Token.isPunct_of_ne hcloser hne.symm,
        hcloser]
      rfl
    rw [← List.take_append_drop k ts, groupSearch_append, hsearch, List.drop_eq_getElem_cons hk,
      GroupSearch.andThen, hclosed, GroupSearch.shift, List.length_take_of_le (Nat.le_of_lt hk)]
    rfl

end

namespace Cursor

/-- The tokens between the position and an index behind it. -/
def between (c : Cursor) (j : Nat) : List Lexeme := (c.tokens.extract (c.pos + 1) j).toList

/-- At `j` the group is closed that opens at the position. -/
structure Closes (c : Cursor) (opening closer : Punct) (j : Nat) : Prop where
  later : c.pos < j
  closed : ∃ y, c.tokens[j]? = some y ∧ y.1.isPunct closer = true
  nested : Nested opening closer (c.between j)
  noEnd : ∀ x ∈ c.between j, x.1.isEof = false

/-- The error that the group which opens at the position is not closed. -/
def unclosed (c : Cursor) (opening closer : Punct) : ParseError :=
  ⟨.unclosedDelimiter (.punct opening) (.punct closer), c.span⟩

/--
A reading passes the group that opens at the position, with a result that depends on where the group
is closed. It fails if the group is not closed, and says so at the token that opens it.
-/
structure Captures {α : Type} (c : Cursor) (opening closer : Punct) (x : Parse α)
    (result : Nat → α) : Prop where
  succeeds_iff : (∃ a c', x c = (.ok a, c')) ↔ ∃ j, c.Closes opening closer j
  eq_ok : ∀ j, IsLeast {j | c.Closes opening closer j} j →
    x c = (.ok (result j), c.moveTo (j + 1)) ∧ (c.moveTo (j + 1)).pos = j + 1
  eq_error : (¬ ∃ j, c.Closes opening closer j) →
    ∃ c', x c = (.error (c.unclosed opening closer), c')

variable {c : Cursor} {opening closer : Punct} {j k : Nat}

abbrev groupEnd (c : Cursor) (opening closer : Punct) : GroupSearch :=
  groupSearch opening closer (c.tokens.toList.drop (c.pos + 1)) 1

theorem groupSearch_opening (h : c.token = .punct opening) :
    groupSearch opening closer (c.tokens.toList.drop c.pos) 0 =
      (c.groupEnd opening closer).shift 1 := by
  have hlt := c.pos_lt
  have htoken : c.tokens[c.pos].1 = .punct opening := h
  rw [List.drop_eq_getElem_cons (by simpa using hlt), Array.getElem_toList, groupSearch, htoken,
    if_neg (by simp [Token.isEof]), if_pos (by simp [Token.isPunct])]

theorem between_add (c : Cursor) (k : Nat) :
    c.between (c.pos + 1 + k) = (c.tokens.toList.drop (c.pos + 1)).take k := by
  rw [between, Array.toList_extract, List.extract_eq_take_drop, Nat.add_sub_cancel_left]

theorem closes_iff (hne : opening ≠ closer) :
    c.Closes opening closer j ↔ ∃ k, c.groupEnd opening closer = .found k ∧ j = c.pos + 1 + k := by
  have hsearch : ∀ k, c.Closes opening closer (c.pos + 1 + k) ↔
      c.groupEnd opening closer = .found k := by
    intro k
    rw [groupSearch_eq_found_iff hne, ← between_add, List.getElem?_drop, Array.getElem?_toList]
    exact ⟨fun h => ⟨h.closed, h.nested, h.noEnd⟩, fun ⟨hclosed, hnested, heof⟩ =>
      ⟨by omega, hclosed, hnested, heof⟩⟩
  constructor
  · intro h
    obtain ⟨k, rfl⟩ := Nat.exists_eq_add_of_le (Nat.succ_le_of_lt h.later)
    exact ⟨k, (hsearch k).1 h, rfl⟩
  · rintro ⟨k, hk, rfl⟩
    exact (hsearch k).2 hk

theorem isLeast_closes (hne : opening ≠ closer) (h : c.groupEnd opening closer = .found k) :
    IsLeast {j | c.Closes opening closer j} (c.pos + 1 + k) := by
  refine ⟨(closes_iff hne).2 ⟨k, h, rfl⟩, fun j hj => ?_⟩
  obtain ⟨k', hk', rfl⟩ := (closes_iff hne).1 hj
  rw [h] at hk'
  cases hk'
  exact Nat.le_refl _

/-- A reading that follows the search for the end of a group captures the group. -/
theorem captures_of_groupEnd {α : Type} {x : Parse α} {result : Nat → α} (hne : opening ≠ closer)
    (hok : ∀ k, c.groupEnd opening closer = .found k →
      x c = (.ok (result (c.pos + 1 + k)), c.moveTo (c.pos + k + 2)))
    (herror : (∀ k, c.groupEnd opening closer ≠ .found k) →
      ∃ c', x c = (.error (c.unclosed opening closer), c')) :
    c.Captures opening closer x result := by
  have hfails : (¬ ∃ j, c.Closes opening closer j) →
      ∃ c', x c = (.error (c.unclosed opening closer), c') := fun hno =>
    herror fun k hk => hno ⟨_, (closes_iff hne).2 ⟨k, hk, rfl⟩⟩
  refine ⟨⟨?_, ?_⟩, ?_, hfails⟩
  · rintro ⟨a, c', hrun⟩
    by_contra hno
    obtain ⟨c'', herror⟩ := hfails hno
    rw [hrun] at herror
    cases herror
  · rintro ⟨j, hj⟩
    obtain ⟨k, hk, _⟩ := (closes_iff hne).1 hj
    exact ⟨_, _, hok k hk⟩
  · rintro j ⟨hj, _⟩
    obtain ⟨k, hk, rfl⟩ := (closes_iff hne).1 hj
    have hindex : c.pos + 1 + k + 1 = c.pos + k + 2 := by omega
    exact ⟨hindex ▸ hok k hk, pos_moveTo (lt_of_groupSearch_found hk)⟩

end Cursor

namespace Parse

variable {c : Cursor} {opening closer : Punct}

theorem braces_eq_error (h : c.token.isPunct .leftBrace = true)
    (hno : ∀ k, c.groupEnd .leftBrace .rightBrace ≠ .found k) :
    ∃ c', braces c = (.error (c.unclosed .leftBrace .rightBrace), c') := by
  have hhere : here c = (.ok c.span, c) := rfl
  have hget : (get : Parse Cursor) c.step = (.ok c.step, c.step) := rfl
  cases hclosing : c.step.closing .leftBrace .rightBrace c.step.tokens.size c.step.pos 1 with
  | ok j =>
    obtain ⟨k, hk, _⟩ := (closing_step_iff h).1 hclosing
    exact absurd hk (hno k)
  | error j =>
    refine ⟨c.step.moveTo j, ?_⟩
    rw [braces, bind_ok hhere, bind_ok (expect_eq_ok h), bind_ok hget, hclosing]
    rfl

theorem skipGroup_eq_error (h : delimiters? c.token = some (opening, closer))
    (hno : ∀ k, groupSearch opening closer (c.tokens.toList.drop c.pos) 0 ≠ .found k) :
    ∃ c', skipGroup c = (.error (c.unclosed opening closer), c') := by
  have hget : (get : Parse Cursor) c = (.ok c, c) := rfl
  cases hclosing : c.closing opening closer c.tokens.size c.pos 0 with
  | ok j =>
    obtain ⟨k, hk, _⟩ := (Cursor.closing_eq_ok_iff _ _ _ _ _ _ (Nat.le_add_right ..)).1 hclosing
    exact absurd hk (hno k)
  | error j =>
    refine ⟨c.moveTo j, ?_⟩
    rw [skipGroup, bind_ok hget, h]
    dsimp only
    rw [hclosing]
    rfl

theorem delimiters?_eq_some {t : Token} (h : delimiters? t = some (opening, closer)) :
    t = .punct opening ∧ opening ≠ closer := by
  unfold delimiters? at h
  split at h <;> cases h <;> exact ⟨rfl, by decide⟩

end Parse

/--
Groups are captured exactly: a reading passes the tokens up to the first place where the group that
opens at the position is closed, and fails only if there is none. The end that is looked for to tell
an arrow is the one up to which the group would be passed.
-/
theorem groups_captured (c : Cursor) :
    (c.token = .punct .leftBrace → c.Captures .leftBrace .rightBrace braces c.between) ∧
    (∀ opening closer, delimiters? c.token = some (opening, closer) →
      c.Captures opening closer skipGroup fun _ => ()) ∧
    (c.token = .punct .leftParen → ∀ j, c.matchingParen? = some j ↔
      ∃ c', skipGroup c = (.ok (), c') ∧ c'.pos = j + 1) := by
  refine ⟨fun h => ?_, fun opening closer h => ?_, fun h j => ?_⟩
  · have hbrace : c.token.isPunct .leftBrace = true := by
      rw [h]
      rfl
    refine Cursor.captures_of_groupEnd (by decide) (fun k hk => ?_) (braces_eq_error hbrace)
    rw [braces_eq_ok hbrace hk, Cursor.between_add]
  · obtain ⟨htoken, hne⟩ := delimiters?_eq_some h
    have hsearch : groupSearch opening closer (c.tokens.toList.drop c.pos) 0 =
        (c.groupEnd opening closer).shift 1 := Cursor.groupSearch_opening htoken
    refine Cursor.captures_of_groupEnd hne (fun k hk => ?_)
      fun hno => skipGroup_eq_error h fun k hk => ?_
    · rw [skipGroup_eq_ok h (hsearch.trans (congrArg (GroupSearch.shift 1) hk))]
      congr 2
      omega
    · obtain ⟨k', hk', _⟩ := GroupSearch.shift_eq_found (hsearch.symm.trans hk)
      exact hno k' hk'
  · rw [Cursor.matchingParen?_eq_some_iff]
    constructor
    · rintro ⟨k, hk, rfl⟩
      have hpair : delimiters? c.token = some (.leftParen, .rightParen) := by
        rw [h]
        rfl
      exact ⟨_, skipGroup_eq_ok hpair hk, Cursor.pos_moveTo (Cursor.lt_of_groupSearch_found hk)⟩
    · rintro ⟨c', hrun, hpos⟩
      obtain ⟨opening, closer, k, hpair, hk, rfl⟩ := skipGroup_run_ok hrun
      rw [h] at hpair
      cases hpair
      rw [Cursor.pos_moveTo (Cursor.lt_of_groupSearch_found hk)] at hpos
      exact ⟨k, hk, by omega⟩

/-- Groups of different kinds do not have to nest in each other: a bracket here is not closed. -/
theorem groups_captured_interleaved :
    let ts : List Lexeme := [.leftBrace, .leftParen, .leftBracket, .rightParen, .rightBrace].map
      fun p => (.punct p, ⟨0, 1, 1, 1⟩)
    let c := Cursor.ofTokens ts
    c.token = .punct .leftBrace ∧ IsLeast {j | c.Closes .leftBrace .rightBrace j} 4 ∧
      braces c = (.ok (c.between 4), c.moveTo 5) ∧
      c.step.token = .punct .leftParen ∧ c.step.matchingParen? = some 3 ∧
      delimiters? c.step.step.token = some (.leftBracket, .rightBracket) ∧
      (¬ ∃ j, c.step.step.Closes .leftBracket .rightBracket j) ∧
      ∃ c', skipGroup c.step.step =
        (.error (c.step.step.unclosed .leftBracket .rightBracket), c') := by
  intro ts c
  have hleast : IsLeast {j | c.Closes .leftBrace .rightBrace j} 4 :=
    Cursor.isLeast_closes (k := 3) (by decide) rfl
  have hbraces := ((groups_captured c).1 rfl).eq_ok 4 hleast
  have hparen := ((groups_captured c.step).2.2 rfl 3).2 ⟨_, rfl, rfl⟩
  have hbracket := (groups_captured c.step.step).2.1 _ _ rfl
  have hopen : ¬ ∃ j, c.step.step.Closes .leftBracket .rightBracket j := by
    intro hcloses
    obtain ⟨a, c', hrun⟩ := hbracket.succeeds_iff.2 hcloses
    cases hrun
  exact ⟨rfl, hleast, hbraces.1, rfl, hparen, rfl, hopen, hbracket.eq_error hopen⟩

end Typings
