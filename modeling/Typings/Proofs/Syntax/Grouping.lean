import Typings.Proofs.Syntax.Likeness
import Typings.Proofs.Syntax.Reading

namespace Typings

/-- How a search for the end of a group may go. -/
inductive GroupSearch
  | found (index : Nat)
  /-- The end of all tokens came first. -/
  | stopped
  /-- All tokens were passed, and so many groups are open. -/
  | unfinished (opened : Nat)

/-- The same search, begun `n` tokens earlier. -/
def GroupSearch.shift (n : Nat) : GroupSearch → GroupSearch
  | found i => found (n + i)
  | r => r

/-- Look for the token that closes a group, when `opened` groups of this kind are open. -/
def groupSearch (opening closer : Punct) : List Lexeme → Nat → GroupSearch
  | [], opened => .unfinished opened
  | (t, _) :: ts, opened =>
    if t.isEof then .stopped
    else if t.isPunct opening then (groupSearch opening closer ts (opened + 1)).shift 1
    else if t.isPunct closer then
      if opened ≤ 1 then .found 0 else (groupSearch opening closer ts (opened - 1)).shift 1
    else (groupSearch opening closer ts opened).shift 1

/--
Groups that are open after some tokens, when `opened` are open before them; nothing if a group is
closed that was not opened.
-/
def openGroups (opening closer : Punct) : List Lexeme → Nat → Option Nat
  | [], opened => some opened
  | (t, _) :: ts, opened =>
    if t.isPunct opening then openGroups opening closer ts (opened + 1)
    else if t.isPunct closer then
      if opened = 0 then none else openGroups opening closer ts (opened - 1)
    else openGroups opening closer ts opened

section
variable {opening closer : Punct} {x : Lexeme} {ts : List Lexeme} {opened : Nat}

theorem openGroups_opening (hx : x.1.isPunct opening = true) :
    openGroups opening closer (x :: ts) opened = openGroups opening closer ts (opened + 1) :=
  if_pos hx

theorem openGroups_closer (hx : ¬ x.1.isPunct opening = true) (hx' : x.1.isPunct closer = true) :
    openGroups opening closer (x :: ts) (opened + 1) = openGroups opening closer ts opened := by
  rw [openGroups, if_neg hx, if_pos hx']
  rfl

theorem openGroups_other (hx : ¬ x.1.isPunct opening = true) (hx' : ¬ x.1.isPunct closer = true) :
    openGroups opening closer (x :: ts) opened = openGroups opening closer ts opened := by
  rw [openGroups, if_neg hx, if_neg hx']

end

/-- Every group that is opened is closed, and the other way round. -/
def Balanced (opening closer : Punct) (ts : List Lexeme) : Prop :=
  openGroups opening closer ts 0 = some 0

instance (opening closer : Punct) (ts : List Lexeme) : Decidable (Balanced opening closer ts) :=
  inferInstanceAs (Decidable (_ = _))

namespace GroupSearch

theorem shift_shift (m n : Nat) (r : GroupSearch) : (r.shift m).shift n = r.shift (n + m) := by
  cases r with
  | found i => simp only [shift, Nat.add_assoc]
  | stopped => rfl
  | unfinished k => rfl

theorem shift_eq_found {n i : Nat} {r : GroupSearch} (h : r.shift n = .found i) :
    ∃ j, r = .found j ∧ i = n + j := by
  cases r with
  | found j =>
    cases h
    exact ⟨j, rfl, rfl⟩
  | stopped => cases h
  | unfinished k => cases h

theorem shift_eq_unfinished {n k : Nat} {r : GroupSearch} (h : r.shift n = .unfinished k) :
    r = .unfinished k := by
  cases r with
  | found j => cases h
  | stopped => cases h
  | unfinished k => exact h

/-- A search that goes on behind the tokens of another. -/
def andThen (n : Nat) (next : Nat → GroupSearch) : GroupSearch → GroupSearch
  | unfinished opened => (next opened).shift n
  | r => r

theorem shift_andThen (m n : Nat) (next : Nat → GroupSearch) (r : GroupSearch) :
    (r.andThen n next).shift m = (r.shift m).andThen (m + n) next := by
  cases r with
  | found i => rfl
  | stopped => rfl
  | unfinished k => exact shift_shift n m (next k)

end GroupSearch

section
variable {opening closer : Punct}

theorem groupSearch_append (ts us : List Lexeme) (opened : Nat) :
    groupSearch opening closer (ts ++ us) opened =
      (groupSearch opening closer ts opened).andThen ts.length
        (groupSearch opening closer us) := by
  induction ts generalizing opened with
  | nil =>
    rw [List.nil_append, groupSearch, GroupSearch.andThen]
    cases groupSearch opening closer us opened with
    | found i => simp [GroupSearch.shift]
    | _ => rfl
  | cons x ts ih =>
    obtain ⟨t, s⟩ := x
    have hnext : ∀ opened, (groupSearch opening closer (ts ++ us) opened).shift 1 =
        ((groupSearch opening closer ts opened).shift 1).andThen (ts.length + 1)
          (groupSearch opening closer us) := by
      intro opened
      rw [ih, GroupSearch.shift_andThen, Nat.add_comm]
    simp only [List.cons_append, groupSearch, List.length_cons, hnext]
    split
    · rfl
    split
    · rfl
    split
    · split <;> rfl
    · rfl

theorem getElem?_of_groupSearch_found {ts : List Lexeme} {opened i : Nat}
    (h : groupSearch opening closer ts opened = .found i) :
    ∃ x, ts[i]? = some x ∧ x.1.isPunct closer = true := by
  induction ts generalizing opened i with
  | nil => cases h
  | cons x ts ih =>
    obtain ⟨t, s⟩ := x
    have hnext : ∀ {opened}, (groupSearch opening closer ts opened).shift 1 = .found i →
        ∃ x, ((t, s) :: ts)[i]? = some x ∧ x.1.isPunct closer = true := by
      intro opened h
      obtain ⟨j, hj, rfl⟩ := GroupSearch.shift_eq_found h
      rw [Nat.add_comm]
      exact ih hj
    rw [groupSearch] at h
    split at h
    · cases h
    split at h
    · exact hnext h
    split at h
    · split at h
      · cases h
        exact ⟨_, rfl, ‹_›⟩
      · exact hnext h
    · exact hnext h

/-- While a group is open, the search goes on with a group open. -/
theorem pos_of_groupSearch_unfinished {ts : List Lexeme} {opened k : Nat} (hopened : 1 ≤ opened)
    (h : groupSearch opening closer ts opened = .unfinished k) : 1 ≤ k := by
  induction ts generalizing opened with
  | nil =>
    cases h
    exact hopened
  | cons x ts ih =>
    rw [groupSearch] at h
    split at h
    · cases h
    split at h
    · exact ih (Nat.le_add_left ..) (GroupSearch.shift_eq_unfinished h)
    split at h
    · split at h
      · cases h
      · exact ih (by omega) (GroupSearch.shift_eq_unfinished h)
    · exact ih hopened (GroupSearch.shift_eq_unfinished h)

theorem pos_of_groupSearch_opening {x : Lexeme} {ts : List Lexeme} {opened k : Nat}
    (hx : x.1.isPunct opening = true)
    (h : groupSearch opening closer (x :: ts) opened = .unfinished k) : 1 ≤ k := by
  rw [groupSearch, if_neg (by simp [Token.isEof_of_isPunct hx]), if_pos hx] at h
  exact pos_of_groupSearch_unfinished (Nat.le_add_left ..) (GroupSearch.shift_eq_unfinished h)

/--
A search for the end of an outer group passes tokens whose groups are known, unless the end of all
tokens is among them.
-/
theorem groupSearch_of_openGroups {ts : List Lexeme} {before after outer : Nat}
    (houter : 1 ≤ outer) (h : openGroups opening closer ts before = some after) :
    groupSearch opening closer ts (outer + before) =
      if ts.any (·.1.isEof) then .stopped else .unfinished (outer + after) := by
  induction ts generalizing before with
  | nil =>
    cases h
    rfl
  | cons x ts ih =>
    have hnext : ∀ {before}, openGroups opening closer ts before = some after →
        (groupSearch opening closer ts (outer + before)).shift 1 =
          if ts.any (·.1.isEof) then .stopped else .unfinished (outer + after) := by
      intro before h
      rw [ih h]
      split <;> rfl
    rw [groupSearch, List.any_cons]
    cases x.1.isEof with
    | true => rfl
    | false =>
      rw [openGroups] at h
      simp only [Bool.false_eq_true, if_false, Bool.false_or]
      split at h
      · rw [if_pos ‹_›]
        exact hnext h
      rw [if_neg ‹_›]
      split at h
      · split at h
        · cases h
        · rw [if_pos ‹_›, if_neg (by omega), Nat.add_sub_assoc (by omega)]
          exact hnext h
      · rw [if_neg ‹_›]
        exact hnext h

theorem groupSearch_of_balanced {ts : List Lexeme} (heof : ∀ x ∈ ts, x.1.isEof = false)
    (h : Balanced opening closer ts) {outer : Nat} (houter : 1 ≤ outer) :
    groupSearch opening closer ts outer = .unfinished outer :=
  (groupSearch_of_openGroups houter h).trans (if_neg (by simpa using heof))

theorem groupSearch_of_eof {ts : List Lexeme} (heof : ∃ x ∈ ts, x.1.isEof = true)
    {before after outer : Nat} (houter : 1 ≤ outer)
    (h : openGroups opening closer ts before = some after) :
    groupSearch opening closer ts (outer + before) = .stopped :=
  (groupSearch_of_openGroups houter h).trans (if_pos (by simpa using heof))

theorem groupSearch_congr {S : Span → Span → Prop} {k k' : Nat} {ts ts' : List Lexeme}
    (h : List.Forall₂ (Lexeme.Like S k k') ts ts') (opened : Nat) :
    groupSearch opening closer ts' opened = groupSearch opening closer ts opened := by
  induction h generalizing opened with
  | nil => rfl
  | @cons x x' ts ts' hx _ ih =>
    have ht := (Lexeme.like_iff.1 hx).1
    simp only [groupSearch, ht.isEof, ht.isPunct, ih]

end

namespace Cursor

variable {c : Cursor}

theorem tokenAt_of_lt {i : Nat} (h : i < c.tokens.size) : c.tokenAt i = c.tokens[i].1 := by
  have hmin : min i (c.tokens.size - 1) = i := by omega
  unfold tokenAt
  simp only [hmin]

theorem tokenAt_of_le {i : Nat} (h : c.tokens.size ≤ i) : c.tokenAt i = .eof := by
  have hlt := c.pos_lt
  have hmin : min i (c.tokens.size - 1) = c.tokens.size - 1 := by omega
  have heof : (c.tokenAt i).isEof = true := by
    unfold tokenAt
    simp only [hmin]
    apply c.isEof_last
    rw [Array.back?, Array.getElem?_eq_getElem (by omega)]
    rfl
  cases htoken : c.tokenAt i with
  | eof => rfl
  | _ =>
    rw [htoken] at heof
    cases heof

/-- The search with a cursor is the search in the tokens behind it. -/
theorem closing_eq_ok_iff (opening closer : Punct) (fuel i opened j : Nat)
    (hfuel : c.tokens.size ≤ fuel + i) :
    c.closing opening closer fuel i opened = .ok j ↔
      ∃ k, groupSearch opening closer (c.tokens.toList.drop i) opened = .found k ∧ j = i + k := by
  induction fuel generalizing i opened with
  | zero =>
    have hnil : c.tokens.toList.drop i = [] :=
      List.drop_eq_nil_of_le (by rw [Array.length_toList]; omega)
    rw [hnil]
    simp [closing, groupSearch]
  | succ fuel ih =>
    rw [closing]
    rcases Nat.lt_or_ge i c.tokens.size with hi | hi
    · have hdrop : c.tokens.toList.drop i = c.tokens[i] :: c.tokens.toList.drop (i + 1) := by
        rw [List.drop_eq_getElem_cons (by rwa [Array.length_toList]), Array.getElem_toList]
      have hnext : ∀ opened, c.closing opening closer fuel (i + 1) opened = .ok j ↔
          ∃ k, (groupSearch opening closer (c.tokens.toList.drop (i + 1)) opened).shift 1 =
            .found k ∧ j = i + k := by
        intro opened
        rw [ih (i + 1) opened (by omega)]
        constructor
        · rintro ⟨k, hk, rfl⟩
          exact ⟨1 + k, by rw [hk]; rfl, by omega⟩
        · rintro ⟨k, hk, rfl⟩
          obtain ⟨k', hk', rfl⟩ := GroupSearch.shift_eq_found hk
          exact ⟨k', hk', by omega⟩
      rw [hdrop, tokenAt_of_lt hi]
      simp only [groupSearch]
      split
      · simp
      split
      · exact hnext _
      split
      · split
        · constructor
          · intro h
            cases h
            exact ⟨0, rfl, rfl⟩
          · rintro ⟨k, hk, rfl⟩
            cases hk
            rfl
        · exact hnext _
      · exact hnext _
    · have hnil : c.tokens.toList.drop i = [] :=
        List.drop_eq_nil_of_le (by rwa [Array.length_toList])
      rw [hnil, if_pos (by rw [tokenAt_of_le hi]; rfl)]
      simp [groupSearch]

theorem lt_of_groupSearch_found {opening closer : Punct} {i opened k : Nat}
    (h : groupSearch opening closer (c.tokens.toList.drop i) opened = .found k) :
    i + k + 1 < c.tokens.size := by
  obtain ⟨x, hx, hcloser⟩ := getElem?_of_groupSearch_found h
  rw [List.getElem?_drop, Array.getElem?_toList] at hx
  obtain ⟨hlt, hx⟩ := Array.getElem?_eq_some_iff.1 hx
  rcases Nat.lt_or_ge (i + k + 1) c.tokens.size with hnext | hlast
  · exact hnext
  · have hback : c.tokens.back? = some x := by
      rw [Array.back?, Array.getElem?_eq_some_iff]
      have hindex : c.tokens.size - 1 = i + k := by omega
      simp only [hindex]
      exact ⟨hlt, hx⟩
    have heof := c.isEof_last x hback
    rw [Token.isEof_of_isPunct hcloser] at heof
    cases heof

theorem pos_moveTo {i : Nat} (h : i < c.tokens.size) : (c.moveTo i).pos = i := by
  show min i (c.tokens.size - 1) = i
  omega

theorem matchingParen?_eq_some_iff {j : Nat} :
    c.matchingParen? = some j ↔ ∃ k,
      groupSearch .leftParen .rightParen (c.tokens.toList.drop c.pos) 0 = .found k ∧
        j = c.pos + k := by
  rw [← closing_eq_ok_iff _ _ c.tokens.size c.pos 0 j (by omega), matchingParen?]
  cases c.closing .leftParen .rightParen c.tokens.size c.pos 0 with
  | error i => simp [Except.toOption]
  | ok i => simp [Except.toOption]

end Cursor

/-- Whether an arrow follows a group in parentheses is decided where the group ends. -/
theorem Cursor.atArrow_iff_of_paren {c : Cursor} (hc : c.token = .punct .leftParen) :
    Grammar.atArrow c = true ↔ ∃ k,
      groupSearch .leftParen .rightParen (c.tokens.toList.drop c.pos) 0 = .found k ∧
        (c.tokenAt (c.pos + k + 1)).isPunct .arrow = true := by
  rw [Grammar.atArrow, hc]
  constructor
  · intro h
    cases hparen : c.matchingParen? with
    | none => simp [hparen] at h
    | some j =>
      obtain ⟨k, hk, rfl⟩ := matchingParen?_eq_some_iff.1 hparen
      exact ⟨k, hk, by simpa [hparen] using h⟩
  · rintro ⟨k, hk, harrow⟩
    rw [matchingParen?_eq_some_iff.2 ⟨k, hk, rfl⟩]
    exact harrow

theorem Cursor.atArrow_eq_of_paren {c d : Cursor} (hc : c.token = .punct .leftParen)
    (hd : d.token = .punct .leftParen)
    (h : (∃ k k',
        groupSearch .leftParen .rightParen (c.tokens.toList.drop c.pos) 0 = .found k ∧
        groupSearch .leftParen .rightParen (d.tokens.toList.drop d.pos) 0 = .found k' ∧
        (d.tokenAt (d.pos + k' + 1)).isPunct .arrow = (c.tokenAt (c.pos + k + 1)).isPunct .arrow) ∨
      ((∀ k, groupSearch .leftParen .rightParen (c.tokens.toList.drop c.pos) 0 ≠ .found k) ∧
        ∀ k, groupSearch .leftParen .rightParen (d.tokens.toList.drop d.pos) 0 ≠ .found k)) :
    Grammar.atArrow d = Grammar.atArrow c := by
  rw [Bool.eq_iff_iff, atArrow_iff_of_paren hc, atArrow_iff_of_paren hd]
  rcases h with ⟨k, k', hk, hk', hnext⟩ | ⟨hk, hk'⟩
  · simp [hk, hk', hnext]
  · simp [hk, hk']

namespace Parse

variable {c c' : Cursor}

theorem eat_run (p : Punct) (c : Cursor) :
    eat p c = (.ok (c.token.isPunct p), if c.token.isPunct p then c.step else c) := by
  have hat : atPunct p c = (.ok (c.token.isPunct p), c) := rfl
  rw [eat, bind_ok hat]
  cases c.token.isPunct p with
  | true => rfl
  | false => rfl

theorem expect_run_ok {p : Punct} {u : Unit} (h : expect p c = (.ok u, c')) :
    c.token.isPunct p = true ∧ c' = c.step := by
  obtain ⟨b, c₁, heat, hrest⟩ := bind_run_ok h
  rw [eat_run] at heat
  cases hp : c.token.isPunct p with
  | true =>
    rw [hp] at heat
    cases heat
    cases hrest
    exact ⟨rfl, rfl⟩
  | false =>
    rw [hp] at heat
    cases heat
    cases hrest

theorem expect_eq_ok {p : Punct} (h : c.token.isPunct p = true) :
    expect p c = (.ok (), c.step) := by
  have heat : eat p c = (.ok true, c.step) := by rw [eat_run, h, if_pos rfl]
  exact bind_ok heat

theorem closing_step_iff (h : c.token.isPunct .leftBrace = true) {j : Nat} :
    c.step.closing .leftBrace .rightBrace c.step.tokens.size c.step.pos 1 = .ok j ↔
      ∃ k, groupSearch .leftBrace .rightBrace (c.tokens.toList.drop (c.pos + 1)) 1 = .found k ∧
        j = c.pos + 1 + k := by
  have hstep : c.step = { c with
      pos := c.pos + 1, pos_lt := Cursor.succ_pos_lt (Token.isEof_of_isPunct h) } :=
    dif_pos _
  rw [Cursor.closing_eq_ok_iff _ _ _ _ _ _ (by omega), hstep]

theorem moveTo_step (c : Cursor) (i : Nat) : c.step.moveTo i = c.moveTo i := by
  unfold Cursor.step
  split
  · rfl
  · rfl

/-- Braces are passed up to the end of their group, and their tokens are those between. -/
theorem braces_eq_ok (h : c.token.isPunct .leftBrace = true) {k : Nat}
    (hk : groupSearch .leftBrace .rightBrace (c.tokens.toList.drop (c.pos + 1)) 1 = .found k) :
    braces c = (.ok ((c.tokens.toList.drop (c.pos + 1)).take k), c.moveTo (c.pos + k + 2)) := by
  have hhere : here c = (.ok c.span, c) := rfl
  have hget : (get : Parse Cursor) c.step = (.ok c.step, c.step) := rfl
  have hpos : c.step.pos = c.pos + 1 := by
    rw [Cursor.step, dif_pos (Cursor.succ_pos_lt (Token.isEof_of_isPunct h))]
  have htokens : c.step.tokens = c.tokens := c.leads_step.tokens
  rw [braces, bind_ok hhere, bind_ok (expect_eq_ok h), bind_ok hget,
    (closing_step_iff h).2 ⟨k, hk, rfl⟩]
  have hbetween : (c.step.tokens.extract c.step.pos (c.pos + 1 + k)).toList =
      (c.tokens.toList.drop (c.pos + 1)).take k := by
    rw [Array.toList_extract, hpos, htokens, List.extract_eq_take_drop, Nat.add_sub_cancel_left]
  have hmove : c.step.moveTo (c.pos + 1 + k + 1) = c.moveTo (c.pos + k + 2) := by
    rw [moveTo_step]
    congr 1
    omega
  rw [← hbetween, ← hmove]
  rfl

theorem braces_run_ok {ts : List Lexeme} (h : braces c = (.ok ts, c')) :
    c.token.isPunct .leftBrace = true ∧
    ∃ k, groupSearch .leftBrace .rightBrace (c.tokens.toList.drop (c.pos + 1)) 1 = .found k ∧
      ts = (c.tokens.toList.drop (c.pos + 1)).take k ∧ c' = c.moveTo (c.pos + k + 2) := by
  obtain ⟨_, c₁, hhere, hrest⟩ := bind_run_ok h
  cases hhere
  obtain ⟨_, c₁, hexpect, hrest⟩ := bind_run_ok hrest
  obtain ⟨hbrace, rfl⟩ := expect_run_ok hexpect
  refine ⟨hbrace, ?_⟩
  cases hclosing : c.step.closing .leftBrace .rightBrace c.step.tokens.size c.step.pos 1 with
  | error j =>
    obtain ⟨_, _, hget, hrest⟩ := bind_run_ok hrest
    cases hget
    rw [hclosing] at hrest
    cases hrest
  | ok j =>
    obtain ⟨k, hk, _⟩ := (closing_step_iff hbrace).1 hclosing
    rw [braces_eq_ok hbrace hk] at h
    cases h
    exact ⟨k, hk, rfl, rfl⟩

theorem body_eq_ok (h : c.token.isPunct .leftBrace = true) {k : Nat}
    (hk : groupSearch .leftBrace .rightBrace (c.tokens.toList.drop (c.pos + 1)) 1 = .found k) :
    body c = (.ok (.block ((c.tokens.toList.drop (c.pos + 1)).take k) c.pos),
      { c.moveTo (c.pos + k + 2) with bodies := c.pos :: c.bodies }) := by
  have hget : (get : Parse Cursor) c = (.ok c, c) := rfl
  rw [body, bind_ok hget, bind_ok (braces_eq_ok h hk)]
  rfl

theorem body_run_ok {b : FunctionBody} (h : body c = (.ok b, c')) :
    c.token.isPunct .leftBrace = true ∧
    ∃ k, groupSearch .leftBrace .rightBrace (c.tokens.toList.drop (c.pos + 1)) 1 = .found k ∧
      b = .block ((c.tokens.toList.drop (c.pos + 1)).take k) c.pos ∧
      c' = { c.moveTo (c.pos + k + 2) with bodies := c.pos :: c.bodies } := by
  obtain ⟨_, c₁, hget, hrest⟩ := bind_run_ok h
  cases hget
  obtain ⟨ts, c₁, hbraces, _⟩ := bind_run_ok hrest
  obtain ⟨hbrace, k, hk, _, _⟩ := braces_run_ok hbraces
  rw [body_eq_ok hbrace hk] at h
  cases h
  exact ⟨hbrace, k, hk, rfl, rfl⟩

theorem skipGroup_eq_ok {opening closer : Punct} (h : delimiters? c.token = some (opening, closer))
    {k : Nat} (hk : groupSearch opening closer (c.tokens.toList.drop c.pos) 0 = .found k) :
    skipGroup c = (.ok (), c.moveTo (c.pos + k + 1)) := by
  have hget : (get : Parse Cursor) c = (.ok c, c) := rfl
  have hclosing := (Cursor.closing_eq_ok_iff opening closer c.tokens.size c.pos 0 (c.pos + k)
    (Nat.le_add_right ..)).2 ⟨k, hk, rfl⟩
  rw [skipGroup, bind_ok hget, h]
  dsimp only
  rw [hclosing]
  rfl

theorem skipGroup_run_ok {u : Unit} (h : skipGroup c = (.ok u, c')) :
    ∃ opening closer k, delimiters? c.token = some (opening, closer) ∧
      groupSearch opening closer (c.tokens.toList.drop c.pos) 0 = .found k ∧
      c' = c.moveTo (c.pos + k + 1) := by
  obtain ⟨_, c₁, hget, hrest⟩ := bind_run_ok h
  cases hget
  cases hpair : delimiters? c.token with
  | none =>
    rw [hpair] at hrest
    cases hrest
  | some pair =>
    obtain ⟨opening, closer⟩ := pair
    rw [hpair] at hrest
    dsimp only at hrest
    cases hclosing : c.closing opening closer c.tokens.size c.pos 0 with
    | error j =>
      rw [hclosing] at hrest
      cases hrest
    | ok j =>
      obtain ⟨k, hk, _⟩ := (Cursor.closing_eq_ok_iff _ _ _ _ _ _ (Nat.le_add_right ..)).1 hclosing
      rw [skipGroup_eq_ok hpair hk] at h
      cases h
      exact ⟨opening, closer, k, rfl, hk, rfl⟩

end Parse

end Typings
