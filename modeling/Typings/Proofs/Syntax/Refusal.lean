import Typings.Proofs.Syntax.Ahead
import Typings.Proofs.Syntax.Balance
import Typings.Proofs.Syntax.ClassText

namespace Typings

open Parse

variable {d m : Nat} {os rest ts : List Token} {o t : Token} {g : Grammar}

/-- Whether a nesting is opened behind the token where an operand begins. -/
def Token.opensOperand (t : Token) : Bool :=
  t.isPunct .leftBracket || (UnaryOp.ofToken? t).isSome || (UpdateOp.ofToken? t).isSome

theorem Token.mem_of_opensOperand (h : t.opensOperand = true) :
    t ∈ [.punct .leftBracket, .punct .bang, .punct .minus, .punct .plus, .punct .tilde,
      .keyword .kwTypeof, .keyword .kwVoid, .keyword .kwDelete, .punct .plusPlus,
      Token.punct .minusMinus] := by
  cases t with
  | punct p => cases p <;> first | exact absurd h (by decide) | simp
  | keyword k => cases k <;> first | exact absurd h (by decide) | simp
  | _ => cases h

theorem Token.opensOperand_cases (h : t.opensOperand = true) :
    t = .punct .leftBracket ∨ (∃ op, UnaryOp.ofToken? t = some op) ∨
      UnaryOp.ofToken? t = none ∧ ∃ op, UpdateOp.ofToken? t = some op := by
  have hmem := t.mem_of_opensOperand h
  simp only [List.mem_cons, List.not_mem_nil, or_false] at hmem
  rcases hmem with rfl | rfl | rfl | rfl | rfl | rfl | rfl | rfl | rfl | rfl <;>
    simp [UnaryOp.ofToken?, UpdateOp.ofToken?]

/-- What the productions look at before an operand. -/
structure Token.BeforeOperand (t : Token) : Prop where
  isEof : t.isEof = false
  rightBracket : t.isPunct .rightBracket = false
  rightBrace : t.isPunct .rightBrace = false
  comma : t.isPunct .comma = false
  spread : t.isPunct .dotDotDot = false
  atArrow : ∀ c : Cursor, c.token = t → Grammar.atArrow c = false

theorem Token.beforeOperand (h : t.opensOperand = true) : t.BeforeOperand := by
  have hmem := t.mem_of_opensOperand h
  simp only [List.mem_cons, List.not_mem_nil, or_false] at hmem
  rcases hmem with rfl | rfl | rfl | rfl | rfl | rfl | rfl | rfl | rfl | rfl
  all_goals
    refine ⟨rfl, rfl, rfl, rfl, rfl, fun c hc => ?_⟩
    rw [Grammar.atArrow, hc]

theorem Token.exists_opening {i : Nat} (hos : ∀ t ∈ os, t.opensOperand = true) (h : 0 < i + os.length) :
    ∃ t ts, List.replicate i (.punct .leftBrace) ++ os ++ rest = t :: ts ∧
      t.isPunct .rightBrace = false ∧ t.isEof = false := by
  cases i with
  | succ i => exact ⟨_, _, rfl, rfl, rfl⟩
  | zero =>
    cases os with
    | nil => exact absurd h (by simp)
    | cons o os =>
      have hbefore := Token.beforeOperand (hos o List.mem_cons_self)
      exact ⟨o, os ++ rest, rfl, hbefore.rightBrace, hbefore.isEof⟩

namespace Grammar

theorem refuses_assignmentOf (ho : o.opensOperand = true)
    (h : d < nestingLimit → Refuses (d + 1) (o :: ts) (unaryOf g)) :
    Refuses d (o :: ts) (assignmentOf g) := by
  refine .nested fun hd => .get fun c hc => ?_
  rw [(Token.beforeOperand ho).atArrow c (Cursor.token_of_upcoming hc)]
  have hinfixes : Refuses (d + 1) (o :: ts) (infixesOf g 0) := takes_here.refuses fun _ _ => (h hd).bind
  have hconditional : Refuses (d + 1) (o :: ts) (conditionalOf g) :=
    takes_here.refuses fun _ _ => hinfixes.bind
  exact hconditional.bind

theorem refuses_unaryOf_array (ho : o.opensOperand = true)
    (h : Refuses d (o :: ts) g.assignment) :
    Refuses d (.punct .leftBracket :: o :: ts) (unaryOf g) := by
  have hbefore := Token.beforeOperand ho
  have hlisted : Refuses d (o :: ts) (listed g ArrayElement.spread .value) := by
    refine (takes_eat_none hbefore.spread).refuses fun found hfound => ?_
    rw [hfound]
    exact h.map
  have helement : Refuses d (o :: ts) (element g) := by
    refine (takes_eat_none hbefore.comma).refuses fun found hfound => ?_
    rw [hfound]
    exact hlisted.bind
  have harray : Refuses d (.punct .leftBracket :: o :: ts) (array g) :=
    takes_here.refuses fun _ _ => (takes_expect rfl).refuses fun _ _ =>
      (refuses_itemsUntil hbefore.rightBracket helement).bind
  have hprimary : Refuses d (.punct .leftBracket :: o :: ts) (primary g) := by
    refine takes_here.refuses fun _ _ => takes_current.refuses fun t ht => ?_
    rw [ht]
    exact harray
  have hhead : Refuses d (.punct .leftBracket :: o :: ts) (chainHead g) := by
    refine (takes_atKeyword _).refuses fun found hfound => ?_
    rw [hfound]
    exact hprimary
  refine takes_here.refuses fun _ _ => takes_current.refuses fun t ht => ?_
  rw [ht]
  have hchain : Refuses d (.punct .leftBracket :: o :: ts) (leftHandSideOf g) :=
    takes_here.refuses fun _ _ => hhead.bind
  exact takes_here.refuses fun _ _ => hchain.bind

theorem refuses_unaryOf_operator
    (ho : (∃ op, UnaryOp.ofToken? o = some op) ∨
      UnaryOp.ofToken? o = none ∧ ∃ op, UpdateOp.ofToken? o = some op)
    (h : Refuses d (t :: ts) (nested g.unary)) : Refuses d (o :: t :: ts) (unaryOf g) := by
  refine takes_here.refuses fun _ _ => takes_current.refuses fun o' ho' => ?_
  rw [ho']
  rcases ho with ⟨op, hop⟩ | ⟨hnone, op, hop⟩
  · rw [hop]
    exact takes_advance.refuses fun _ _ => h.bind
  · rw [hnone]
    dsimp only
    rw [hop]
    exact takes_advance.refuses fun _ _ => h.bind

theorem refuses_unaryOf (ho : o.opensOperand = true) (hos : ∀ t ∈ os, t.opensOperand = true)
    (hd : d ≤ nestingLimit) (hlimit : nestingLimit < d + os.length) (hm : os.length ≤ m) :
    Refuses d (o :: (os ++ rest)) (unaryOf (levels m)) := by
  induction os generalizing o d m with
  | nil => exact absurd hlimit (Nat.not_lt.2 hd)
  | cons o' os ih =>
    obtain ⟨m, rfl⟩ : ∃ k, m = k + 1 := ⟨m - 1, by rw [List.length_cons] at hm; omega⟩
    obtain ⟨ho', hos⟩ := List.forall_mem_cons.1 hos
    rw [List.length_cons] at hlimit hm
    have hinner : d < nestingLimit → Refuses (d + 1) (o' :: (os ++ rest)) (unaryOf (levels m)) :=
      fun hd => ih ho' hos hd (by omega) (by omega)
    rcases Token.opensOperand_cases ho with rfl | hoperator
    · exact refuses_unaryOf_array ho' (refuses_assignmentOf ho' hinner)
    · exact refuses_unaryOf_operator hoperator (.nested hinner)

theorem refuses_statementBody (ho : o.opensOperand = true) (h : Refuses d (o :: ts) (expressionOf g)) :
    Refuses d (o :: ts) (statementBody g) := by
  refine .get fun c hc => ?_
  rw [Cursor.token_of_upcoming hc]
  have hmem := o.mem_of_opensOperand ho
  simp only [List.mem_cons, List.not_mem_nil, or_false] at hmem
  rcases hmem with rfl | rfl | rfl | rfl | rfl | rfl | rfl | rfl | rfl | rfl <;> exact h.bind

theorem refuses_statementBody_block (hbrace : t.isPunct .rightBrace = false) (hend : t.isEof = false)
    (h : Refuses d (t :: ts) g.statement) :
    Refuses d (.punct .leftBrace :: t :: ts) (statementBody g) := by
  have hitem : Refuses d (t :: ts) (blockItem g) := by
    refine .get fun c hc => ?_
    rw [Cursor.atEnd, Cursor.token_of_upcoming hc, hend]
    exact h
  refine .get fun c hc => ?_
  rw [Cursor.token_of_upcoming hc]
  exact takes_advance.refuses fun _ _ => (refuses_itemsUntil hbrace hitem).bind

/-- Blocks, and operands in them, that open more nestings than may be opened. -/
theorem refuses_statementOf {i : Nat} (hos : ∀ t ∈ os, t.opensOperand = true)
    (hlimit : nestingLimit < d + i + os.length) (hm : i + os.length ≤ m) :
    Refuses d (List.replicate i (.punct .leftBrace) ++ os ++ rest) (statementOf (levels m)) := by
  induction i generalizing d m with
  | zero =>
    refine .nested fun hd => ?_
    cases os with
    | nil => exact absurd hlimit (by simp; omega)
    | cons o os =>
      obtain ⟨ho, hos⟩ := List.forall_mem_cons.1 hos
      rw [List.length_cons] at hlimit hm
      refine refuses_statementBody ho (takes_here.refuses fun _ _ => Refuses.bind ?_)
      exact refuses_assignmentOf ho fun hd => refuses_unaryOf ho hos hd (by omega) (by omega)
  | succ i ih =>
    refine .nested fun hd => ?_
    obtain ⟨m, rfl⟩ : ∃ k, m = k + 1 := ⟨m - 1, by omega⟩
    have hinner := @ih (d + 1) m (by omega) (by omega)
    -- the block is not empty, as the limit is not reached before it
    obtain ⟨t, ts, hts, hbrace, hend⟩ := @Token.exists_opening os rest i hos (by omega)
    rw [List.replicate_succ, List.cons_append, List.cons_append, hts]
    rw [hts] at hinner
    exact refuses_statementBody_block hbrace hend hinner

theorem refuses_moduleItem {i : Nat} (hos : ∀ t ∈ os, t.opensOperand = true)
    (hlimit : nestingLimit < i + os.length) (hm : i + os.length ≤ m) :
    Refuses 0 (List.replicate i (.punct .leftBrace) ++ os ++ rest) (moduleItem (levels m)) := by
  have hstatement := @refuses_statementOf 0 m os rest i hos (by omega) hm
  refine .get fun c hc => ?_
  cases i with
  | succ i =>
    rw [Cursor.token_of_upcoming hc]
    exact hstatement.bind
  | zero =>
    cases os with
    | nil => exact absurd hlimit (by simp)
    | cons o os =>
      rw [Cursor.token_of_upcoming hc]
      have hmem := o.mem_of_opensOperand (hos o List.mem_cons_self)
      simp only [List.mem_cons, List.not_mem_nil, or_false] at hmem
      rcases hmem with rfl | rfl | rfl | rfl | rfl | rfl | rfl | rfl | rfl | rfl <;>
        exact hstatement.bind

end Grammar

namespace Module

variable {i : Nat} {us : List Lexeme}

theorem ofTokens_tooDeep (hus : us.map (·.1) = List.replicate i (.punct .leftBrace) ++ os ++ rest)
    (hos : ∀ t ∈ os, t.opensOperand = true) (hlimit : nestingLimit < i + os.length) :
    ∃ e errors, ofTokens us = .error (e :: errors) ∧ e.TooDeep := by
  obtain ⟨rest', hrest⟩ : ∃ rest', (Cursor.ofTokens us).upcoming =
      List.replicate i (.punct .leftBrace) ++ os ++ rest' := by
    obtain ⟨added, hadded, _⟩ := Cursor.exists_terminated_eq us
    refine ⟨rest ++ added.map (·.1), ?_⟩
    rw [Cursor.upcoming_ofTokens, hadded, List.map_append, hus, List.append_assoc]
  have hm : i + os.length ≤ Lexeme.weights us + 1 := by
    have hle := Lexeme.length_le_weights us
    have hlength := congrArg List.length hus
    simp only [List.length_map, List.length_append, List.length_replicate] at hlength
    omega
  obtain ⟨e, c₁, hitem, he⟩ := Grammar.refuses_moduleItem hos hlimit hm _ rfl hrest
  obtain ⟨items, errors, c', hrun, hmodule⟩ := wholeModule_run us
  -- the first item is the one that is refused
  cases hmodule with
  | done hdone =>
    obtain ⟨t, ts, hts, _, hend⟩ := @Token.exists_opening os rest' i hos (by omega)
    rw [Cursor.atEnd, Cursor.token_of_upcoming (hrest.trans hts), hend] at hdone
    cases hdone
  | item _ _ hitem' => cases hitem.symm.trans hitem'
  | error _ _ herror =>
    cases hitem.symm.trans herror
    exact ⟨e, _, by rw [ofTokens, hrun], he⟩

theorem ofSource_tooDeep {source : String} (hscan : Token.scan source = .ok us)
    (hus : us.map (·.1) = List.replicate i (.punct .leftBrace) ++ os ++ rest)
    (hos : ∀ t ∈ os, t.opensOperand = true) (hlimit : nestingLimit < i + os.length) :
    ∃ e : ParseError, e.TooDeep ∧ ofSource source = .error (e.report source) := by
  obtain ⟨e, errors, hmodule, he⟩ := ofTokens_tooDeep hus hos hlimit
  refine ⟨e, he, ?_⟩
  rw [ofSource, hscan]
  dsimp only
  rw [hmodule]
  rfl

end Module

end Typings
