import Typings.Proofs.Syntax.Bound
import Typings.Proofs.Token.Printing

namespace Typings

open Parse

variable {d : Nat} {ts l : List Token} {t u : Token}

/-- A chain of `n` expressions below an expression, each the next one by `R`. -/
inductive Expr.Deep (R : Expr → Expr → Prop) : Nat → Expr → Prop
  | zero (e : Expr) : Deep R 0 e
  | succ {n : Nat} {e e' : Expr} (h : R e e') (hrest : Deep R n e') : Deep R (n + 1) e

inductive Expr.Calls : Expr → Expr → Prop
  | new (callee : Expr) (as : List Argument) (s : Span) : Calls (.new callee as s) callee

/-- `**` and its right operand. -/
inductive Expr.Raises : Expr → Expr → Prop
  | exponent (l r : Expr) (s : Span) : Raises (.binary .exponent l r s) r

inductive Expr.Extends : Expr → Expr → Prop
  | classOf {c : ClassDef} {e : Expr} (h : c.superclass = some e) : Extends (.classOf c) e

inductive Expr.Substitutes : Expr → Expr → Prop
  | template {parts : List TemplateElement} {e : Expr} (h : .value e ∈ parts) (s : Span) :
      Substitutes (.template parts s) e

namespace Grammar

variable {g : Grammar} {n m least : Nat} {a : String} {e : Expr} {P : Expr → Prop}

def EndsExpression (t : Token) : Prop := t = .punct .semicolon ∨ t = .eof

def EndsChain (t : Token) : Prop :=
  EndsExpression t ∨ t = .punct .starStar ∨ t = .punct .leftBrace

theorem takes_primary_name :
    Takes d (.identifier a :: t :: l) (t :: l) (fun _ => True) (primary g) := by
  refine takes_here.bind fun span _ => takes_current.bind fun t' ht' => ?_
  rw [ht']
  exact takes_advance.bind fun _ _ => .pure trivial

theorem takes_chainHead (ht : t.isWord .kwNew = false) (h : Takes d (t :: ts) l P (primary g)) :
    Takes d (t :: ts) l P (chainHead g) := by
  refine (takes_atKeyword _).bind fun found hfound => ?_
  rw [hfound, ht]
  exact h

theorem takes_leftHandSideOf (ht : EndsChain t) (hhead : Takes d ts (t :: l) P (chainHead g)) :
    Takes d ts (t :: l) P (leftHandSideOf g) := by
  refine takes_here.bind fun start _ => hhead.bind fun e he => takes_loop ?_
  refine takes_current.bind fun t' ht' => ?_
  rw [ht']
  rcases ht with (rfl | rfl) | rfl | rfl <;> exact .pure ⟨e, rfl, he⟩

theorem takes_unaryOf (hunary : UnaryOp.ofToken? t = none) (hupdate : UpdateOp.ofToken? t = none)
    (hend : UpdateOp.ofToken? u = none) (h : Takes d (t :: ts) (u :: l) P (leftHandSideOf g)) :
    Takes d (t :: ts) (u :: l) P (unaryOf g) := by
  refine takes_here.bind fun start _ => takes_current.bind fun t' ht' => ?_
  rw [ht', hunary]
  dsimp only
  rw [hupdate]
  refine takes_here.bind fun start _ => h.bind fun e he => .get fun c hc => ?_
  rw [Cursor.token_of_upcoming hc, hend]
  exact .pure he

theorem takes_infixLink_end {start : Span} (hend : InfixOp.ofToken? t = none) (he : P e) :
    Takes d (t :: l) (t :: l) (fun r => ∃ e, r = .inr e ∧ P e) (infixLink g start least e) := by
  refine takes_current.bind fun t' ht' => ?_
  rw [ht', hend]
  exact .pure ⟨e, rfl, he⟩

theorem takes_infixesOf (hend : InfixOp.ofToken? t = none) (h : Takes d ts (t :: l) P (unaryOf g)) :
    Takes d ts (t :: l) P (infixesOf g least) :=
  takes_here.bind fun _ _ => h.bind fun _ he => takes_loop (takes_infixLink_end hend he)

theorem takes_expressionOf (hd : d < nestingLimit) (ht : EndsExpression t)
    (harrow : ∀ c : Cursor, c.upcoming = ts → atArrow c = false)
    (h : Takes (d + 1) ts (t :: l) P (infixesOf g 0)) : Takes d ts (t :: l) P (expressionOf g) := by
  have hoperand : Takes (d + 1) ts (t :: l) P (conditionalOf g) := by
    refine takes_here.bind fun start _ => h.bind fun e he => ?_
    refine (takes_eat_none (by rcases ht with rfl | rfl <;> rfl)).bind fun found hfound => ?_
    rw [hfound]
    exact .pure he
  have hassignment : Takes d ts (t :: l) P (assignmentOf g) := by
    refine .nested hd (.get fun c hc => ?_)
    rw [harrow c hc]
    refine hoperand.bind fun e he => takes_current.bind fun t' ht' => ?_
    rw [ht']
    rcases ht with rfl | rfl <;> exact .pure he
  refine takes_here.bind fun start _ => hassignment.bind fun e he => ?_
  refine (takes_atPunct _).bind fun found hfound => ?_
  rw [hfound]
  rcases ht with rfl | rfl <;> exact .pure he

theorem takes_expressionOf_chain (hd : d < nestingLimit) (ht : EndsExpression t)
    (hu : UnaryOp.ofToken? u = none ∧ UpdateOp.ofToken? u = none)
    (harrow : ∀ c : Cursor, c.upcoming = u :: ts → atArrow c = false)
    (h : Takes (d + 1) (u :: ts) (t :: l) P (leftHandSideOf g)) :
    Takes d (u :: ts) (t :: l) P (expressionOf g) := by
  refine takes_expressionOf hd ht harrow (takes_infixesOf ?_ (takes_unaryOf hu.1 hu.2 ?_ h))
  · rcases ht with rfl | rfl <;> rfl
  · rcases ht with rfl | rfl <;> rfl

/-- `n` times `new`, and a name. -/
def instantiations (a : String) : Nat → List Token
  | 0 => [.identifier a]
  | n + 1 => .keyword .kwNew :: instantiations a n

theorem takes_instantiationOf_callee (ht : EndsChain t) (hu : u.isPunct .dot = false)
    (hcallee : Takes d (u :: ts) (t :: l) (Expr.Deep Expr.Calls n) (calleeHead g)) :
    Takes d (.keyword .kwNew :: u :: ts) (t :: l) (Expr.Deep Expr.Calls (n + 1))
      (instantiationOf g) := by
  refine takes_here.bind fun start _ => (takes_expectKeyword rfl).bind fun _ _ => ?_
  refine (takes_atPunct _).bind fun found hfound => ?_
  rw [hfound, hu]
  refine hcallee.bind fun head hhead => ?_
  have hlink : Takes d (t :: l) (t :: l) (fun r => ∃ e, r = .inr e ∧ Expr.Deep Expr.Calls n e)
      (calleeLink g start head) := by
    refine takes_current.bind fun t' ht' => ?_
    rw [ht']
    rcases ht with (rfl | rfl) | rfl | rfl <;> exact .pure ⟨head, rfl, hhead⟩
  have hnone : t.isPunct .leftParen = false := by rcases ht with (rfl | rfl) | rfl | rfl <;> rfl
  refine (takes_loop hlink).bind fun callee hcallee => ?_
  have harguments : Takes d (t :: l) (t :: l) (fun _ => True) (arguments? g) := by
    refine (takes_atPunct _).bind fun found hfound => ?_
    rw [hfound, hnone]
    exact .pure trivial
  exact harguments.bind fun _ _ => takes_previous.bind fun _ _ => .pure (.succ (.new ..) hcallee)

theorem takes_instantiationOf (ht : EndsChain t) (h : n ≤ m) :
    Takes d (instantiations a (n + 1) ++ t :: l) (t :: l) (Expr.Deep Expr.Calls (n + 1))
      (instantiationOf (levels m)) := by
  induction n generalizing m with
  | zero =>
    refine takes_instantiationOf_callee ht rfl ?_
    refine (takes_atKeyword _).bind fun found hfound => ?_
    rw [hfound]
    exact takes_primary_name.mono fun e _ => .zero e
  | succ n ih =>
    obtain ⟨m, rfl⟩ : ∃ k, m = k + 1 := ⟨m - 1, by omega⟩
    refine takes_instantiationOf_callee ht rfl ?_
    refine (takes_atKeyword _).bind fun found hfound => ?_
    rw [hfound]
    exact ih (Nat.le_of_succ_le_succ h)

/-- `n` times `**` between names. -/
def powers (a : String) : Nat → List Token
  | 0 => [.identifier a]
  | n + 1 => .identifier a :: .punct .starStar :: powers a n

theorem takes_unaryOf_name (ht : EndsChain t) :
    Takes d (.identifier a :: t :: l) (t :: l) (fun _ => True) (unaryOf g) := by
  refine takes_unaryOf rfl rfl ?_ (takes_leftHandSideOf ht (takes_chainHead rfl takes_primary_name))
  rcases ht with (rfl | rfl) | rfl | rfl <;> rfl

theorem takes_infixesOf_powers (ht : EndsExpression t) (h : n ≤ m)
    (hleast : least < (InfixOp.binary .exponent).precedence) :
    Takes d (powers a n ++ t :: l) (t :: l) (Expr.Deep Expr.Raises n)
      (infixesOf (levels m) least) := by
  have hend : InfixOp.ofToken? t = none := by rcases ht with rfl | rfl <;> rfl
  induction n generalizing m least with
  | zero =>
    exact takes_infixesOf hend ((takes_unaryOf_name (.inl ht)).mono fun e _ => .zero e)
  | succ n ih =>
    obtain ⟨m, rfl⟩ : ∃ k, m = k + 1 := ⟨m - 1, by omega⟩
    obtain ⟨u, us, hus⟩ := List.exists_cons_of_ne_nil (l := powers a n ++ t :: l) (by simp)
    have hts : powers a (n + 1) ++ t :: l = .identifier a :: .punct .starStar :: u :: us := by
      simp [powers, ← hus]
    have hright := @ih m ((InfixOp.binary .exponent).precedence - 1) (Nat.le_of_succ_le_succ h)
      (by decide)
    rw [hus] at hright
    rw [hts]
    refine takes_here.bind fun start _ => (takes_unaryOf_name (.inr (.inl rfl))).bind fun left _ => ?_
    refine takes_loop_once (I := Expr.Deep Expr.Raises (n + 1)) ?_ fun e he =>
      takes_infixLink_end hend he
    refine takes_current.bind fun t' ht' => ?_
    rw [ht']
    show Takes d _ _ _ (if _ then _ else _)
    rw [if_neg (Nat.not_le.2 hleast)]
    exact takes_advance.bind fun _ _ => hright.bind fun right hright =>
      .pure ⟨_, rfl, .succ (.exponent ..) hright⟩

/-- `n` classes, each extending the next, and the last a name. -/
def extensions (a : String) : Nat → List Token
  | 0 => [.identifier a]
  | n + 1 => .keyword .kwClass :: .keyword .kwExtends :: extensions a n ++
      [.punct .leftBrace, .punct .rightBrace]

theorem takes_classDef (hsuper : Takes d (u :: ts)
      (.punct .leftBrace :: .punct .rightBrace :: t :: l) P g.leftHandSide) :
    Takes d (.keyword .kwClass :: .keyword .kwExtends :: u :: ts) (t :: l)
      (fun c => ∃ e, c.superclass = some e ∧ P e) (classDef g) := by
  have hname : Takes d (.keyword .kwExtends :: u :: ts) (.keyword .kwExtends :: u :: ts)
      (fun _ => True) name? := by
    refine takes_current.bind fun t' ht' => ?_
    rw [ht']
    exact .pure trivial
  have hheritage : Takes d (.keyword .kwExtends :: u :: ts)
      (.punct .leftBrace :: .punct .rightBrace :: t :: l)
      (fun found => ∃ e, found = some e ∧ P e) (heritage g) := by
    refine (takes_eatKeyword rfl).bind fun found hfound => ?_
    rw [hfound]
    exact hsuper.map fun e he => ⟨e, rfl, he⟩
  refine takes_here.bind fun start _ => (takes_expectKeyword rfl).bind fun _ _ => ?_
  refine hname.bind fun _ _ => hheritage.bind fun superclass hsuper => ?_
  refine (takes_expect rfl).bind fun _ _ => (takes_itemsUntil_nil rfl).bind fun items _ => ?_
  exact takes_previous.bind fun _ _ => .pure hsuper

theorem takes_leftHandSideOf_extensions (ht : EndsChain t) (h : n ≤ m) :
    Takes d (extensions a n ++ t :: l) (t :: l) (Expr.Deep Expr.Extends n)
      (leftHandSideOf (levels m)) := by
  induction n generalizing m t l with
  | zero =>
    exact takes_leftHandSideOf ht (takes_chainHead rfl (takes_primary_name.mono fun e _ => .zero e))
  | succ n ih =>
    obtain ⟨m, rfl⟩ : ∃ k, m = k + 1 := ⟨m - 1, by omega⟩
    obtain ⟨u, us, hus⟩ := List.exists_cons_of_ne_nil
      (l := extensions a n ++ .punct .leftBrace :: .punct .rightBrace :: t :: l) (by simp)
    have hsuper := ih (t := .punct .leftBrace) (l := .punct .rightBrace :: t :: l) (.inr (.inr rfl))
      (Nat.le_of_succ_le_succ h)
    have hts : extensions a (n + 1) ++ t :: l = .keyword .kwClass :: .keyword .kwExtends :: u :: us := by
      simp [extensions, ← hus]
    rw [hus] at hsuper
    rw [hts]
    refine takes_leftHandSideOf ht (takes_chainHead rfl ?_)
    refine takes_here.bind fun span _ => takes_current.bind fun t' ht' => ?_
    rw [ht']
    refine (takes_classDef hsuper).bind fun c hc => ?_
    obtain ⟨e, hsuperclass, he⟩ := hc
    exact .pure (.succ (.classOf hsuperclass) he)

end Grammar

/-- A name in a template in a template, and so on `n` times. -/
inductive Token.Templates (a : String) : Nat → Token → Prop
  | name : Templates a 0 (.identifier a)
  | template {n : Nat} {t : Token} (h : Templates a n t) (s : Span) :
      Templates a (n + 1) (.template [.substitution [(t, s)]])

theorem Token.Templates.isEof {a : String} {n : Nat} (h : t.Templates a n) : t.isEof = false := by
  cases h <;> rfl

theorem Token.Templates.le_weight {a : String} {n : Nat} (h : t.Templates a n) : n ≤ t.weight := by
  induction h with
  | name => exact Nat.zero_le _
  | template _ _ ih =>
    simp only [Token.weight, TemplatePart.weights, Lexeme.weights]
    omega

namespace Grammar

variable {g : Grammar} {n m : Nat} {a : String} {P : Expr → Prop}

theorem wholeOf_of_takes {s : Span} (ht : t.isEof = false)
    (h : Takes 0 [t, .eof] [.eof] P (expressionOf g)) : ∃ e, wholeOf g [(t, s)] = .ok e ∧ P e := by
  have hupcoming : (Cursor.ofTokens [(t, s)]).upcoming = [t, .eof] := by
    rw [Cursor.upcoming_ofTokens, Cursor.terminated_of_getLast? rfl, ht]
    rfl
  have hread : Takes 0 [t, .eof] [.eof] P (do
      let e ← expressionOf g
      unless (← get).atEnd do unexpected [.eof]
      return e) := by
    refine h.bind fun e he => .get fun c hc => ?_
    rw [Cursor.atEnd, Cursor.token_of_upcoming hc]
    exact .pure he
  obtain ⟨e, c', hrun, he, _⟩ := hread _ rfl hupcoming
  exact ⟨e, congrArg Prod.fst hrun, he⟩

theorem takes_expressionOf_templates (hu : u.Templates a n) (hd : d < nestingLimit)
    (ht : EndsExpression t) (h : n ≤ m) :
    Takes d (u :: t :: l) (t :: l) (Expr.Deep Expr.Substitutes n) (expressionOf (levels m)) := by
  induction hu generalizing m d t l with
  | name =>
    refine takes_expressionOf_chain hd ht ⟨rfl, rfl⟩ (fun c hc => atArrow_of_upcoming hc ?_)
      (takes_leftHandSideOf (.inl ht) (takes_chainHead rfl (takes_primary_name.mono fun e _ => .zero e)))
    rcases ht with rfl | rfl <;> rfl
  | @template n u hu s ih =>
    obtain ⟨m, rfl⟩ : ∃ k, m = k + 1 := ⟨m - 1, by omega⟩
    obtain ⟨e, hwhole, he⟩ := wholeOf_of_takes (s := s) hu.isEof
      (ih (by decide) (.inr rfl) (Nat.le_of_succ_le_succ h))
    have helements : templateElements (levels (m + 1)) [.substitution [(u, s)]] = .ok [.value e] := by
      show (wholeOf (levels m) [(u, s)] >>= _) = _
      rw [hwhole]
      rfl
    refine takes_expressionOf_chain hd ht ⟨rfl, rfl⟩ (fun c hc => ?_)
      (takes_leftHandSideOf (.inl ht) (takes_chainHead rfl ?_))
    · rw [atArrow, Cursor.token_of_upcoming hc]
    · refine takes_here.bind fun span _ => takes_current.bind fun t' ht' => ?_
      rw [ht']
      refine takes_advance.bind fun _ _ => ?_
      rw [helements]
      exact .pure (.succ (.template List.mem_cons_self _) he)

end Grammar

namespace Scan

variable {n o : Nat} {rest : List Char}

/-- The text of a name in a template in a template, and so on `n` times. -/
def templates : Nat → List Char
  | 0 => ['a']
  | n + 1 => '`' :: '$' :: '{' :: templates n ++ ['}', '`']

theorem substitution?_templates (depth : Nat) (cs : List Char) :
    substitution? depth (templates n ++ cs) =
      (substitution? depth cs).map fun (inner, after) => (templates n ++ inner, after) := by
  induction n generalizing depth cs with
  | zero => rfl
  | succ n ih =>
    have hsplit : templates (n + 1) ++ cs = '`' :: '$' :: '{' :: (templates n ++ '}' :: '`' :: cs) := by
      simp [templates]
    rw [hsplit]
    simp [substitution?, ih, templates, Function.comp_def]

theorem lexed_templates (hrest : ∀ d ∈ rest.head?, isNamePart d = false) :
    ∃ t : Token, t.Templates "a" n ∧ Lexed rest o (templates n) t := by
  induction n generalizing o rest with
  | zero => exact ⟨_, .name, lexed_name (n := "a") rfl hrest⟩
  | succ n ih =>
    obtain ⟨t, ht, hlexed⟩ := @ih (o + 3) [] (by simp)
    have hinner : substitution? 0 (templates n ++ '}' :: '`' :: rest) =
        some (templates n, '`' :: rest) := by
      rw [substitution?_templates]
      simp [substitution?]
    have hclosed : ∀ k, rawTemplate k ('`' :: rest) = ⟨[], [], .closed rest⟩ := fun k => by
      rw [rawTemplate]
    have hraw : rawTemplate (o + 1) ('$' :: '{' :: templates n ++ ['}', '`'] ++ rest) =
        ⟨[], [.substitution (o + 1) (templates n)], .closed rest⟩ := by
      have hsplit : '$' :: '{' :: templates n ++ ['}', '`'] ++ rest =
          '$' :: '{' :: (templates n ++ '}' :: '`' :: rest) := by simp
      rw [hsplit, rawTemplate_substitution hinner, hclosed]
      rfl
    obtain ⟨s, hpart⟩ : ∃ s, (RawPart.substitution (o + 1) (templates n)).Reads
        (.substitution [(t, s)]) := by
      have hscans : Scans (templates n ++ []) (Mark.origin (o + 1 + 2)) _ := .token hlexed .done
      rw [List.append_nil] at hscans
      have hpart := @RawPart.Reads.substitution (o + 1) _ _ hscans.tokens_eq
      rw [List.filter_cons_of_pos (by simp [ht.isEof])] at hpart
      exact ⟨_, hpart⟩
    refine ⟨_, .template ht s, .template (u := '$' :: '{' :: templates n ++ ['}', '`']) ?_ ?_⟩
    · rw [hraw]
    · rw [hraw]
      exact .cons hpart .nil

theorem scans_throw_templates (n : Nat) :
    ∃ (t : Token) (s₁ s₂ s₃ s₄ : Span), t.Templates "a" n ∧
      Scans ("throw ".toList ++ (templates n ++ " ;".toList)) (Mark.origin 0)
        [(.keyword .kwThrow, s₁), (t, s₂), (.punct .semicolon, s₃), (.eof, s₄)] := by
  have hspace : ∀ cs, ∀ d ∈ (' ' :: cs).head?, isNamePart d = false := by
    intro cs d hd
    cases hd
    decide
  let p := ((Mark.origin 0).after Keyword.kwThrow.text.toList).next ' '
  obtain ⟨t, ht, hlexed⟩ := @lexed_templates n p.offset [' ', ';'] (hspace _)
  have hsemicolon : Scans (Punct.semicolon.text.toList ++ []) ((p.after (templates n)).next ' ') _ :=
    .token (lexed_punct .semicolon (by simp)) .done
  have htemplate : Scans (templates n ++ ([' '] ++ (Punct.semicolon.text.toList ++ []))) p _ :=
    .token hlexed (.gap (.blank rfl) hsemicolon)
  have hthrow : Scans (Keyword.kwThrow.text.toList ++ ([' '] ++ (templates n ++
      ([' '] ++ (Punct.semicolon.text.toList ++ []))))) (Mark.origin 0) _ :=
    .token (lexed_keyword .kwThrow (hspace _)) (.gap (.blank rfl) htemplate)
  exact ⟨t, _, _, _, _, ht, hthrow⟩

end Scan

theorem Grammar.takes_moduleItem_throw {g : Grammar} {P : Expr → Prop}
    (hread : Takes 1 (t :: ts ++ [.punct .semicolon, .eof]) [.punct .semicolon, .eof] P
      g.expression) :
    Takes 0 (.keyword .kwThrow :: t :: ts ++ [.punct .semicolon, .eof]) [.eof]
      (fun i => ∃ e s, i = ModuleItem.statement (.throws e s) ∧ P e) g.moduleItem := by
  have hstatement : Takes 0 (.keyword .kwThrow :: t :: ts ++ [.punct .semicolon, .eof]) [.eof]
      (fun st => ∃ e s, st = Statement.throws e s ∧ P e) (statementOf g) := by
    refine .nested (by decide) (.get fun c hc => ?_)
    rw [Cursor.token_of_upcoming hc]
    refine takes_advance.bind fun _ _ => hread.bind fun e he => ?_
    exact takes_semicolon.bind fun _ _ => takes_previous.bind fun s _ => .pure ⟨e, _, rfl, he⟩
  refine .get fun c hc => ?_
  rw [Cursor.token_of_upcoming hc]
  refine hstatement.bind fun st hst => ?_
  obtain ⟨e, s, rfl, he⟩ := hst
  exact .pure ⟨e, s, rfl, he⟩

theorem Module.ofTokens_of_throw {us : List Lexeme} {P : Expr → Prop}
    (hus : us.map (·.1) = .keyword .kwThrow :: t :: ts ++ [.punct .semicolon] ++ [.eof])
    (hread : Takes 1 (t :: ts ++ [.punct .semicolon, .eof]) [.punct .semicolon, .eof] P
      (Grammar.expressionOf (Grammar.levels (Lexeme.weights us)))) :
    ∃ m e, Module.ofTokens us = .ok m ∧ m.Has (.expr e) ∧ P e := by
  have hupcoming : (Cursor.ofTokens us).upcoming =
      .keyword .kwThrow :: t :: ts ++ [.punct .semicolon, .eof] := by
    rw [Cursor.upcoming_ofTokens_of_eof hus, List.append_assoc]
    rfl
  obtain ⟨_, c₁, hitem, ⟨e, s, rfl, he⟩, _, hc₁⟩ :=
    Grammar.takes_moduleItem_throw (g := Grammar.for us) hread _ rfl hupcoming
  have hstart : (Cursor.ofTokens us).atEnd = false := by
    rw [Cursor.atEnd, Cursor.token_of_upcoming hupcoming]
    rfl
  have hend : c₁.atEnd = true := by
    rw [Cursor.atEnd, Cursor.token_of_upcoming hc₁]
    rfl
  obtain ⟨items, errors, c', hrun, hmodule⟩ := wholeModule_run us
  -- the run goes through the statement and ends behind it
  obtain ⟨rfl, rfl⟩ : items = [.statement (.throws e s)] ∧ errors = [] := by
    cases hmodule with
    | done hdone => cases hstart.symm.trans hdone
    | error _ _ herror => cases hitem.symm.trans herror
    | item _ _ hitem' hrest =>
      cases hitem.symm.trans hitem'
      cases hrest with
      | done => exact ⟨rfl, rfl⟩
      | item hnot => cases hend.symm.trans hnot
      | error hnot => cases hend.symm.trans hnot
  refine ⟨_, e, by rw [Module.ofTokens, hrun], ?_, he⟩
  exact .child (.item List.mem_cons_self List.mem_cons_self) List.mem_cons_self

theorem Module.ofSource_of_throw {P : Expr → Prop} (hts : ∀ t' ∈ t :: ts, t'.isSpelled = true)
    (hread : ∀ m, ts.length ≤ m →
      Takes 1 (t :: ts ++ [.punct .semicolon, .eof]) [.punct .semicolon, .eof] P
        (Grammar.expressionOf (Grammar.levels m))) :
    ∃ m e, Module.ofSource
        (Token.print (.keyword .kwThrow :: t :: ts ++ [.punct .semicolon])) = .ok m ∧
      m.Has (.expr e) ∧ P e := by
  have hspelled : ∀ t' ∈ .keyword .kwThrow :: t :: ts ++ [.punct .semicolon], t'.isSpelled = true := by
    intro t' ht'
    rcases List.mem_append.1 ht' with ht' | ht'
    · rcases List.mem_cons.1 ht' with rfl | ht'
      · rfl
      · exact hts t' ht'
    · rw [List.mem_singleton.1 ht']
      rfl
  obtain ⟨us, hscans, hus⟩ := Scan.scans_print hspelled (Mark.origin 0)
  have hlength : ts.length ≤ Lexeme.weights us := by
    have hle := Lexeme.length_le_weights us
    have hmap := congrArg List.length hus
    simp only [List.length_map, List.length_append, List.length_cons] at hmap
    omega
  obtain ⟨m, e, hm, hhas, he⟩ := Module.ofTokens_of_throw hus (hread _ hlength)
  exact ⟨m, e, Module.ofSource_eq_ok hscans hm, hhas, he⟩

namespace Grammar

variable {a : String} (ha : Scan.isName a = true) (n : Nat)
include ha

theorem isSpelled_instantiations : ∀ t ∈ instantiations a n, t.isSpelled = true := by
  induction n with
  | zero => simpa [instantiations, Token.isSpelled] using ha
  | succ n ih => exact List.forall_mem_cons.2 ⟨rfl, ih⟩

theorem isSpelled_powers : ∀ t ∈ powers a n, t.isSpelled = true := by
  induction n with
  | zero => simpa [powers, Token.isSpelled] using ha
  | succ n ih => exact List.forall_mem_cons.2 ⟨ha, List.forall_mem_cons.2 ⟨rfl, ih⟩⟩

theorem isSpelled_extensions : ∀ t ∈ extensions a n, t.isSpelled = true := by
  induction n with
  | zero => simpa [extensions, Token.isSpelled] using ha
  | succ n ih =>
    refine List.forall_mem_cons.2 ⟨rfl, List.forall_mem_cons.2 ⟨rfl, fun t ht => ?_⟩⟩
    rcases List.mem_append.1 ht with ht | ht
    · exact ih t ht
    · obtain rfl | rfl : t = .punct .leftBrace ∨ t = .punct .rightBrace := by simpa using ht
      · rfl
      · rfl

end Grammar

/-- A text is read as a module with a chain of `n` expressions, each the next one by `R`. -/
def Module.Reaches (R : Expr → Expr → Prop) (n : Nat) (source : String) : Prop :=
  ∃ m e, Module.ofSource source = .ok m ∧ m.Has (.expr e) ∧ e.Deep R n

namespace Module

open Grammar

theorem reaches_instantiations {a : String} (ha : Scan.isName a = true) (n : Nat) :
    Reaches Expr.Calls (n + 1)
      (Token.print (.keyword .kwThrow :: instantiations a (n + 1) ++ [.punct .semicolon])) := by
  have hlength : n ≤ (instantiations a n).length := by
    induction n with
    | zero => exact Nat.zero_le _
    | succ n ih => exact Nat.succ_le_succ ih
  refine ofSource_of_throw (isSpelled_instantiations ha (n + 1)) fun m hm => ?_
  refine takes_expressionOf_chain (by decide) (.inl rfl) ⟨rfl, rfl⟩ (fun c hc => ?_)
    (takes_leftHandSideOf (.inl (.inl rfl)) ?_)
  · rw [atArrow, Cursor.token_of_upcoming hc]
  · refine (takes_atKeyword _).bind fun found hfound => ?_
    rw [hfound]
    exact takes_instantiationOf (.inl (.inl rfl)) (Nat.le_trans hlength hm)

theorem reaches_powers {a : String} (ha : Scan.isName a = true) (n : Nat) :
    Reaches Expr.Raises (n + 1)
      (Token.print (.keyword .kwThrow :: powers a (n + 1) ++ [.punct .semicolon])) := by
  have hlength : n ≤ (powers a n).length := by
    induction n with
    | zero => exact Nat.zero_le _
    | succ n ih => exact Nat.le_succ_of_le (Nat.succ_le_succ ih)
  refine ofSource_of_throw (isSpelled_powers ha (n + 1)) fun m hm => ?_
  refine takes_expressionOf (by decide) (.inl rfl) (fun c hc => atArrow_of_upcoming hc rfl) ?_
  exact takes_infixesOf_powers (.inl rfl) (Nat.le_trans (Nat.succ_le_succ hlength) hm) (by decide)

theorem reaches_extensions {a : String} (ha : Scan.isName a = true) (n : Nat) :
    Reaches Expr.Extends (n + 1)
      (Token.print (.keyword .kwThrow :: extensions a (n + 1) ++ [.punct .semicolon])) := by
  have hlength : ∀ k, k + 1 ≤ (extensions a k).length := by
    intro k
    induction k with
    | zero => exact Nat.le_refl _
    | succ k ih =>
      simp only [extensions, List.length_append, List.length_cons]
      omega
  refine ofSource_of_throw (isSpelled_extensions ha (n + 1)) fun m hm => ?_
  have hm : n + 1 ≤ m := Nat.le_trans (Nat.le_of_succ_le_succ (hlength (n + 1))) hm
  have hchain : Takes 2 (extensions a (n + 1) ++ [.punct .semicolon, .eof]) [.punct .semicolon, .eof]
      (Expr.Deep Expr.Extends (n + 1)) (leftHandSideOf (levels m)) :=
    takes_leftHandSideOf_extensions (.inl (.inl rfl)) hm
  refine takes_expressionOf_chain (by decide) (.inl rfl) ⟨rfl, rfl⟩ (fun c hc => ?_) hchain
  rw [atArrow, Cursor.token_of_upcoming hc]

theorem reaches_templates (n : Nat) :
    Reaches Expr.Substitutes n
      (String.ofList ("throw ".toList ++ (Scan.templates n ++ " ;".toList))) := by
  obtain ⟨t, s₁, s₂, s₃, s₄, ht, hscans⟩ := Scan.scans_throw_templates n
  have hread : Takes 1 [t, .punct .semicolon, .eof] [.punct .semicolon, .eof]
      (Expr.Deep Expr.Substitutes n) (expressionOf (levels (Lexeme.weights
        [(.keyword .kwThrow, s₁), (t, s₂), (.punct .semicolon, s₃), (.eof, s₄)]))) := by
    refine takes_expressionOf_templates ht (by decide) (.inl rfl) ?_
    have hweight := ht.le_weight
    simp only [Lexeme.weights]
    omega
  obtain ⟨m, e, hm, hhas, he⟩ := @ofTokens_of_throw [] t _ _ rfl hread
  refine ⟨m, e, ofSource_eq_ok ?_ hm, hhas, he⟩
  rwa [String.toList_ofList]

end Module

/--
With one level more than the limit, chains of `new`, of `**`, of classes that extend classes and of
templates in templates are read.
-/
theorem nesting_exceeds_limit :
    Module.Reaches Expr.Calls 97
      (Token.print (.keyword .kwThrow :: Grammar.instantiations "a" 97 ++ [.punct .semicolon])) ∧
    Module.Reaches Expr.Raises 97
      (Token.print (.keyword .kwThrow :: Grammar.powers "a" 97 ++ [.punct .semicolon])) ∧
    Module.Reaches Expr.Extends 97
      (Token.print (.keyword .kwThrow :: Grammar.extensions "a" 97 ++ [.punct .semicolon])) ∧
    Module.Reaches Expr.Substitutes 97
      (String.ofList ("throw ".toList ++ (Scan.templates 97 ++ " ;".toList))) ∧
    nestingLimit < 97 :=
  ⟨Module.reaches_instantiations rfl 96, Module.reaches_powers rfl 96,
    Module.reaches_extensions rfl 96, Module.reaches_templates 97, by decide⟩

end Typings
