import Typings.Proofs.Eval.Chain
import Typings.Proofs.Syntax.Grouping

namespace Typings

open Parse

namespace EvalM

variable {m : Machine} {scope : Nat} {given : Option String} {e base p : Expr} {s s' : Store}

/-- Whatever it gives is a value, and not the end of a chain. -/
def Finds (x : EvalM Link) : Prop := ∀ s, (x s).1 ≠ .ok .skipped

theorem Finds.found {receiver v : Value} : Finds (pure (.found receiver v)) := nofun

theorem Finds.fail {f : Fault} : Finds (EvalM.fail f) := nofun

theorem Finds.bind {α : Type} {x : EvalM α} {f : α → EvalM Link} (hf : ∀ a, Finds (f a)) :
    Finds (x >>= f) := by
  intro s h
  obtain ⟨a, s₁, -, hrun⟩ := bind_run_ok (Prod.ext h rfl)
  exact hf a s₁ (congrArg Prod.fst hrun)

theorem Finds.holding {x : EvalM Link} (hx : Finds x) (vs : List Value) :
    Finds (EvalM.holding vs x) := fun s => hx { s with held := vs :: s.held }

theorem finds_writeLink (place : Place) (v : Value) : Finds (writeLink m scope place v) :=
  .bind fun _ => .found

theorem finds_superGet (key : String) : Finds (superGet m scope key) := by
  refine .bind fun s => ?_
  split
  · exact .fail
  refine .bind fun this => ?_
  split
  · exact .bind fun _ => .found
  · refine Finds.holding ?_ _
    split
    · exact .bind fun _ => .found
    · exact .bind fun _ => .found
  · exact .found

theorem finds_assignLink {op : AssignOp} {name : Option String} {value : Option String → EvalM Link}
    (place : Place) : Finds (assignLink m scope op name value place) := by
  cases op with
  | assign => exact .bind fun _ => finds_writeLink place _
  | compound op => exact .bind fun _ => .bind fun _ => .bind fun _ => finds_writeLink place _
  | logical op =>
    rw [assignLink]
    refine .bind fun current => ?_
    split
    · exact .found
    · exact .bind fun _ => finds_writeLink place _

theorem finds_typeofLink {name? : Option String} {operand : EvalM Link} :
    Finds (typeofLink scope name? operand) := by
  have hoperator : Finds (operatorLink .typeof operand) := .bind fun _ => .bind fun _ => .found
  cases name? with
  | none => exact hoperator
  | some n =>
    refine .bind fun found => ?_
    split
    · exact .found
    · exact hoperator

/-- Only a link of a chain can end it. -/
theorem finds_link_of_base?_eq_none (h : e.base? = none) : Finds (link m scope given e) := by
  cases e with
  | member | index | call => cases h
  | number | string | boolean | null => rw [link]; exact .found
  | template | identifier | this | function | classOf | sequence =>
    rw [link]
    exact .bind fun _ => .found
  | array | object | superCall =>
    rw [link]
    exact .bind fun _ => .bind fun _ => .found
  | superMember key =>
    rw [link]
    exact finds_superGet key
  | new | binary =>
    rw [link]
    exact .bind fun _ => .bind fun _ => .bind fun _ => .found
  | unary op operand =>
    cases op with
    | typeof =>
      rw [link]
      exact finds_typeofLink
    | delete =>
      rw [link]
      exact .bind fun _ => .found
    | _ =>
      rw [link]
      · exact .bind fun _ => .bind fun _ => .found
      · nofun
      · nofun
  | update =>
    rw [link]
    exact .bind fun _ => .bind fun _ => .bind fun _ => .bind fun _ => .found
  | logical =>
    rw [link]
    refine .bind fun a => ?_
    split
    · exact .found
    · exact .bind fun _ => .found
  | conditional =>
    rw [link]
    refine .bind fun test => ?_
    split
    · exact .bind fun _ => .found
    · exact .bind fun _ => .found
  | assign =>
    rw [link]
    exact .bind fun place => finds_assignLink place

theorem finds_linkOn_demanding {receiver v : Value} (h : e.base? = some base) :
    Finds (linkOn m scope e.demanding (.found receiver v)) := by
  cases e with
  | member | index => exact .bind fun _ => .bind fun _ => .found
  | call =>
    rw [Expr.demanding, linkOn, callLink, Bool.false_and, if_neg Bool.false_ne_true]
    split
    · exact .bind fun _ => .bind fun _ => .found
    · exact .bind fun _ => .bind fun _ => .bind fun _ => .found
  | _ => cases h

/-- A chain has ended if one of its optional links has come to stand on nothing. -/
theorem link_eq_skipped_iff : link m scope given e s = (.ok .skipped, s') ↔
    ∃ p, p.Starts e ∧ m.MeetsNothing scope p s s' := by
  refine ⟨fun h => ?_, fun ⟨p, hp, hmeets⟩ => link_skipped hp hmeets⟩
  have hlink : ∀ {e base : Expr} {given}, e.base? = some base →
      (link m scope none base s = (.ok .skipped, s') →
        ∃ p, p.Starts base ∧ m.MeetsNothing scope p s s') →
      link m scope given e s = (.ok .skipped, s') →
      ∃ p, p.Starts e ∧ m.MeetsNothing scope p s s' := by
    intro e base given hbase ih h
    rw [link_of_base hbase] at h
    obtain ⟨found, s₁, hrun, h⟩ := bind_run_ok h
    cases found with
    | skipped =>
      rw [linkOn_skipped] at h
      cases h
      obtain ⟨p, hp, hmeets⟩ := ih hrun
      exact ⟨p, .link hbase hp, hmeets⟩
    | found receiver v =>
      rw [linkOn_found hbase] at h
      split at h
      · rename_i hnothing
        cases h
        rw [Bool.and_eq_true] at hnothing
        exact ⟨e, .here, hnothing.1, base, receiver, v, hbase, hrun, hnothing.2⟩
      · exact absurd (congrArg Prod.fst h) (finds_linkOn_demanding hbase s₁)
  fun_induction Expr.demanding e generalizing given with
  | case1 object key optional span ih | case2 object key optional span ih
  | case3 object key optional span ih => exact hlink rfl ih h
  | case4 e hmember hindex hcall =>
    have hnone : e.base? = none := by
      cases e with
      | member => exact (hmember _ _ _ _ rfl).elim
      | index => exact (hindex _ _ _ _ rfl).elim
      | call => exact (hcall _ _ _ _ rfl).elim
      | _ => rfl
    exact absurd (congrArg Prod.fst h) (finds_link_of_base?_eq_none hnone s)

theorem link_member_of_nullish {receiver v : Value} {key : String} {span : Span}
    (h : link m scope none e s = (.ok (.found receiver v), s')) (hv : v.isNullish = true) :
    link m scope given (.member e key false span) s =
      (.error (.fault (.readOf (s'.text v) key)), s') := by
  rw [link_of_base rfl, bind_ok h]
  cases v <;> cases hv <;> rfl

theorem eval_member_of_ended {key : String} {span : Span}
    (h : ∃ p, p.Starts e ∧ m.MeetsNothing scope p s s') :
    eval m scope (.member e key false span) s = (.ok .undefined, s') := by
  obtain ⟨p, hp, hmeets⟩ := h
  rw [eval, valueOf, bind_ok (link_skipped (.link rfl hp) hmeets)]
  rfl

theorem eval_member_of_nullish {v : Value} {key : String} {span : Span}
    (h : eval m scope e s = (.ok v, s')) (hv : v.isNullish = true)
    (hgoes : ¬ ∃ p, p.Starts e ∧ m.MeetsNothing scope p s s') :
    eval m scope (.member e key false span) s =
      (.error (.fault (.readOf (s'.text v) key)), s') := by
  obtain ⟨found, s₁, hrun, hvalue⟩ := bind_run_ok h
  cases hvalue
  cases found with
  | skipped => exact absurd (link_eq_skipped_iff.1 hrun) hgoes
  | found receiver v =>
    rw [eval, valueOf]
    exact bind_error (link_member_of_nullish hrun hv)

end EvalM

namespace Grammar

variable {g : Grammar} {c c₁ c₂ : Cursor} {e : Expr} {name : String}

/-- From `c` to `c₂` stand an expression in parentheses, which is no arrow function, a point and a
name. -/
structure GroupMember (g : Grammar) (c : Cursor) (e : Expr) (name : String) (c₂ : Cursor) :
    Prop where
  opening : c.token = .punct .leftParen
  isGroup : atArrow c = false
  inside : ∃ c₁, g.expression c.step = (.ok e, c₁) ∧ c₁.token = .punct .rightParen ∧
    c₁.step.token = .punct .dot ∧ propertyName c₁.step.step = (.ok name, c₂)

theorem primary_of_group (hopening : c.token = .punct .leftParen)
    (hinside : g.expression c.step = (.ok e, c₁)) (hclosing : c₁.token = .punct .rightParen) :
    primary g c = (.ok e, c₁.step) := by
  have hcurrent : current c = (.ok (.punct .leftParen), c) := by rw [← hopening]; rfl
  have hadvance : advance c = (.ok (), c.step) := rfl
  have hexpect : expect .rightParen c₁ = (.ok (), c₁.step) :=
    expect_eq_ok (by rw [hclosing]; rfl)
  have hhere : here c = (.ok c.span, c) := rfl
  rw [primary, bind_ok hhere, bind_ok hcurrent]
  exact (bind_ok hadvance).trans ((bind_ok hinside).trans (bind_ok hexpect))

theorem leftHandSideOf_of_group (h : g.GroupMember c e name c₂) (hend : c₂.token = .eof) :
    leftHandSideOf g c = (.ok (.member e name false (c.span.through c₂.previousSpan)), c₂) := by
  obtain ⟨hopening, -, c₁, hinside, hclosing, hdot, hname⟩ := h
  have hhere : ∀ c, here c = (.ok c.span, c) := fun _ => rfl
  have hnew : atKeyword .kwNew c = (.ok false, c) := by
    change ((.ok (c.token.isWord .kwNew), c) : Except _ _ × _) = _
    rw [hopening]
    rfl
  have hhead : chainHead g c = (.ok e, c₁.step) := by
    rw [chainHead, bind_ok hnew]
    exact primary_of_group hopening hinside hclosing
  have hcurrent : current c₁.step = (.ok (.punct .dot), c₁.step) := by rw [← hdot]; rfl
  have hadvance : advance c₁.step = (.ok (), c₁.step.step) := rfl
  have hlink : chainLink g c.span e c₁.step =
      (.ok (.inl (.member e name false (c.span.through c₂.previousSpan))), c₂) := by
    rw [chainLink, bind_ok hcurrent]
    exact (bind_ok hadvance).trans (bind_ok hname)
  have hcurrent' : current c₂ = (.ok .eof, c₂) := by rw [← hend]; rfl
  have hlast : ∀ e', chainLink g c.span e' c₂ = (.ok (.inr e'), c₂) := fun e' => by
    rw [chainLink, bind_ok hcurrent']
    rfl
  rw [leftHandSideOf, bind_ok (hhere c), bind_ok hhead]
  have hget : (get : Parse Cursor) c₁.step = (.ok c₁.step, c₁.step) := rfl
  have hpos := c₁.step.pos_lt
  obtain ⟨k, hk⟩ : ∃ k, c₁.step.remaining = k + 1 := ⟨c₁.step.remaining - 1, by
    unfold Cursor.remaining; omega⟩
  rw [loop, bind_ok hget, hk, repeated, bind_ok hlink]
  exact bind_ok (hlast _)

/-- A chain that begins with a parenthesis and goes to the end is all of the expression. -/
theorem expressionOf_of_leftHandSideOf (hopening : c.token = .punct .leftParen)
    (hgroup : atArrow c.deeper = false) (hdepth : c.depth < nestingLimit)
    (h : leftHandSideOf g c.deeper = (.ok e, c₂)) (hend : c₂.token = .eof) :
    expressionOf g c = (.ok e, c₂.shallower) := by
  have hhere : ∀ c, here c = (.ok c.span, c) := fun _ => rfl
  have hget : ∀ c : Cursor, (get : Parse Cursor) c = (.ok c, c) := fun _ => rfl
  have hcurrent : ∀ c : Cursor, current c = (.ok c.token, c) := fun _ => rfl
  have hopening' : c.deeper.token = .punct .leftParen := hopening
  have hpostfix : postfixOf g c.deeper = (.ok e, c₂) := by
    rw [postfixOf, bind_ok (hhere _), bind_ok h, bind_ok (hget _), hend]
    rfl
  have hunary : unaryOf g c.deeper = (.ok e, c₂) := by
    rw [unaryOf, bind_ok (hhere _), bind_ok (hcurrent _), hopening']
    exact hpostfix
  have hlink : infixLink g c.deeper.span 0 e c₂ = (.ok (.inr e), c₂) := by
    rw [infixLink, bind_ok (hcurrent _), hend]
    rfl
  have hinfixes : infixesOf g 0 c.deeper = (.ok e, c₂) := by
    rw [infixesOf, bind_ok (hhere _), bind_ok hunary]
    rw [loop, bind_ok (hget _), repeated]
    exact bind_ok hlink
  have hquestion : eat .question c₂ = (.ok false, c₂) := by
    rw [eat_run, hend]
    rfl
  have hconditional : conditionalOf g c.deeper = (.ok e, c₂) := by
    rw [conditionalOf, bind_ok (hhere _), bind_ok hinfixes]
    exact bind_ok hquestion
  have hassignment : assignmentOf g c = (.ok e, c₂.shallower) := by
    have hnone : AssignOp.ofToken? c₂.token = none := by rw [hend]; rfl
    rw [assignmentOf, nested, if_neg (Nat.not_le.2 hdepth), bind_ok (hget _), hgroup,
      if_neg Bool.false_ne_true, bind_ok hconditional, bind_ok (hcurrent _), hnone]
    rfl
  have hcomma : atPunct .comma c₂.shallower = (.ok false, c₂.shallower) := by
    change ((.ok (c₂.token.isPunct .comma), _) : Except _ _ × _) = _
    rw [hend]
    rfl
  rw [expressionOf, bind_ok (hhere _), bind_ok hassignment]
  exact bind_ok hcomma

end Grammar

theorem Expr.ofTokens_of_group {ts : List Lexeme} {e : Expr} {name : String} {c₂ : Cursor}
    (h : (Grammar.for ts).GroupMember (Cursor.ofTokens ts).deeper e name c₂)
    (hend : c₂.token = .eof) : Expr.ofTokens ts =
      .ok (.member e name false ((Cursor.ofTokens ts).span.through c₂.previousSpan)) := by
  have hread := Grammar.expressionOf_of_leftHandSideOf (c := Cursor.ofTokens ts)
    h.opening h.isGroup (by decide : 0 < nestingLimit) (Grammar.leftHandSideOf_of_group h hend) hend
  have hget : (get : Parse Cursor) c₂.shallower = (.ok c₂.shallower, c₂.shallower) := rfl
  have hatEnd : c₂.shallower.atEnd = true := by
    change c₂.token.isEof = true
    rw [hend]
    rfl
  rw [Expr.ofTokens, Grammar.wholeOf, bind_ok hread, bind_ok hget, hatEnd]
  rfl

/--
An expression in parentheses, a point and a name. If the expression comes to nothing, then reading
the property fails as it does for a name with that value, unless the expression is a chain that
ended because an optional link of it stood on nothing: then the property is not read, and the whole
is undefined.
-/
theorem member_of_group {ts : List Lexeme} {e : Expr} {name : String} {c₂ : Cursor}
    (h : (Grammar.for ts).GroupMember (Cursor.ofTokens ts).deeper e name c₂)
    (hend : c₂.token = .eof) :
    ∃ whole, Expr.ofTokens ts = .ok whole ∧
      ∀ (m : Machine) (scope : Nat) (s s' : Store) (v : Value),
        EvalM.eval m scope e s = (.ok v, s') → v.isNullish = true →
        ((∃ p, p.Starts e ∧ m.MeetsNothing scope p s s') →
          EvalM.eval m scope whole s = (.ok .undefined, s')) ∧
        ((¬ ∃ p, p.Starts e ∧ m.MeetsNothing scope p s s') →
          ∃ f : Fault, f.kind = .type ∧ EvalM.eval m scope whole s = (.error (.fault f), s') ∧
            ∀ x span span', EvalM.eval m scope (.identifier x span) s' = (.ok v, s') →
              EvalM.eval m scope (.member (.identifier x span) name false span') s' =
                (.error (.fault f), s')) := by
  refine ⟨_, Expr.ofTokens_of_group h hend, fun m scope s s' v hv hnull =>
    ⟨fun hended => ?_, fun hgoes => ?_⟩⟩
  · exact EvalM.eval_member_of_ended hended
  · refine ⟨.readOf (s'.text v) name, rfl, EvalM.eval_member_of_nullish hv hnull hgoes, ?_⟩
    intro x span span' hname
    refine EvalM.eval_member_of_nullish hname hnull ?_
    rintro ⟨p, hp, hoptional, -⟩
    cases hp with
    | here => cases hoptional
    | link hbase => cases hbase

/-- `"a"?.b`, as it stands in the next text. -/
def Expr.textLink : Expr := .member (.string "a" ⟨1, 4, 1, 2⟩) "b" true ⟨1, 7, 1, 2⟩

/-- `("a"?.b).c` -/
def Lexeme.textLinkGroup : List Lexeme :=
  [(.punct .leftParen, ⟨0, 1, 1, 1⟩), (.string "a", ⟨1, 4, 1, 2⟩),
    (.punct .questionDot, ⟨4, 6, 1, 5⟩), (.identifier "b", ⟨6, 7, 1, 7⟩),
    (.punct .rightParen, ⟨7, 8, 1, 8⟩), (.punct .dot, ⟨8, 9, 1, 9⟩),
    (.identifier "c", ⟨9, 10, 1, 10⟩), (.eof, ⟨10, 10, 1, 11⟩)]

/-- The optional link stands on a text, which has no such property. -/
theorem member_of_group_textLink :
    ∃ c₂ : Cursor, (Grammar.for Lexeme.textLinkGroup).GroupMember
        (Cursor.ofTokens Lexeme.textLinkGroup).deeper .textLink "c" c₂ ∧
      c₂.token = .eof ∧ EvalM.eval .full 0 .textLink {} = (.ok .undefined, {}) ∧
      (¬ ∃ p, p.Starts .textLink ∧ Machine.full.MeetsNothing 0 p {} {}) ∧
      ∃ whole, Expr.ofTokens Lexeme.textLinkGroup = .ok whole ∧
        ∃ f : Fault, f.kind = .type ∧ EvalM.eval .full 0 whole {} = (.error (.fault f), {}) := by
  let c₁ : Cursor := { (Cursor.ofTokens Lexeme.textLinkGroup).moveTo 4 with depth := 1, deepest := 2 }
  have hgroup : (Grammar.for Lexeme.textLinkGroup).GroupMember
      (Cursor.ofTokens Lexeme.textLinkGroup).deeper .textLink "c" c₁.step.step.step :=
    ⟨rfl, rfl, c₁, rfl, rfl, rfl, rfl⟩
  have hend : c₁.step.step.step.token = .eof := rfl
  have hrun : EvalM.eval .full 0 .textLink {} = (.ok .undefined, {}) := rfl
  have hgoes : ¬ ∃ p, p.Starts .textLink ∧ Machine.full.MeetsNothing 0 p {} {} := by
    intro h
    have hskipped : EvalM.link .full 0 none .textLink {} = (.ok .skipped, {}) :=
      EvalM.link_eq_skipped_iff.2 h
    cases hskipped
  obtain ⟨whole, hwhole, heval⟩ := member_of_group hgroup hend
  obtain ⟨f, hf, hfails, -⟩ := (heval .full 0 {} {} .undefined hrun rfl).2 hgoes
  exact ⟨_, hgroup, hend, hrun, hgoes, whole, hwhole, f, hf, hfails⟩

/-- The chain `null?.b` goes on behind parentheses: `(null?.b).c` is undefined as well. -/
theorem group_goes_on :
    ¬ ∀ (source name : String) (e whole : Expr) (s s' : Store) (v : Value),
      Expr.ofSource source = .ok e → Expr.ofSource ("(" ++ source ++ ")." ++ name) = .ok whole →
      EvalM.eval .full 0 e s = (.ok v, s') → v.isNullish = true →
      ∃ f : Fault, f.kind = .type ∧ EvalM.eval .full 0 whole s = (.error (.fault f), s') := by
  intro hfails
  have hok {ε α : Type} {x : Except ε α} {a : α} (h : x.toOption = some a) : x = .ok a := by
    cases x with
    | error => cases h
    | ok => exact congrArg _ (Option.some.inj h)
  let ends := fun e => (EvalM.eval .full 0 e {}).1.toOption.map Value.isNullish
  have hends {source : String} (h : (Expr.ofSource source).toOption.bind ends = some true) :
      ∃ e v s, Expr.ofSource source = .ok e ∧ EvalM.eval .full 0 e {} = (.ok v, s) ∧
        v.isNullish = true := by
    obtain ⟨e, he, h⟩ := Option.bind_eq_some_iff.1 h
    obtain ⟨v, hv, hnull⟩ := Option.map_eq_some_iff.1 h
    exact ⟨e, v, _, hok he, Prod.ext (hok hv) rfl, hnull⟩
  have hchain : (Expr.ofSource "null?.b").toOption.bind ends = some true := by decide +kernel
  have hwhole : (Expr.ofSource ("(" ++ "null?.b" ++ ")." ++ "c")).toOption.bind ends = some true := by
    decide +kernel
  obtain ⟨e, v, s, he, hv, hnull⟩ := hends hchain
  obtain ⟨whole, v', s', hwhole, hv', -⟩ := hends hwhole
  obtain ⟨f, -, hrun⟩ := hfails _ _ e whole {} s v he hwhole hv hnull
  cases hv'.symm.trans hrun

end Typings
