import Typings.Proofs.Syntax.Depth

namespace Typings

open Parse

namespace Grammar

/-- The readings of expressions, functions, classes, statements, imports and exports. -/
inductive Production (g : Grammar) : {α : Type} → Parse α → Prop
  | expression : g.Production (expressionOf g)
  | assignment : g.Production (assignmentOf g)
  | conditional : g.Production (conditionalOf g)
  | infixes (least : Nat) : g.Production (infixesOf g least)
  | unary : g.Production (unaryOf g)
  | behind : g.Production (postfixOf g)
  | leftHandSide : g.Production (leftHandSideOf g)
  | instantiation : g.Production (instantiationOf g)
  | primary : g.Production (primary g)
  | arguments : g.Production (arguments g)
  | array : g.Production (array g)
  | object : g.Production (object g)
  | propertyKey : g.Production (propertyKey g)
  | arrow : g.Production (arrow g)
  | params : g.Production (params g)
  | functionTail (name : Option String) (start : Span) : g.Production (functionTail g name start)
  | function : g.Production (function g)
  | classDef : g.Production (classDef g)
  | statement : g.Production (statementOf g)
  | statementBody : g.Production (statementBody g)
  | skipStatement : g.Production (skipStatement g)
  | declaration (kind : VariableKind) : g.Production (declaration g kind)
  | branch : g.Production (branch g)
  | importDecl : g.Production importDecl
  | importSource (decl : ImportDecl) : g.Production (importSource decl)
  | exportItem : g.Production (exportItem g)
  | moduleItem : g.Production (moduleItem g)

theorem Production.neutral {g : Grammar} (hg : g.Restoring) {α : Type} {x : Parse α}
    (hx : g.Production x) (b : Nat) : Neutral b x := by
  cases hx with
  | expression => exact (restores_expressionOf hg).neutral
  | assignment => exact (restores_assignmentOf hg).neutral
  | conditional => exact (restores_conditionalOf hg).neutral
  | infixes least => exact (restores_infixesOf hg least).neutral
  | unary => exact (restores_unaryOf hg).neutral
  | behind => exact (restores_postfixOf hg).neutral
  | leftHandSide => exact (restores_leftHandSideOf hg).neutral
  | instantiation => exact (restores_instantiationOf hg).neutral
  | primary => exact (restores_primary hg).neutral
  | arguments => exact (restores_arguments hg).neutral
  | array => exact (restores_array hg).neutral
  | object => exact (restores_object hg).neutral
  | propertyKey => exact (restores_propertyKey hg).neutral
  | arrow => exact (restores_arrow hg).neutral
  | params => exact (restores_params hg).neutral
  | functionTail name start => exact (restores_functionTail hg name start).neutral
  | function => exact (restores_function hg).neutral
  | classDef => exact (restores_classDef hg).neutral
  | statement => exact (restores_statementOf hg).neutral
  | statementBody => exact (restores_statementBody hg).neutral
  | skipStatement => exact neutral_skipStatement hg
  | declaration kind => exact (restores_declaration hg kind).neutral
  | branch => exact (restores_branch hg).neutral
  | importDecl => exact neutral_importDecl
  | importSource decl => exact neutral_importSource decl
  | exportItem => exact (restores_exportItem hg).neutral
  | moduleItem => exact (restores_moduleItem hg).neutral

/--
How a module is read: each item from a cursor with `P`, and behind an error from where the next
statement probably begins, until the tokens end.
-/
inductive ModuleRun (g : Grammar) (P : Cursor → Prop) :
    Cursor → List ModuleItem → List ParseError → Cursor → Prop
  | done {c : Cursor} (hend : c.atEnd = true) : ModuleRun g P c [] [] c
  | item {c c₁ c' : Cursor} {i : ModuleItem} {items : List ModuleItem} {errors : List ParseError}
      (hend : c.atEnd = false) (hc : P c) (hitem : g.moduleItem c = (.ok i, c₁))
      (hrest : ModuleRun g P c₁ items errors c') : ModuleRun g P c (i :: items) errors c'
  | error {c c₁ c₂ c' : Cursor} {e : ParseError} {items : List ModuleItem}
      {errors : List ParseError} (hend : c.atEnd = false) (hc : P c)
      (herror : g.moduleItem c = (.error e, c₁)) (hresync : resync c₁ = (.ok ⟨⟩, c₂))
      (hrest : ModuleRun g P c₂ items errors c') : ModuleRun g P c items (e :: errors) c'

end Grammar

/-- With no nesting open, a module item is read as from a cursor just made for the tokens. -/
structure Cursor.Fresh (g : Grammar) (ts : List Lexeme) (c : Cursor) : Prop where
  depth : c.depth = 0
  result : (g.moduleItem c).1 = (g.moduleItem ((Cursor.ofTokens ts).moveTo c.pos)).1
  ending : (g.moduleItem c).2.Twin (g.moduleItem ((Cursor.ofTokens ts).moveTo c.pos)).2

theorem Cursor.fresh_of_depth {g : Grammar} (hg : g.Restoring) {ts : List Lexeme} {c : Cursor}
    (htokens : c.tokens = (Cursor.ofTokens ts).tokens) (hdepth : c.depth = 0) : c.Fresh g ts := by
  have htwin : c.Twin ((Cursor.ofTokens ts).moveTo c.pos) := by
    refine ⟨⟨htokens.symm, ?_⟩, hdepth⟩
    have hpos := c.pos_lt
    show min c.pos ((Cursor.ofTokens ts).tokens.size - 1) = c.pos
    rw [← htokens]
    omega
  obtain ⟨hresult, hending⟩ := ((Grammar.restores_moduleItem hg).agrees (b := nestingLimit)
    (by rw [hdepth, Nat.zero_add]) htwin).of_zero
  exact ⟨hdepth, hresult.symm, hending⟩

namespace Parse

variable {b n : Nat} {g : Grammar}

theorem neutral_resync : Neutral b resync := by
  refine .get (fun c => restores_loop (I := fun _ => True) (fun _ _ => ?_) trivial) fun _ _ _ _ => rfl
  refine .get (fun c => ?_) fun _ _ _ _ => rfl
  split
  · exact .pure trivial
  split
  · exact neutral_advance.bind fun _ => .pure trivial
  split
  · exact .pure trivial
  · exact neutral_advance.bind fun _ => .pure trivial

theorem fault_of_repeated {σ β : Type} {step : σ → Parse (σ ⊕ β)}
    (hstep : ∀ s c, ∃ r c', step s c = (.ok r, c')) {fuel : Nat} {s : σ} {c c' : Cursor}
    {e : ParseError} (h : repeated step fuel s c = (.error e, c')) : e.fault = .exhausted := by
  induction fuel generalizing s c with
  | zero =>
    cases h
    rfl
  | succ fuel ih =>
    obtain ⟨r, c₁, hrun⟩ := hstep s c
    rw [repeated, bind_ok hrun] at h
    cases r with
    | inl s' => exact ih h
    | inr a => cases h

theorem resyncStep_ok (start : Nat) (s : Unit) (c : Cursor) :
    ∃ r c', resyncStep start s c = (.ok r, c') := by
  have hget : (get : Parse Cursor) c = (.ok c, c) := rfl
  rw [resyncStep, bind_ok hget]
  split
  · exact ⟨_, _, rfl⟩
  split
  · exact ⟨_, _, rfl⟩
  split
  · exact ⟨_, _, rfl⟩
  · exact ⟨_, _, rfl⟩

theorem resync_ok (c : Cursor) : ∃ c', resync c = (.ok ⟨⟩, c') := by
  have hends := (resync_reads c).ends
  rcases hrun : resync c with ⟨e | _, c'⟩
  · rw [hrun] at hends
    have hloop : repeated (resyncStep c.pos) (c.remaining + 1) () c = (.error e, c') := hrun
    exact absurd (fault_of_repeated (resyncStep_ok c.pos) hloop) hends
  · exact ⟨c', rfl⟩

theorem repeated_moduleStep_run (hsound : g.Sound n) (hg : g.Restoring) {ts : List Lexeme} :
    ∀ fuel acc (c : Cursor), c.remaining < fuel → c.rest ≤ n + 1 →
      c.tokens = (Cursor.ofTokens ts).tokens → c.depth = 0 →
      (∀ e ∈ acc.2, e.fault ≠ .exhausted) →
      ∃ items errors c', repeated (moduleStep g) fuel acc c =
          (.ok (acc.1.reverse ++ items, acc.2.reverse ++ errors), c') ∧
        g.ModuleRun (Cursor.Fresh g ts) c items errors c' := by
  intro fuel
  induction fuel with
  | zero =>
    intro acc c hfuel
    omega
  | succ fuel ih =>
    intro acc c hfuel hrest htokens hdepth hacc
    have hfresh := Cursor.fresh_of_depth hg htokens hdepth
    have hlimit : c.depth + nestingLimit = nestingLimit := by rw [hdepth, Nat.zero_add]
    have hitemdepth := ((Grammar.restores_moduleItem hg).resumes hlimit).depth
    -- an item and an error both pass a token, and both leave no nesting open
    have hnext : ∀ acc' c₁, moduleStep g acc c = (.ok (.inl acc'), c₁) → c₁.depth = 0 →
        ∃ items errors c', repeated (moduleStep g) (fuel + 1) acc c =
            (.ok (acc'.1.reverse ++ items, acc'.2.reverse ++ errors), c') ∧
          g.ModuleRun (Cursor.Fresh g ts) c₁ items errors c' := by
      intro acc' c₁ hstep hdepth₁
      obtain ⟨hleads, hends⟩ := moduleStep_reads hsound hrest hacc
      rw [hstep] at hleads hends
      have hfuel₁ : c₁.remaining < fuel :=
        Nat.lt_of_lt_of_le (hleads.remaining_lt hends.1) (Nat.le_of_lt_succ hfuel)
      rw [repeated, bind_ok hstep]
      exact ih acc' c₁ hfuel₁ (hleads.rest_le hrest) (hleads.tokens.trans htokens) hdepth₁ hends.2
    cases hend : c.atEnd with
    | true =>
      refine ⟨[], [], c, ?_, .done hend⟩
      rw [repeated, bind_ok (moduleStep_atEnd hend), List.append_nil, List.append_nil]
      rfl
    | false =>
      rcases hitem : g.moduleItem c with ⟨e | i, c₁⟩
      · rw [hitem] at hitemdepth
        obtain ⟨c₂, hresync⟩ := resync_ok c₁
        have hresyncdepth := (neutral_resync.resumes (c := c₁) (hitemdepth ▸ hlimit)).depth
        rw [hresync] at hresyncdepth
        have hstep : moduleStep g acc c = (.ok (.inl (acc.1, e :: acc.2)), c₂) := by
          rw [moduleStep_error hend hitem, bind_ok hresync]
          rfl
        obtain ⟨items, errors, c', hrun, hmodule⟩ := hnext _ _ hstep
          (hresyncdepth.trans (hitemdepth.trans hdepth))
        refine ⟨items, e :: errors, c', ?_, .error hend hfresh hitem hresync hmodule⟩
        rw [hrun, List.reverse_cons, List.append_assoc]
        rfl
      · rw [hitem] at hitemdepth
        obtain ⟨items, errors, c', hrun, hmodule⟩ := hnext _ _ (moduleStep_item hend hitem)
          (hitemdepth.trans hdepth)
        refine ⟨i :: items, errors, c', ?_, .item hend hfresh hitem hmodule⟩
        rw [hrun, List.reverse_cons, List.append_assoc]
        rfl

theorem wholeModule_run (ts : List Lexeme) :
    ∃ items errors c', wholeModule (Grammar.for ts) (Cursor.ofTokens ts) =
        (.ok (items, errors, (Cursor.ofTokens ts).span.through c'.span), c') ∧
      (Grammar.for ts).ModuleRun (Cursor.Fresh (Grammar.for ts) ts) (Cursor.ofTokens ts)
        items errors c' := by
  obtain ⟨items, errors, c', hrun, hmodule⟩ := repeated_moduleStep_run (Grammar.for_sound ts)
    (Grammar.levels_restoring _) _ ([], []) (Cursor.ofTokens ts) (Nat.lt_succ_self _)
    (Nat.le_succ_of_le (Cursor.rest_ofTokens ts)) rfl rfl (by simp)
  refine ⟨items, errors, c', ?_, hmodule⟩
  have hloop : loop ([], []) (moduleStep (Grammar.for ts)) (Cursor.ofTokens ts) =
      (.ok (items, errors), c') := hrun
  have hhere : ∀ c, here c = (.ok c.span, c) := fun _ => rfl
  rw [wholeModule, bind_ok (hhere _), bind_ok hloop]
  exact bind_ok (hhere c')

end Parse

/--
Every production restores the nesting that it found, whatever it ends with, and keeps the limit on
the way; and every item of a module is read as if nothing had been read before it.
-/
theorem nesting_restored :
    (∀ (n : Nat) {α : Type} {x : Parse α}, (Grammar.levels n).Production x →
      ∀ c : Cursor, c.depth ≤ nestingLimit →
        (x c).2.depth = c.depth ∧ (x c).2.deepest ≤ max c.deepest nestingLimit) ∧
    ∀ ts : List Lexeme, ∃ items errors c', wholeModule (Grammar.for ts) (Cursor.ofTokens ts) =
        (.ok (items, errors, (Cursor.ofTokens ts).span.through c'.span), c') ∧
      (Grammar.for ts).ModuleRun (Cursor.Fresh (Grammar.for ts) ts) (Cursor.ofTokens ts)
        items errors c' := by
  constructor
  · intro n α x hx c hc
    have hresumes := (hx.neutral (Grammar.levels_restoring n) (nestingLimit - c.depth)).resumes
      (c := c) (by omega)
    exact ⟨hresumes.depth, hresumes.deepest⟩
  · exact wholeModule_run

/-- A block is entered up to the limit. The one in it is refused, and both nestings are left. -/
theorem nesting_restored_atLimit :
    let c : Cursor := { Cursor.ofTokens [(.punct .leftBrace, ⟨0, 1, 1, 1⟩),
      (.punct .leftBrace, ⟨1, 2, 1, 2⟩)] with depth := nestingLimit - 1 }
    let r := Grammar.statementOf (Grammar.levels 2) c
    (Grammar.levels 2).Production (Grammar.statementOf (Grammar.levels 2)) ∧
      c.depth ≤ nestingLimit ∧ r.2.pos = 1 ∧ r.2.deepest = nestingLimit ∧
      r.2.depth = nestingLimit - 1 := by
  refine ⟨.statement, by decide, by decide +kernel, by decide +kernel, ?_⟩
  exact (nesting_restored.1 2 .statement _ (by decide)).1

end Typings
