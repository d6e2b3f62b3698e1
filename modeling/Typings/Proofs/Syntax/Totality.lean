import Mathlib.Data.Option.Basic
import Typings.Proofs.Syntax.Balance
import Typings.Proofs.Syntax.Precedence

namespace Typings

open Parse

namespace Cursor

variable {c : Cursor} {opening closer : Punct}

/--
The search of `closing`, where each step can go wrong: there is no answer if it would look behind
the last token, close a group when none is open, or look at more than `fuel` tokens.
-/
def closingChecked? (c : Cursor) (opening closer : Punct) :
    (fuel i opened : Nat) → Option (Except Nat Nat)
  | 0, _, _ => none
  | fuel + 1, i, opened => do
    let t := (← c.tokens[i]?).1
    if t.isEof then return .error i
    if t.isPunct opening then c.closingChecked? opening closer fuel (i + 1) (opened + 1)
    else if t.isPunct closer then
      guard (0 < opened)
      if opened = 1 then return .ok i
      c.closingChecked? opening closer fuel (i + 1) (opened - 1)
    else c.closingChecked? opening closer fuel (i + 1) opened

theorem closingChecked?_eq_closing : ∀ {fuel i opened : Nat}, i < c.tokens.size →
    c.tokens.size ≤ i + fuel → (0 < opened ∨ (c.tokenAt i).isPunct opening = true) →
    c.closingChecked? opening closer fuel i opened =
      some (c.closing opening closer fuel i opened) := by
  intro fuel
  induction fuel with
  | zero =>
    intro i opened hi hfuel
    omega
  | succ fuel ih =>
    intro i opened hi hfuel hopen
    rw [closingChecked?, closing, Array.getElem?_eq_getElem hi]
    simp only [Option.bind_eq_bind, Option.bind_some, ← tokenAt_of_lt hi]
    split
    · rfl
    rename_i hend
    -- only the last token is the end, so there is a token behind this one
    have hnext : i + 1 < c.tokens.size := by
      have hlt : min i (c.tokens.size - 1) + 1 < c.tokens.size :=
        succ_pos_lt (c := c.moveTo i) (eq_false_of_ne_true hend)
      omega
    have hgo : ∀ opened, 0 < opened → c.closingChecked? opening closer fuel (i + 1) opened =
        some (c.closing opening closer fuel (i + 1) opened) := fun _ h =>
      ih hnext (by omega) (.inl h)
    split
    · exact hgo _ (Nat.succ_pos _)
    rename_i hopening
    have hopened : 0 < opened := hopen.resolve_right hopening
    split
    · by_cases hone : opened = 1
      · simp [hone]
      · have hle : ¬ opened ≤ 1 := by omega
        simp [hone, hle, hopened, hgo (opened - 1) (by omega)]
    · exact hgo _ hopened

theorem closingChecked?_of_delimiters (h : delimiters? c.token = some (opening, closer)) :
    c.closingChecked? opening closer c.tokens.size c.pos 0 =
        some (c.closing opening closer c.tokens.size c.pos 0) ∧
      c.step.closingChecked? opening closer c.step.tokens.size c.step.pos 1 =
        some (c.step.closing opening closer c.step.tokens.size c.step.pos 1) := by
  have hopening : (c.tokenAt c.pos).isPunct opening = true := by
    rw [tokenAt_of_lt c.pos_lt]
    change c.token.isPunct opening = true
    unfold delimiters? at h
    split at h <;> simp_all [Token.isPunct]
  exact ⟨closingChecked?_eq_closing c.pos_lt (Nat.le_add_left _ _) (.inr hopening),
    closingChecked?_eq_closing c.step.pos_lt (Nat.le_add_left _ _) (.inl Nat.one_pos)⟩

end Cursor

namespace Grammar

variable {g : Grammar} {n : Nat} {c c' c₁ c₂ : Cursor} {P : Cursor → Prop}
variable {items : List ModuleItem} {errors : List ParseError}

theorem advances_of_moduleStep (hg : g.Sound n) (hc : c.rest ≤ n + 1)
    {acc : List ModuleItem × List ParseError} (h : moduleStep g ([], []) c = (.ok (.inl acc), c')) :
    c.Leads c' ∧ c.pos < c'.pos := by
  have hreads : Reads c _ (moduleStep g ([], [])) := moduleStep_reads hg hc (by simp)
  obtain ⟨hleads, hends⟩ := hreads
  rw [h] at hleads hends
  exact ⟨hleads, hends.1⟩

theorem advances_of_item (hg : g.Sound n) (hc : c.rest ≤ n + 1) (hend : c.atEnd = false)
    {i : ModuleItem} (hitem : g.moduleItem c = (.ok i, c₁)) : c.Leads c₁ ∧ c.pos < c₁.pos :=
  advances_of_moduleStep hg hc (moduleStep_item hend hitem)

theorem advances_of_error (hg : g.Sound n) (hc : c.rest ≤ n + 1) (hend : c.atEnd = false)
    {e : ParseError} (herror : g.moduleItem c = (.error e, c₁))
    (hresync : resync c₁ = (.ok ⟨⟩, c₂)) : c.Leads c₂ ∧ c.pos < c₂.pos := by
  have hstep : moduleStep g ([], []) c = (.ok (.inl ([], [e])), c₂) := by
    rw [moduleStep_error hend herror, bind_ok hresync]
    rfl
  exact advances_of_moduleStep hg hc hstep

theorem ModuleRun.mono {Q : Cursor → Prop} (hPQ : ∀ c, P c → Q c)
    (h : g.ModuleRun P c items errors c') : g.ModuleRun Q c items errors c' := by
  induction h with
  | done hend => exact .done hend
  | item hend hc hitem _ ih => exact .item hend (hPQ _ hc) hitem ih
  | error hend hc herror hresync _ ih => exact .error hend (hPQ _ hc) herror hresync ih

theorem ModuleRun.advances (hg : g.Sound n) (h : g.ModuleRun P c items errors c')
    (hc : c.rest ≤ n + 1) : g.ModuleRun c.Leads c items errors c' ∧ c.Leads c' ∧
      items.length + errors.length + c.pos ≤ c'.pos := by
  induction h with
  | done hend => exact ⟨.done hend, .refl, by simp⟩
  | item hend _ hitem _ ih =>
    obtain ⟨hleads, hpos⟩ := advances_of_item hg hc hend hitem
    obtain ⟨hrun, hleads', hle⟩ := ih (hleads.rest_le hc)
    refine ⟨.item hend .refl hitem (hrun.mono fun _ => hleads.trans), hleads.trans hleads', ?_⟩
    rw [List.length_cons]
    omega
  | error hend _ herror hresync _ ih =>
    obtain ⟨hleads, hpos⟩ := advances_of_error hg hc hend herror hresync
    obtain ⟨hrun, hleads', hle⟩ := ih (hleads.rest_le hc)
    refine ⟨.error hend .refl herror hresync (hrun.mono fun _ => hleads.trans),
      hleads.trans hleads', ?_⟩
    rw [List.length_cons]
    omega

end Grammar

theorem Module.ofTokens_eq {ts : List Lexeme} {items : List ModuleItem} {errors : List ParseError}
    {span : Span} {c' : Cursor}
    (h : wholeModule (Grammar.for ts) (Cursor.ofTokens ts) = (.ok (items, errors, span), c')) :
    Module.ofTokens ts = if errors = [] then .ok ⟨items, span⟩ else .error errors := by
  rw [Module.ofTokens, h]
  cases errors <;> rfl

/--
Any tokens can be read, as a module, as statements and as an expression: no reading runs on without
end, leaves the tokens or loses count of a group. Each round of reading a module passes a token.
-/
theorem readings_total (ts : List Lexeme) :
    (∃ items errors c', (Grammar.for ts).ModuleRun (fun c => c.tokens = (Cursor.ofTokens ts).tokens)
        (Cursor.ofTokens ts) items errors c' ∧
      items.length + errors.length ≤ ts.length ∧
      Module.ofTokens ts = if errors = [] then
        .ok ⟨items, (Cursor.ofTokens ts).span.through c'.span⟩ else .error errors) ∧
    (∀ c : Cursor, c.tokens = (Cursor.ofTokens ts).tokens → c.atEnd = false →
      (∀ i c₁, (Grammar.for ts).moduleItem c = (.ok i, c₁) → c.pos < c₁.pos) ∧
      ∀ e c₁, (Grammar.for ts).moduleItem c = (.error e, c₁) →
        ∃ c₂, resync c₁ = (.ok ⟨⟩, c₂) ∧ c.pos < c₂.pos) ∧
    Ends (fun _ => True) (fun errors => ∀ e ∈ errors, e.fault ≠ .exhausted) (Module.ofTokens ts) ∧
    Ends (fun _ => True) (·.fault ≠ .exhausted) (Statement.ofTokens ts) ∧
    Ends (fun _ => True) (·.fault ≠ .exhausted) (Expr.ofTokens ts) ∧
    (∀ (c : Cursor) opening closer, delimiters? c.token = some (opening, closer) →
      c.closingChecked? opening closer c.tokens.size c.pos 0 =
          some (c.closing opening closer c.tokens.size c.pos 0) ∧
        c.step.closingChecked? opening closer c.step.tokens.size c.step.pos 1 =
          some (c.step.closing opening closer c.step.tokens.size c.step.pos 1)) ∧
    ∀ op : InfixOp, op.isRightAssociative = true → 0 < op.precedence := by
  have hsound := Grammar.for_sound ts
  have hstart := Nat.le_succ_of_le (Cursor.rest_ofTokens ts)
  refine ⟨?_, fun c htokens hend => ?_, Module.ofTokens_ends ts, Statement.ofTokens_ends ts,
    Expr.ofTokens_ends ts, fun c _ _ h => Cursor.closingChecked?_of_delimiters h, fun op hop => ?_⟩
  · obtain ⟨items, errors, c', hwhole, hrun⟩ := wholeModule_run ts
    obtain ⟨hrun, hleads, hlength⟩ := hrun.advances hsound hstart
    have hsize : c'.tokens.size = (Cursor.terminated ts).length := congrArg Array.size hleads.tokens
    have hpos := c'.pos_lt
    obtain ⟨added, hadded, hle⟩ := Cursor.exists_terminated_eq ts
    rw [hadded, List.length_append] at hsize
    exact ⟨items, errors, c', hrun.mono fun _ h => h.tokens, by omega, Module.ofTokens_eq hwhole⟩
  · have hrest : c.rest ≤ Lexeme.weights ts + 2 :=
      Cursor.Leads.rest_le ⟨htokens, Nat.zero_le _⟩ hstart
    refine ⟨fun i c₁ hitem => (Grammar.advances_of_item hsound hrest hend hitem).2,
      fun e c₁ herror => ?_⟩
    obtain ⟨c₂, hresync⟩ := resync_ok c₁
    exact ⟨c₂, hresync, (Grammar.advances_of_error hsound hrest hend herror hresync).2⟩
  · exact Nat.lt_of_lt_of_le (by decide) (InfixOp.isRightAssociative_iff.1 hop)

/-- A parenthesis that is not closed is one error, and nothing is left behind it. -/
theorem readings_total_parenthesis :
    let ts : List Lexeme := [(.punct .leftParen, ⟨0, 1, 1, 1⟩)]
    let c := Cursor.ofTokens ts
    c.atEnd = false ∧ delimiters? c.token = some (.leftParen, .rightParen) ∧
      c.closingChecked? .leftParen .rightParen 2 0 0 = some (.error 1) ∧
      ∃ e c₁ c₂, (Grammar.for ts).moduleItem c = (.error e, c₁) ∧
        resync c₁ = (.ok ⟨⟩, c₂) ∧ c.pos < c₂.pos := by
  intro ts c
  obtain ⟨-, hrounds, -, -, -, hgroups, -⟩ := readings_total ts
  have hfails : ∃ e c₁, (Grammar.for ts).moduleItem c = (.error e, c₁) := ⟨_, _, rfl⟩
  obtain ⟨e, c₁, herror⟩ := hfails
  obtain ⟨c₂, hresync, hpos⟩ := (hrounds c rfl rfl).2 e c₁ herror
  exact ⟨rfl, rfl, (hgroups c _ _ rfl).1, e, c₁, c₂, herror, hresync, hpos⟩

end Typings
