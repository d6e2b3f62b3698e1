import Typings.Proofs.Syntax.Lockstep
import Typings.Proofs.Syntax.Progress

namespace Typings

open Parse

namespace Parse

variable {g : Grammar} {acc : List ModuleItem × List ParseError} {c c₁ c' : Cursor}
variable {item : ModuleItem} {items res : List ModuleItem} {errors : List ParseError}

theorem moduleStep_atEnd (h : c.atEnd = true) :
    moduleStep g acc c = (.ok (.inr (acc.1.reverse, acc.2.reverse)), c) := by
  have hget : (get : Parse Cursor) c = (.ok c, c) := rfl
  rw [moduleStep, bind_ok hget, if_pos h]
  rfl

theorem moduleStep_item (h : c.atEnd = false) (hitem : g.moduleItem c = (.ok item, c₁)) :
    moduleStep g acc c = (.ok (.inl (item :: acc.1, acc.2)), c₁) := by
  have hget : (get : Parse Cursor) c = (.ok c, c) := rfl
  rw [moduleStep, bind_ok hget, if_neg (by simp [h])]
  exact tryCatch_ok (bind_ok hitem)

theorem moduleStep_error {e : ParseError} (h : c.atEnd = false)
    (hitem : g.moduleItem c = (.error e, c₁)) :
    moduleStep g acc c =
      (do
        resync
        return .inl (acc.1, e :: acc.2) : Parse ((List ModuleItem × List ParseError) ⊕ _)) c₁ := by
  have hget : (get : Parse Cursor) c = (.ok c, c) := rfl
  rw [moduleStep, bind_ok hget, if_neg (by simp [h])]
  exact tryCatch_error (bind_error hitem)

theorem repeated_moduleStep_errors {fuel : Nat}
    (h : repeated (moduleStep g) fuel acc c = (.ok (res, errors), c')) :
    acc.2.length ≤ errors.length := by
  induction fuel generalizing acc c with
  | zero => cases h
  | succ fuel ih =>
    obtain ⟨r, c₁, hstep, h⟩ := bind_run_ok h
    cases hend : c.atEnd with
    | true =>
      rw [moduleStep_atEnd hend] at hstep
      cases hstep
      cases h
      exact Nat.le_of_eq List.length_reverse.symm
    | false =>
      rcases hitem : g.moduleItem c with ⟨e | item, c₂⟩
      · rw [moduleStep_error hend hitem] at hstep
        obtain ⟨_, c₃, _, hstep⟩ := bind_run_ok hstep
        cases hstep
        exact Nat.le_of_succ_le (ih h)
      · rw [moduleStep_item hend hitem] at hstep
        cases hstep
        have hle := ih (c := c₁) h
        exact hle

theorem repeated_moduleStep_ok {fuel : Nat}
    (h : repeated (moduleStep g) (fuel + 1) (items, []) c = (.ok (res, []), c')) :
    (c.atEnd = true ∧ res = items.reverse ∧ c' = c) ∨
      (c.atEnd = false ∧ ∃ item c₁, g.moduleItem c = (.ok item, c₁) ∧
        repeated (moduleStep g) fuel (item :: items, []) c₁ = (.ok (res, []), c')) := by
  obtain ⟨r, c₁, hstep, h⟩ := bind_run_ok h
  cases hend : c.atEnd with
  | true =>
    rw [moduleStep_atEnd hend] at hstep
    cases hstep
    cases h
    exact .inl ⟨rfl, rfl, rfl⟩
  | false =>
    rcases hitem : g.moduleItem c with ⟨e | item, c₂⟩
    · rw [moduleStep_error hend hitem] at hstep
      obtain ⟨_, c₃, _, hstep⟩ := bind_run_ok hstep
      cases hstep
      have := repeated_moduleStep_errors h
      simp at this
    · rw [moduleStep_item hend hitem] at hstep
      cases hstep
      exact .inr ⟨rfl, item, _, rfl, h⟩

end Parse

section
variable {A : Pairing} (hA : A.Sound) {g g' : Grammar} (hg : g.Parallel A g')
include hA hg

theorem moduleItems_gone {fuel : Nat} {items res : List ModuleItem} {c c' : Cursor}
    (hgone : A.Gone c)
    (h : repeated (moduleStep g) fuel (items, []) c = (.ok (res, []), c')) : A.Gone c' := by
  induction fuel generalizing items c with
  | zero => cases h
  | succ fuel ih =>
    rcases repeated_moduleStep_ok h with ⟨_, _, rfl⟩ | ⟨_, item, c₁, hitem, h⟩
    · exact hgone
    · exact ih ((Grammar.follows_moduleItem hA hg).alone hgone hitem).1 h

/-- The items of a module without errors are followed item by item. -/
theorem moduleItems_follow {n : Nat} (hsound : g'.Sound n) {fuel fuel' : Nat}
    {items items' res : List ModuleItem} {c d c' : Cursor} (hrel : A.Rel c d)
    (hrest : d.rest ≤ n + 1) (hfuel : d.remaining < fuel')
    (hitems : List.Forall₂ (ModuleItem.Like A.like) items items')
    (h : repeated (moduleStep g) fuel (items, []) c = (.ok (res, []), c')) :
    A.Gone c' ∨ ∃ res' d', repeated (moduleStep g') fuel' (items', []) d = (.ok (res', []), d') ∧
      List.Forall₂ (ModuleItem.Like A.like) res res' ∧ A.Rel c' d' := by
  induction fuel generalizing fuel' items items' c d with
  | zero => cases h
  | succ fuel ih =>
    obtain ⟨fuel', rfl⟩ : ∃ m, fuel' = m + 1 := ⟨fuel' - 1, by omega⟩
    have hend : d.atEnd = c.atEnd := (hA.sees hrel).token.isEof
    rcases repeated_moduleStep_ok h with ⟨hend', rfl, rfl⟩ | ⟨hend', item, c₁, hitem, h⟩
    · refine .inr ⟨items'.reverse, d, ?_, List.rel_reverse hitems, hrel⟩
      rw [repeated, bind_ok (moduleStep_atEnd (hend.trans hend'))]
      rfl
    · have hreads := Grammar.passes_moduleItem hsound hrest
      rcases (Grammar.follows_moduleItem hA hg).together hrel hitem with
        ⟨hgone, _⟩ | ⟨e, he, hfault⟩ | ⟨item', d₁, hitem', hlike, hrel₁⟩
      · exact .inl (moduleItems_gone hA hg hgone h)
      · exact absurd hfault (hreads.ends.error he)
      · have hleads := hreads.leads
        have hpos := hreads.ends
        rw [hitem'] at hleads hpos
        have hremaining : d₁.remaining < d.remaining := hleads.remaining_lt hpos
        rw [repeated, bind_ok (moduleStep_item (hend.trans hend') hitem')]
        exact ih hrel₁ (hleads.rest_le hrest) (by omega) (.cons hlike hitems) h

end

/-- Where the reading of a module ends. -/
def Module.lastCursor (ts : List Lexeme) : Cursor :=
  (wholeModule (Grammar.for ts) (Cursor.ofTokens ts)).2

theorem Module.ofTokens_eq_ok {ts : List Lexeme} {m : Module} :
    Module.ofTokens ts = .ok m ↔
      (wholeModule (Grammar.for ts) (Cursor.ofTokens ts)).1 = .ok (m.items, [], m.span) := by
  unfold Module.ofTokens
  split
  · rename_i items span h
    constructor
    · intro hm
      cases hm
      exact h
    · intro hm
      rw [h] at hm
      cases hm
      rfl
  · rename_i errors span herrors h
    constructor
    · intro hm
      cases hm
    · intro hm
      rw [h] at hm
      cases hm
      exact (herrors rfl).elim
  · rename_i h
    constructor
    · intro hm
      cases hm
    · intro hm
      rw [h] at hm
      cases hm

/-- Modules at places that belong together are alike, unless the first reading was gone. -/
theorem Module.ofTokens_follow {A : Pairing} (hA : A.Sound) {ts ts' : List Lexeme}
    (hrel : A.Rel (Cursor.ofTokens ts) (Cursor.ofTokens ts')) {m : Module}
    (h : Module.ofTokens ts = .ok m) :
    A.Gone (Module.lastCursor ts) ∨ ∃ m', Module.ofTokens ts' = .ok m' ∧ m.Like A.like m' ∧
      A.Rel (Module.lastCursor ts) (Module.lastCursor ts') := by
  obtain ⟨items, span⟩ := m
  have hrun : wholeModule (Grammar.for ts) (Cursor.ofTokens ts) =
      (.ok (items, [], span), Module.lastCursor ts) :=
    Prod.ext (Module.ofTokens_eq_ok.1 h) rfl
  obtain ⟨_, _, hhere, hrun⟩ := bind_run_ok hrun
  cases hhere
  obtain ⟨⟨_, _⟩, c', hloop, hrun⟩ := bind_run_ok hrun
  obtain ⟨_, _, hhere, hrun⟩ := bind_run_ok hrun
  cases hhere
  generalize hlast : Module.lastCursor ts = last at hrun ⊢
  cases hrun
  have hrest := Nat.le_succ_of_le (Cursor.rest_ofTokens ts')
  rcases moduleItems_follow hA (Grammar.levels_parallel _ _ hA) (Grammar.for_sound ts') hrel hrest
    (Nat.lt_succ_self _) .nil hloop with hgone | ⟨items', d', hloop', hitems, hrel'⟩
  · exact .inl hgone
  · have hloop' : loop ([], []) (moduleStep (Grammar.for ts')) (Cursor.ofTokens ts') =
        (.ok (items', []), d') := hloop'
    have hhere : here (Cursor.ofTokens ts') = (.ok (Cursor.ofTokens ts').span, _) := rfl
    have hrun' : wholeModule (Grammar.for ts') (Cursor.ofTokens ts') =
        (.ok (items', [], (Cursor.ofTokens ts').span.through d'.span), d') := by
      rw [wholeModule, bind_ok hhere, bind_ok hloop']
      rfl
    have hspan := hA.like.through (hA.sees hrel).span (hA.sees hrel').span
    refine .inr ⟨⟨items', _⟩, Module.ofTokens_eq_ok.2 (congrArg Prod.fst hrun'), ⟨hitems, hspan⟩, ?_⟩
    rw [Module.lastCursor, hrun']
    exact hrel'

theorem Module.groupSearch_of_mem_bodies {ts : List Lexeme} {m : Module} {i : Nat}
    (h : Module.ofTokens ts = .ok m) (hi : i ∈ (Module.lastCursor ts).bodies) :
    ∃ k, groupSearch .leftBrace .rightBrace ((Cursor.terminated ts).drop (i + 1)) 1 = .found k := by
  let L : Likeness := ⟨fun _ _ => True, fun _ => True, fun _ => True, fun _ _ _ => True⟩
  have hL : L.Sound := by
    constructor <;> intros <;> trivial
  have hself : Lexeme.AllLike L.span ts ts := ⟨0, 0, .refl 0 (fun _ => trivial) ts⟩
  have hreads := wholeModule_reads (Grammar.for_sound ts) (c := Cursor.ofTokens ts)
    (Nat.le_succ_of_le (Cursor.rest_ofTokens ts))
  rcases Module.ofTokens_follow (Pairing.alike_sound hL) (Cursor.alike_ofTokens hL hself) h
    with hgone | ⟨_, _, _, hlast⟩
  · exact hgone.elim
  · have htokens : (Module.lastCursor ts).tokens.toList = Cursor.terminated ts := by
      rw [Module.lastCursor, hreads.leads.tokens, Cursor.ofTokens]
    rw [← htokens]
    exact hlast.bodies i hi

end Typings
