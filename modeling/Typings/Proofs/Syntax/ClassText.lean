import Mathlib.Data.List.Infix
import Typings.Proofs.Syntax.Origin

namespace Typings

open Parse

mutual

/-- The tokens of the substitutions in a token, at any depth. -/
def Token.nested : Token → List (List (Token × Span))
  | .template parts => TemplatePart.allNested parts
  | _ => []

def TemplatePart.allNested : List TemplatePart → List (List (Token × Span))
  | [] => []
  | .text _ :: parts => TemplatePart.allNested parts
  | .substitution ts :: parts => ts :: (Lexeme.nested ts ++ TemplatePart.allNested parts)

def Lexeme.nested : List (Token × Span) → List (List (Token × Span))
  | [] => []
  | (t, _) :: ts => t.nested ++ Lexeme.nested ts

end

/-- The parentheses of the head of an arrow function that some tokens begin with. -/
def arrowHead? (ts : List Lexeme) : Option (Span × Span) :=
  match ts, groupSearch .leftParen .rightParen ts 0 with
  | (.punct .leftParen, opening) :: _, .found k =>
    match ts.drop k with
    | (_, closing) :: (.punct .arrow, _) :: _ => some (opening, closing)
    | _ => none
  | _, _ => none

/--
The head of every arrow function in a span is seen to close in it, where the parenthesis that closes
it is counted to without a look at what the tokens stand for.
-/
def ArrowsClose (ts : List Lexeme) (s : Span) : Prop :=
  ∀ us ∈ ts :: Lexeme.nested ts, ∀ before inside after, us = before ++ (inside ++ after) →
    Lexeme.ReadsArrow inside → (∀ x ∈ inside, s.start ≤ x.2.start ∧ x.2.stop ≤ s.stop) →
    ∀ head ∈ arrowHead? (inside ++ after), head.2.stop ≤ s.stop

mutual

theorem Token.nested_subset {us : List Lexeme} : (t : Token) → us ∈ t.nested →
    Lexeme.nested us ⊆ t.nested
  | .template parts, h => TemplatePart.allNested_subset parts h

theorem TemplatePart.allNested_subset {us : List Lexeme} : (parts : List TemplatePart) →
    us ∈ TemplatePart.allNested parts → Lexeme.nested us ⊆ TemplatePart.allNested parts
  | .text _ :: parts, h => TemplatePart.allNested_subset parts h
  | .substitution ts :: parts, h => by
    rw [TemplatePart.allNested]
    intro vs hvs
    rcases List.mem_cons.1 h with rfl | h
    · exact List.mem_cons_of_mem _ (List.mem_append_left _ hvs)
    · rcases List.mem_append.1 h with h | h
      · exact List.mem_cons_of_mem _ (List.mem_append_left _ (Lexeme.nested_subset ts h hvs))
      · exact List.mem_cons_of_mem _ (List.mem_append_right _ (TemplatePart.allNested_subset parts h hvs))

theorem Lexeme.nested_subset {us : List Lexeme} : (ts : List (Token × Span)) →
    us ∈ Lexeme.nested ts → Lexeme.nested us ⊆ Lexeme.nested ts
  | (t, _) :: ts, h => by
    rw [Lexeme.nested]
    intro vs hvs
    rcases List.mem_append.1 h with h | h
    · exact List.mem_append_left _ (Token.nested_subset t h hvs)
    · exact List.mem_append_right _ (Lexeme.nested_subset ts h hvs)

end

theorem Lexeme.mem_nested {ts us : List Lexeme} {parts : List TemplatePart} {s : Span}
    (hparts : (.template parts, s) ∈ ts) (hus : .substitution us ∈ parts) : us ∈ nested ts := by
  have hinner : us ∈ TemplatePart.allNested parts := by
    clear hparts
    induction parts with
    | nil => cases hus
    | cons part parts ih =>
      rcases List.mem_cons.1 hus with rfl | hmem
      · exact List.mem_cons_self
      · cases part with
        | text => exact ih hmem
        | substitution ts => exact List.mem_cons_of_mem _ (List.mem_append_right _ (ih hmem))
  induction ts with
  | nil => cases hparts
  | cons x ts ih =>
    obtain ⟨t, s'⟩ := x
    rw [nested]
    rcases List.mem_cons.1 hparts with heq | hparts
    · cases heq
      exact List.mem_append_left _ hinner
    · exact List.mem_append_right _ (ih hparts)

theorem Lexeme.Stream.mem {whole ts : List Lexeme} (h : Stream whole ts) :
    ts ∈ whole :: nested whole := by
  induction h with
  | self => exact List.mem_cons_self
  | @part ts us parts s _ hparts hus ih =>
    have hmem := mem_nested hparts hus
    rcases List.mem_cons.1 ih with rfl | hts
    · exact List.mem_cons_of_mem _ hmem
    · exact List.mem_cons_of_mem _ (nested_subset _ hts hmem)

theorem arrowHead?_eq_some {ts : List Lexeme} {opening closing a : Span} {t : Token} {k : Nat}
    (hfirst : ts[0]? = some (.punct .leftParen, opening))
    (hk : groupSearch .leftParen .rightParen ts 0 = .found k) (hclosing : ts[k]? = some (t, closing))
    (harrow : ts[k + 1]? = some (.punct .arrow, a)) : arrowHead? ts = some (opening, closing) := by
  obtain ⟨hk', hclosing⟩ := List.getElem?_eq_some_iff.1 hclosing
  obtain ⟨hk'', harrow⟩ := List.getElem?_eq_some_iff.1 harrow
  have hdrop : ts.drop k = (t, closing) :: (.punct .arrow, a) :: ts.drop (k + 2) := by
    rw [List.drop_eq_getElem_cons hk', hclosing, List.drop_eq_getElem_cons hk'', harrow]
  cases ts with
  | nil => cases hfirst
  | cons x ts =>
    cases hfirst
    simp only [arrowHead?, hk, hdrop]

theorem groupSearch_append_found {opening closer : Punct} {ts : List Lexeme} {opened k : Nat}
    (h : groupSearch opening closer ts opened = .found k) (us : List Lexeme) :
    groupSearch opening closer (ts ++ us) opened = .found k := by
  rw [groupSearch_append, h]
  rfl

theorem groupSearch_found_of_append_eof {opening closer : Punct} {ts : List Lexeme} {opened k : Nat}
    {e : Span} (h : groupSearch opening closer (ts ++ [(.eof, e)]) opened = .found k) :
    groupSearch opening closer ts opened = .found k := by
  rw [groupSearch_append] at h
  cases hts : groupSearch opening closer ts opened with
  | found => rwa [hts] at h
  | stopped =>
    rw [hts] at h
    cases h
  | unfinished =>
    rw [hts] at h
    cases h

section
variable {whole front inner after after' rest : List Lexeme} {s s' : Span}

/-- An end that was put behind tokens leads a search nowhere else. -/
theorem found_of_terminated {ts : List Lexeme} {a : Span} {j k : Nat}
    (hafter : after = after' ∨ ∃ e, after = after' ++ [(.eof, e)])
    (hfound : groupSearch .leftParen .rightParen (ts ++ after) 0 = .found k)
    (hx : after[j]? = some (.punct .arrow, a)) :
    groupSearch .leftParen .rightParen (ts ++ after') 0 = .found k ∧
      after'[j]? = some (.punct .arrow, a) := by
  rcases hafter with rfl | ⟨e, rfl⟩
  · exact ⟨hfound, hx⟩
  · rw [← List.append_assoc] at hfound
    refine ⟨groupSearch_found_of_append_eof hfound, ?_⟩
    rw [List.getElem?_append] at hx
    split at hx
    · exact hx
    · have hmem := List.mem_of_getElem? hx
      simp at hmem

theorem bounds_of_mem_group {group : List Lexeme} {t t' : Token} {x : Lexeme}
    (hgroup : group = (t, s) :: (inner ++ [(t', s')]))
    (hordered : group.Pairwise fun x y => x.2.stop ≤ y.2.start) (hs : s.start ≤ s.stop)
    (hs' : s'.start ≤ s'.stop) (hx : x ∈ group) : s.start ≤ x.2.start ∧ x.2.stop ≤ s'.stop := by
  subst hgroup
  obtain ⟨hfirst, hinner⟩ := List.pairwise_cons.1 hordered
  have hends : s.stop ≤ s'.start := hfirst (t', s') (by simp)
  rcases List.mem_cons.1 hx with rfl | hx
  · exact ⟨Nat.le_refl _, Nat.le_trans hends hs'⟩
  · refine ⟨Nat.le_trans hs (hfirst x hx), ?_⟩
    rcases List.mem_append.1 hx with hx | hx
    · have hbefore := (List.pairwise_append.1 hinner).2.2 x hx _ (List.mem_singleton_self _)
      exact Nat.le_trans hbefore hs'
    · cases List.mem_singleton.1 hx
      exact Nat.le_refl _

/-- Behind a class whose arrow functions close in it there is no arrow that one of them leads to. -/
theorem ArrowsClose.not_arrow {group : List Lexeme}
    (hgroup : group = (.keyword .kwClass, s) :: (inner ++ [(.punct .rightBrace, s')]))
    (hclose : ArrowsClose whole (s.through s'))
    (hstream : Lexeme.Stream whole (front ++ (group ++ (after' ++ rest))))
    (hordered : (group ++ (after' ++ rest)).Pairwise fun x y => x.2.stop ≤ y.2.start)
    (hlong : ∀ x ∈ group ++ (after' ++ rest), x.1.isEof = false → x.2.start < x.2.stop)
    (hafter : after = after' ∨ ∃ e, after = after' ++ [(.eof, e)]) {i j k : Nat} {p : Span}
    (hparen : group[i]? = some (.punct .leftParen, p))
    (hreads : Lexeme.ReadsArrow ((group.drop i).take j)) (hout : group.length ≤ i + k)
    (hfound : groupSearch .leftParen .rightParen (group.drop i ++ after) 0 = .found k)
    {x : Lexeme} (hx : after[i + k + 1 - group.length]? = some x) :
    x.1.isPunct .arrow = false := by
  by_contra harrow
  rw [Bool.not_eq_false] at harrow
  obtain ⟨t, a⟩ := x
  cases Token.eq_of_isPunct harrow
  have hi : i < group.length := (List.getElem?_eq_some_iff.1 hparen).1
  have hfound' := found_of_terminated hafter hfound hx
  have hsearch : groupSearch .leftParen .rightParen (group.drop i ++ (after' ++ rest)) 0 =
      .found k := by
    rw [← List.append_assoc]
    exact groupSearch_append_found hfound'.1 rest
  have hnth : ∀ j, group.length ≤ i + j → (group.drop i ++ (after' ++ rest))[j]? =
      (after' ++ rest)[i + j - group.length]? := by
    intro j hj
    rw [List.getElem?_append_right (by rw [List.length_drop]; omega), List.length_drop]
    congr 1
    omega
  obtain ⟨⟨t, closing⟩, hclosing, hcloser⟩ := getElem?_of_groupSearch_found hsearch
  have hhead : arrowHead? (group.drop i ++ (after' ++ rest)) = some (p, closing) := by
    refine arrowHead?_eq_some (a := a) ?_ hsearch hclosing ?_
    · rw [List.getElem?_append_left (by rw [List.length_drop]; omega), List.getElem?_drop]
      exact hparen
    · have hlt := (List.getElem?_eq_some_iff.1 hfound'.2).1
      rw [hnth (k + 1) (by omega), List.getElem?_append_left (by omega), ← hfound'.2]
      rfl
  -- the parenthesis stands in the class, and the one that closes it behind the class
  obtain ⟨hinside, _, hbehind⟩ := List.pairwise_append.1 hordered
  rw [hnth k hout] at hclosing
  have hmem := List.mem_of_getElem? hclosing
  have hlast := hbehind _ (show (.punct .rightBrace, s') ∈ group by simp [hgroup]) _ hmem
  have hclosing := hlong _ (List.mem_append_right _ hmem) (Token.isEof_of_isPunct hcloser)
  have hs := hlong (.keyword .kwClass, s) (by simp [hgroup]) rfl
  have hs' := hlong (.punct .rightBrace, s') (by simp [hgroup]) rfl
  have hspan : ∀ x ∈ group, s.start ≤ x.2.start ∧ x.2.stop ≤ s'.stop := fun _ =>
    bounds_of_mem_group hgroup hinside (Nat.le_of_lt hs) (Nat.le_of_lt hs')
  have hstop := hclose _ hstream.mem (front ++ group.take i) ((group.drop i).take j)
    ((group.drop i).drop j ++ (after' ++ rest)) ?_ hreads ?_ (p, closing) ?_
  · rw [Span.stop_through] at hstop
    dsimp only at hlast hclosing hs hs' hstop
    have := (hspan (.keyword .kwClass, s) (by simp [hgroup])).2
    dsimp only at this
    omega
  · rw [List.append_assoc, ← List.append_assoc ((group.drop i).take j), List.take_append_drop,
      ← List.append_assoc (group.take i), List.take_append_drop]
  · intro x hx
    have hx := hspan x (List.mem_of_mem_drop (List.mem_of_mem_take hx))
    rw [Span.start_through, Span.stop_through]
    omega
  · rw [← List.append_assoc, List.take_append_drop, hhead]
    rfl

end

theorem Cursor.token_eq {c : Cursor} {x : Lexeme} (h : c.tokens.toList[c.pos]? = some x) :
    c.token = x.1 := by
  rw [token, Option.some.inj (c.getElem?_pos.symm.trans h)]

theorem Cursor.toList_ofTokens {ts : List Lexeme} {e : Span}
    (h : ts.getLast? = some (.eof, e)) : (ofTokens ts).tokens.toList = ts := by
  show terminated ts = ts
  rw [terminated_of_getLast? h]
  rfl

theorem Grammar.moduleItem_exportDefault {g : Grammar} {c c' : Cursor} {a : ClassDef}
    (hexport : c.token = .keyword .kwExport) (hdefault : c.step.token = .keyword .kwDefault)
    (hclass : c.step.step.token = .keyword .kwClass)
    (hrun : g.classDef c.step.step = (.ok a, c')) :
    g.moduleItem c = (.ok (.exportDefault (.classOf a) (c.span.through c'.previousSpan)), c') := by
  have hvalue : defaultExport g c.step.step = (.ok (.classOf a), c') := by
    have hcurrent : current c.step.step = (.ok (.keyword .kwClass), c.step.step) := by
      rw [← hclass]
      rfl
    rw [defaultExport, bind_ok hcurrent]
    exact bind_ok hrun
  have hexported : exportDefault g c.span c.step =
      (.ok (.exportDefault (.classOf a) (c.span.through c'.previousSpan)), c') := by
    have hadvance : advance c.step = (.ok (), c.step.step) := rfl
    rw [exportDefault, bind_ok hadvance, bind_ok hvalue]
    rfl
  have hget : (get : Parse Cursor) c = (.ok c, c) := rfl
  have hhere : here c = (.ok c.span, c) := rfl
  have hcurrent : current c.step = (.ok (.keyword .kwDefault), c.step) := by
    rw [← hdefault]
    rfl
  rw [moduleItem, bind_ok hget, hexport]
  dsimp only
  rw [exportItem, bind_ok hhere, bind_ok (expectKeyword_eq_ok hexport), bind_ok hcurrent]
  exact hexported

theorem Module.ofTokens_of_item {ts : List Lexeme} {item : ModuleItem} {c' : Cursor}
    (hstart : (Cursor.ofTokens ts).atEnd = false)
    (hitem : (Grammar.for ts).moduleItem (Cursor.ofTokens ts) = (.ok item, c'))
    (hend : c'.atEnd = true) :
    Module.ofTokens ts = .ok ⟨[item], (Cursor.ofTokens ts).span.through c'.span⟩ := by
  have hloop : loop ([], []) (moduleStep (Grammar.for ts)) (Cursor.ofTokens ts) =
      (.ok ([item], []), c') := by
    have hpos := (Cursor.ofTokens ts).pos_lt
    obtain ⟨n, hn⟩ : ∃ n, (Cursor.ofTokens ts).remaining + 1 = n + 1 + 1 :=
      ⟨(Cursor.ofTokens ts).remaining - 1, by rw [Cursor.remaining]; omega⟩
    have hget : (get : Parse Cursor) (Cursor.ofTokens ts) = (.ok (Cursor.ofTokens ts), _) := rfl
    rw [loop, bind_ok hget, hn, repeated, bind_ok (moduleStep_item hstart hitem)]
    dsimp only
    rw [repeated, bind_ok (moduleStep_atEnd hend)]
    rfl
  have hhere : here (Cursor.ofTokens ts) = (.ok (Cursor.ofTokens ts).span, _) := rfl
  refine Module.ofTokens_eq_ok.2 ?_
  rw [wholeModule, bind_ok hhere, bind_ok hloop]
  rfl

namespace Window

variable {w : Window} {n : Nat} {c d last : Cursor} {s s₁ s₂ : Span}
variable {inside : Option String × Option Expr × List Grammar.ClassItem}

-- The first reading: a class that takes up the window.
variable (hword : c.token = .keyword .kwClass) (hleft : c.tokens.toList = w.left)
  (hpos : c.pos = w.before.length)
  (hrun : Grammar.classInside (Grammar.levels n) c.step = (.ok inside, last))
  (hlast : last.pos + 1 = w.before.length + w.inside.length) (hlong : 1 < w.inside.length)
include hword hleft hpos hrun hlast hlong

theorem classInside_right (hword' : d.token = .keyword .kwClass) (hright : d.tokens.toList = w.right)
    (hpos' : d.pos = w.front.length) (hdepth : d.depth = 0) {m : Nat} (hm : d.rest ≤ m) :
    ∃ inside' last', Grammar.classInside (Grammar.levels m) d.step = (.ok inside', last') ∧
      (inside'.1 = inside.1 ∧ Expr.OptLike .upToSpans inside.2.1 inside'.2.1 ∧
        List.Forall₂ (Grammar.ClassItem.Like .upToSpans) inside.2.2 inside'.2.2) ∧
      w.Rel last last' := by
  have hrel : w.Rel c.step d.step := by
    refine ⟨by rw [c.leads_step.tokens, hleft], by rw [d.leads_step.tokens, hright], ?_, 1,
      Nat.one_pos, hlong, ?_, ?_⟩
    · rw [d.depth_step, hdepth]
      exact Nat.zero_le _
    · rw [Cursor.pos_step (by rw [hword]; rfl), hpos]
    · rw [Cursor.pos_step (by rw [hword']; rfl), hpos']
  have hparallel := Grammar.levels_parallel n m w.pairing_sound
  rcases (Grammar.follows_classInside w.pairing_sound hparallel).together hrel hrun with
    ⟨hgone, _⟩ | ⟨e, he, hfault⟩ | ⟨inside', last', hrun', hlike, hrel'⟩
  · -- the last brace of the window was not passed
    have : w.before.length + w.inside.length ≤ last.pos := hgone
    omega
  · -- the bound is enough for all tokens that are left
    have hclass : ((Grammar.levels m).classDef d).1 = .error e := by
      have hinside : Grammar.classInside (Grammar.levels m) d.step =
          (.error e, (Grammar.classInside (Grammar.levels m) d.step).2) := Prod.ext he rfl
      have hhere : here d = (.ok d.span, d) := rfl
      rw [Grammar.classDef_eq, bind_ok hhere, bind_ok (expectKeyword_eq_ok hword'),
        bind_error hinside]
    have hends := (Grammar.passes_classDef (Grammar.levels_sound m) (Nat.le_succ_of_le hm)).ends
    rw [hclass] at hends
    exact absurd hfault hends
  · exact ⟨inside', last', hrun', hlike, hrel'⟩

theorem classDef_right (hword' : d.token = .keyword .kwClass) (hright : d.tokens.toList = w.right)
    (hpos' : d.pos = w.front.length) (hdepth : d.depth = 0) {m : Nat} (hm : d.rest ≤ m)
    (span : Span) :
    ∃ a d', (Grammar.levels m).classDef d = (.ok a, d') ∧ d'.atEnd = true ∧
      (Grammar.classOf inside span).Like .upToSpans a := by
  obtain ⟨inside', last', hrun', ⟨hname, hsuper, hitems⟩, hrel⟩ :=
    classInside_right hword hleft hpos hrun hlast hlong hword' hright hpos' hdepth hm
  obtain ⟨i, _, hi, hlastpos, hlastpos'⟩ := hrel.pos
  have hbrace : last'.token.isPunct .rightBrace = true := by
    obtain ⟨s, hs⟩ := w.brace
    rw [hrel.sees.token.isPunct, Cursor.token_eq (x := (.punct .rightBrace, s))]
    · rfl
    · rw [hrel.left, hlastpos, getElem?_left hi, ← hs, List.getLast?_eq_getElem?]
      congr 1
      omega
  have heof : last'.step.token = .eof := by
    apply Cursor.token_eq (x := (.eof, w.back))
    have hlength := w.length_inside'
    rw [last'.leads_step.tokens, hrel.right, Cursor.pos_step (Token.isEof_of_isPunct hbrace), right,
      hlastpos', show w.front.length + i + 1 = w.front.length + (w.inside'.length + 0) by omega]
    simp
  have hhere : here d = (.ok d.span, d) := rfl
  refine ⟨Grammar.classOf inside' (d.span.through last'.step.previousSpan), last'.step, ?_, ?_, ?_⟩
  · rw [Grammar.classDef_eq, bind_ok hhere, bind_ok (expectKeyword_eq_ok hword'), bind_ok hrun',
      bind_ok (expect_eq_ok hbrace)]
    rfl
  · rw [Cursor.atEnd, heof]
    rfl
  · exact ClassDef.like_iff.2 ⟨trivial, Grammar.classOf_partsLike hname hsuper hitems trivial⟩

theorem ofTokens_right (hfront : w.front = [(.keyword .kwExport, s₁), (.keyword .kwDefault, s₂)])
    (span : Span) :
    ∃ a s₃ s₄, Module.ofTokens w.right = .ok ⟨[.exportDefault (.classOf a) s₃], s₄⟩ ∧
      (Grammar.classOf inside span).Like .upToSpans a := by
  generalize hd : Cursor.ofTokens w.right = d
  -- the tokens of the second list before the window, and the first one in it
  have hright : d.tokens.toList = w.right := by
    rw [← hd]
    exact Cursor.toList_ofTokens (e := w.back) (by simp [right, List.getLast?_append])
  have hlength : w.front.length = 2 := by rw [hfront]; rfl
  have hpos₀ : d.pos = 0 := by rw [← hd]; rfl
  have hexport : d.token = .keyword .kwExport := by
    apply Cursor.token_eq (x := (.keyword .kwExport, s₁))
    rw [hright, hpos₀, right, hfront]
    rfl
  have hpos₁ : d.step.pos = 1 := by
    rw [Cursor.pos_step (by rw [hexport]; rfl), hpos₀]
  have hdefault : d.step.token = .keyword .kwDefault := by
    apply Cursor.token_eq (x := (.keyword .kwDefault, s₂))
    rw [d.leads_step.tokens, hright, hpos₁, right, hfront]
    rfl
  have hleads : d.Leads d.step.step := d.leads_step.trans d.step.leads_step
  have hpos₂ : d.step.step.pos = w.front.length := by
    rw [Cursor.pos_step (by rw [hdefault]; rfl), hpos₁, hlength]
  have hword' : d.step.step.token = .keyword .kwClass := by
    obtain ⟨k, k', htokens⟩ := w.forall_getElem?
    obtain ⟨x, x', hx, hx', hlike⟩ := htokens 0 (by omega)
    rw [Nat.add_zero, ← hleft, ← hpos] at hx
    rw [Nat.add_zero, ← hright, ← hleads.tokens, ← hpos₂] at hx'
    have htoken := (Lexeme.like_iff.1 hlike).1
    rw [← Cursor.token_eq hx, hword] at htoken
    exact (Cursor.token_eq hx').trans htoken
  have hdepth : d.step.step.depth = 0 := by
    rw [Cursor.depth_step, Cursor.depth_step, ← hd]
    rfl
  have hrest : d.step.step.rest ≤ Lexeme.weights w.right + 1 := by
    apply hleads.rest_le
    rw [← hd]
    exact Cursor.rest_ofTokens w.right
  obtain ⟨a, d', hclass, hend, hlike⟩ := classDef_right hword hleft hpos hrun hlast hlong hword'
    (by rw [hleads.tokens, hright]) hpos₂ hdepth hrest span
  have hitem := Grammar.moduleItem_exportDefault hexport hdefault hword' hclass
  have hstart : d.atEnd = false := by rw [Cursor.atEnd, hexport]; rfl
  rw [← hd] at hstart hitem
  exact ⟨a, _, _, Module.ofTokens_of_item hstart hitem hend, hlike⟩

end Window

section
variable {cs : List Char} {p : Mark} {whole ts front inner tail : List Lexeme} {x : Lexeme} {s : Span}

theorem Lexeme.Stream.ordered (hwhole : Scan.Scans cs p whole) (h : Stream whole ts) :
    (∀ x ∈ ts, x.1.isEof = false → x.2.start < x.2.stop) ∧
      ts.Pairwise fun x y => x.2.stop ≤ y.2.start := by
  obtain ⟨_, inner, _, q, us, _, _, hscans, hus, _⟩ := h.scans hwhole
  obtain ⟨hlong, hordered⟩ := hscans.ordered
  have hsub : ts.Sublist us := by
    rcases hus with rfl | ⟨e, rfl⟩
    · exact List.Sublist.refl us
    · exact List.sublist_append_left ts _
  exact ⟨fun x hx => (hlong x (hsub.subset hx)).2.2, hordered.sublist hsub⟩

/-- The text of tokens of a stream up to a closing brace has them for tokens wherever it stands. -/
theorem Lexeme.Stream.text (hwhole : Scan.Scans cs p whole)
    (h : Stream whole (front ++ (x :: (inner ++ [(.punct .rightBrace, s)]) ++ tail))) :
    ∃ u v w, cs = u ++ (v ++ ['}']) ++ w ∧ x.2.start = p.offset + byteLength u ∧
      s.stop = x.2.start + byteLength (v ++ ['}']) ∧
      (∀ k, x.1 = .keyword k → k.text.toList <+: v ++ ['}']) ∧
      ∀ q : Mark, ∃ group e, Scan.Scans (v ++ ['}']) q (group ++ [(.eof, e)]) ∧
        Lexeme.AllLike (fun _ _ => True) (x :: (inner ++ [(.punct .rightBrace, s)])) group := by
  obtain ⟨a, _, b, q, us, hcs, hq, hscans, hus, _⟩ := h.scans hwhole
  obtain ⟨behind, hus⟩ : ∃ behind,
      us = front ++ x :: (inner ++ (.punct .rightBrace, s) :: behind) := by
    rcases hus with rfl | ⟨e, rfl⟩
    · exact ⟨tail, by simp⟩
    · exact ⟨tail ++ [(.eof, e)], by simp⟩
  obtain ⟨u, v, w, rfl, hstart, hstop, hword, hagain⟩ := hscans.text hus
  refine ⟨a ++ u, v, w ++ b, by rw [hcs]; simp, ?_, hstop, hword, hagain⟩
  rw [hstart, hq, byteLength_append, Nat.add_assoc]

/-- From `class` to a closing brace, the tokens of a stream are those of the text at their span. -/
theorem Lexeme.Stream.classText {source : String} {s' : Span}
    (hwhole : Scan.Scans source.toList (Mark.origin 0) whole)
    (h : Stream whole
      (front ++ ((.keyword .kwClass, s) :: (inner ++ [(.punct .rightBrace, s')]) ++ tail))) :
    ∃ slice, slice? source (s.through s').start (s.through s').stop = some slice ∧
      "class".toList <+: slice.toList ∧ slice.toList.getLast? = some '}' ∧
      ∀ q : Mark, ∃ group e, Scan.Scans slice.toList q (group ++ [(.eof, e)]) ∧
        Lexeme.AllLike (fun _ _ => True)
          ((.keyword .kwClass, s) :: (inner ++ [(.punct .rightBrace, s')])) group := by
  obtain ⟨u, v, w, hsource, hstart, hstop, hword, hagain⟩ := h.text hwhole
  obtain ⟨hlong, hordered⟩ := h.ordered hwhole
  replace hordered := (List.pairwise_append.1 hordered).2.1
  replace hlong := fun x hx => hlong x (List.mem_append_right _ hx)
  have hspan : (s.through s').start = byteLength u ∧
      (s.through s').stop = byteLength u + byteLength (v ++ ['}']) := by
    have hfirst := (List.pairwise_cons.1 (List.pairwise_append.1 hordered).1).1
      (.punct .rightBrace, s') (by simp)
    have hs := hlong (.keyword .kwClass, s) (by simp) rfl
    have hs' := hlong (.punct .rightBrace, s') (by simp) rfl
    have horigin : (Mark.origin 0).offset = 0 := rfl
    rw [Span.start_through, Span.stop_through]
    dsimp only at hfirst hs hs' hstart hstop
    omega
  have hslice := slice?_append hsource
  have htext : (String.ofList (v ++ ['}'])).toList = v ++ ['}'] := String.toList_ofList
  rw [← hspan.2, ← hspan.1] at hslice
  generalize String.ofList (v ++ ['}']) = slice at hslice htext
  rw [← htext] at hword hagain
  exact ⟨slice, hslice, hword .kwClass rfl, by rw [htext, List.getLast?_concat], hagain⟩

end

theorem Scan.Scans.exportDefault {cs : List Char} {inside : List Lexeme}
    (h : ∀ q, ∃ group e, Scans cs q (group ++ [(.eof, e)]) ∧
      Lexeme.AllLike (fun _ _ => True) inside group) :
    ∃ s₁ s₂ group e, Scans ("export default ".toList ++ cs) (Mark.origin 0)
        ((.keyword .kwExport, s₁) :: (.keyword .kwDefault, s₂) :: (group ++ [(.eof, e)])) ∧
      Lexeme.AllLike (fun _ _ => True) inside group := by
  let p₁ := (Mark.origin 0).after "export".toList
  let p₂ := (p₁.next ' ').after "default".toList
  obtain ⟨group, e, hgroup, hlike⟩ := h (p₂.next ' ')
  have hblank : Scans (' ' :: cs) p₂ _ := .gap (.blank rfl) hgroup
  have hdefault : Scans ("default".toList ++ ' ' :: cs) (p₁.next ' ') _ :=
    .token (t := .keyword .kwDefault) (.piece rfl rfl) hblank
  have hblank' : Scans (' ' :: ("default".toList ++ ' ' :: cs)) p₁ _ := .gap (.blank rfl) hdefault
  have hexport : Scans ("export".toList ++ ' ' :: ("default".toList ++ ' ' :: cs)) (Mark.origin 0) _ :=
    .token (t := .keyword .kwExport) (.piece rfl rfl) hblank'
  exact ⟨_, _, group, e, hexport, hlike⟩

theorem Module.ofSource_eq_ok {source : String} {ts : List Lexeme} {m : Module}
    (hscan : Scan.Scans source.toList (Mark.origin 0) ts) (hm : Module.ofTokens ts = .ok m) :
    Module.ofSource source = .ok m := by
  rw [ofSource, Token.scan_eq_ok.2 hscan]
  dsimp only
  rw [hm]

theorem Module.scans_of_ofSource {source : String} {m : Module} (h : ofSource source = .ok m) :
    ∃ ts, Scan.Scans source.toList (Mark.origin 0) ts ∧ ofTokens ts = .ok m := by
  unfold ofSource at h
  split at h
  · cases h
  · next ts hscan =>
    split at h
    · next m' hm =>
      cases h
      exact ⟨ts, Token.scan_eq_ok.1 hscan, hm⟩
    · cases h

theorem Module.Has.classText {source : String} {m : Module} {c : ClassDef}
    (hm : Module.ofSource source = .ok m) (hc : m.Has (.classOf c)) :
    ∃ slice, slice? source c.span.start c.span.stop = some slice ∧
      "class".toList <+: slice.toList ∧ slice.toList.getLast? = some '}' := by
  obtain ⟨ts, hscans, hm⟩ := Module.scans_of_ofSource hm
  obtain ⟨n, start, stop, hpart, hrest, hrun⟩ :=
    hc.known (Likeness.origin_kept hscans) (Lexeme.partOf_self hscans) hm
  obtain ⟨before, s, inner, s', after, htokens, _, _, inside, last, _, _, rfl⟩ :=
    Grammar.classDef_tokens hrest hrun
  rw [htokens] at hpart
  obtain ⟨front, after', rest, hstream, _⟩ := hpart.exists_stream
    (x := (.punct .rightBrace, s')) (by simp [List.getLast?_cons, List.getLast?_append]) rfl
  obtain ⟨slice, hslice, hword, hend, _⟩ := hstream.classText hscans
  exact ⟨slice, hslice, hword, hend⟩

/-- Whether a source is a module whose first node at a depth is a class with a property. -/
def classAt (source : String) (k : Nat) (P : List Lexeme → ClassDef → Bool) : Bool :=
  match Token.scan source with
  | .ok ts =>
    match Module.ofTokens ts with
    | .ok m =>
      match m.nodesAt k with
      | .classOf c :: _ => P ts c
      | _ => false
    | .error _ => false
  | .error _ => false

theorem exists_of_classAt {source : String} {k : Nat} {P : List Lexeme → ClassDef → Bool}
    (h : classAt source k P = true) :
    ∃ ts m c, Token.scan source = .ok ts ∧ Module.ofTokens ts = .ok m ∧ m.Has (.classOf c) ∧
      P ts c = true := by
  rw [classAt] at h
  split at h
  · next ts hts =>
    split at h
    · next m hm =>
      split at h
      · next c _ hc =>
        exact ⟨ts, m, c, hts, hm, Module.has_iff_nodesAt.2 ⟨k, by simp [hc]⟩, h⟩
      · cases h
    · cases h
  · cases h

/--
The span of a class is its text, wherever the class stands. Exported by default on its own, the text
is read as a module that has this class and nothing else, if the heads of the arrow functions in the
class are seen to close in it.
-/
theorem class_text_reads_back {source : String} {ts : List Lexeme} {m : Module} {c : ClassDef}
    (hscan : Token.scan source = .ok ts) (hm : Module.ofTokens ts = .ok m)
    (hc : m.Has (.classOf c)) :
    ∃ slice, slice? source c.span.start c.span.stop = some slice ∧
      "class".toList <+: slice.toList ∧ slice.toList.getLast? = some '}' ∧
      (ArrowsClose ts c.span → ∃ c' s s', Module.ofSource ("export default " ++ slice) =
        .ok ⟨[.exportDefault (.classOf c') s], s'⟩ ∧ c.Like .upToSpans c') := by
  have hscans := Token.scan_eq_ok.1 hscan
  -- the tokens that the class was read from, and where they stand in the text
  obtain ⟨n, start, stop, hpart, hrest, hrun⟩ :=
    hc.known (Likeness.origin_kept hscans) (Lexeme.partOf_self hscans) hm
  obtain ⟨before, s, inner, s', after, htokens, hafter, hpos, inside, last, hinside, hlast, rfl⟩ :=
    Grammar.classDef_tokens hrest hrun
  rw [htokens] at hpart
  have hbrace : ((.keyword .kwClass, s) :: (inner ++ [(.punct .rightBrace, s')])).getLast? =
      some (Token.punct .rightBrace, s') := by
    simp [List.getLast?_cons, List.getLast?_append]
  obtain ⟨front, after', rest, hstream, hafter'⟩ := hpart.exists_stream hbrace rfl
  obtain ⟨slice, hslice, hword, hend, hagain⟩ := hstream.classText hscans
  refine ⟨slice, hslice, hword, hend, fun hclose => ?_⟩
  obtain ⟨hlong, hordered⟩ := hstream.ordered hscans
  replace hordered := (List.pairwise_append.1 hordered).2.1
  replace hlong := fun x hx => hlong x (List.mem_append_right _ hx)
  obtain ⟨s₁, s₂, group, e, hscans', hlike⟩ := Scan.Scans.exportDefault hagain
  rw [← String.toList_append] at hscans'
  let w : Window :=
    { before, after, front := [(.keyword .kwExport, s₁), (.keyword .kwDefault, s₂)]
      inside := (.keyword .kwClass, s) :: (inner ++ [(.punct .rightBrace, s')])
      inside' := group, back := e, like := hlike, brace := ⟨s', hbrace⟩, after_ne_nil := hafter
      arrows := fun i j k p hparen hreads _ hout hfound x hx =>
        hclose.not_arrow rfl hstream hordered hlong hafter' hparen hreads hout hfound hx }
  have hfirst : start.tokens.toList[start.pos]? = some (.keyword .kwClass, s) := by
    rw [htokens, hpos, List.getElem?_append_right (Nat.le_refl _), Nat.sub_self]
    rfl
  have hlength : w.inside.length = inner.length + 2 := by simp [w]
  obtain ⟨c', s₃, s₄, hmodule, hlike'⟩ := Window.ofTokens_right (w := w)
    (Cursor.token_eq hfirst) htokens hpos hinside (by rw [hlast, hlength]; rfl) (by omega) rfl
    (s.through s')
  exact ⟨c', s₃, s₄, Module.ofSource_eq_ok hscans' hmodule, hlike'⟩

/-- A class in a template in the body of a function. -/
theorem class_text_reads_back_inTemplate :
    let source := "function f() \x7b return `$\x7bclass A \x7b x = (a) => a; \x7d\x7d`; \x7d"
    let slice := "class A \x7b x = (a) => a; \x7d"
    ∃ ts m c c' s s', Token.scan source = .ok ts ∧ Module.ofTokens ts = .ok m ∧
      m.Has (.classOf c) ∧ ArrowsClose ts c.span ∧
      slice? source c.span.start c.span.stop = some slice ∧
      Module.ofSource ("export default " ++ slice) = .ok ⟨[.exportDefault (.classOf c') s], s'⟩ ∧
      c.Like .upToSpans c' := by
  intro source slice
  have hcheck : classAt source 5 (fun ts c =>
      (ts :: Lexeme.nested ts).all (·.tails.all fun us =>
        (arrowHead? us).all (·.2.stop ≤ c.span.stop)) &&
      slice? source c.span.start c.span.stop == some slice) = true := by
    decide +kernel
  obtain ⟨ts, m, c, hscan, hm, hc, hcheck⟩ := exists_of_classAt hcheck
  rw [Bool.and_eq_true, List.all_eq_true] at hcheck
  have hslice : slice? source c.span.start c.span.stop = some slice := by simpa using hcheck.2
  have hclose : ArrowsClose ts c.span := by
    intro us hus before inside after hparts _ _ head hhead
    have htails := List.all_eq_true.1 (hcheck.1 us hus) (inside ++ after)
      ((List.mem_tails _ _).2 ⟨before, hparts.symm⟩)
    rw [Option.mem_def.1 hhead] at htails
    simpa using htails
  obtain ⟨slice', hslice', _, _, hreread⟩ := class_text_reads_back hscan hm hc
  obtain rfl : slice = slice' := Option.some.inj (hslice.symm.trans hslice')
  obtain ⟨c', s, s', hmodule, hlike⟩ := hreread hclose
  exact ⟨ts, m, c, c', s, s', hscan, hm, hc, hclose, hslice, hmodule, hlike⟩

/--
The default of a parameter has a parenthesis in its body that only the next function closes. Without
that function what was the head of an arrow function is an expression in parentheses.
-/
theorem class_text_not_read_alone :
    let source := "class A \x7b x = (a = function()\x7b ( \x7d) => 1; \x7d function f() \x7b ) => \x7d"
    ∃ ts m c slice e, Token.scan source = .ok ts ∧ Module.ofTokens ts = .ok m ∧
      m.Has (.classOf c) ∧ slice? source c.span.start c.span.stop = some slice ∧
      Module.ofSource ("export default " ++ slice) = .error e := by
  intro source
  let slice := "class A \x7b x = (a = function()\x7b ( \x7d) => 1; \x7d"
  have hcheck : classAt source 1 (fun _ c =>
      slice? source c.span.start c.span.stop == some slice) = true := by
    decide +kernel
  obtain ⟨ts, m, c, hscan, hm, hc, hslice⟩ := exists_of_classAt hcheck
  have hfails : (Module.ofSource ("export default " ++ slice)).isOk = false := by decide +kernel
  cases hmodule : Module.ofSource ("export default " ++ slice) with
  | error e => exact ⟨ts, m, c, slice, e, hscan, hm, hc, by simpa using hslice, hmodule⟩
  | ok m' =>
    rw [hmodule] at hfails
    cases hfails

end Typings
