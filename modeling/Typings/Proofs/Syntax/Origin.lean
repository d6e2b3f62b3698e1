import Typings.Proofs.Syntax.Parts
import Typings.Proofs.Syntax.Window
import Typings.Proofs.Token.Extent

namespace Typings

/-- The tokens of a text, or those of a substitution at any depth. -/
inductive Lexeme.Stream (whole : List Lexeme) : List Lexeme → Prop
  | self : Stream whole whole
  | part {ts us : List Lexeme} {parts : List TemplatePart} {s : Span} (h : Stream whole ts)
      (hparts : (.template parts, s) ∈ ts) (hus : .substitution us ∈ parts) : Stream whole us

namespace Lexeme

variable {cs : List Char} {p : Mark} {whole ts us : List Lexeme}

/--
A stream is what a part of the text has for tokens, with or without the end. Lines and columns of a
substitution are counted from its own start.
-/
theorem Stream.scans (hwhole : Scan.Scans cs p whole) (h : Stream whole ts) :
    ∃ a inner b q us, cs = a ++ inner ++ b ∧ q.offset = p.offset + byteLength a ∧
      Scan.Scans inner q us ∧ (us = ts ∨ ∃ e, us = ts ++ [(.eof, e)]) ∧
      (ts = whole ∧ a = [] ∧ b = [] ∧ q = p ∨
        ['$', '{'] <:+ a ∧ ['}'] <+: b ∧ q = Mark.origin q.offset) := by
  induction h with
  | self => exact ⟨[], cs, [], p, whole, by simp, rfl, hwhole, .inl rfl, .inl ⟨rfl, rfl, rfl, rfl⟩⟩
  | @part ts us parts s _ hparts hus ih =>
    obtain ⟨a, inner, b, q, vs, rfl, hq, hscans, hvs, _⟩ := ih
    have hmem : (.template parts, s) ∈ vs := by
      rcases hvs with rfl | ⟨e, rfl⟩
      · exact hparts
      · exact List.mem_append_left _ hparts
    obtain ⟨a', inner', b', e, rfl, hscans'⟩ := hscans.substitution hmem hus
    refine ⟨a ++ (a' ++ ['$', '{']), inner', '}' :: b' ++ b, _, _, by simp, ?_, hscans', .inr ⟨e, rfl⟩,
      .inr ⟨⟨a ++ a', by simp⟩, ⟨b' ++ b, rfl⟩, rfl⟩⟩
    rw [byteLength_append a]
    show q.offset + byteLength (a' ++ ['$', '{']) = _
    omega

theorem Stream.not_isEof (hwhole : Scan.Scans cs p whole) (h : Stream whole ts)
    {parts : List TemplatePart} {s : Span} (hparts : (.template parts, s) ∈ ts)
    (hus : .substitution us ∈ parts) : ∀ x ∈ us, x.1.isEof = false := by
  obtain ⟨a, inner, b, q, vs, rfl, hq, hscans, hvs, _⟩ := h.scans hwhole
  have hmem : (.template parts, s) ∈ vs := by
    rcases hvs with rfl | ⟨e, rfl⟩
    · exact hparts
    · exact List.mem_append_left _ hparts
  obtain ⟨_, _, _, e, _, hscans'⟩ := hscans.substitution hmem hus
  obtain ⟨us', e', heq, hus'⟩ := hscans'.eof_last
  obtain ⟨rfl, _⟩ := List.append_inj' heq rfl
  exact hus'

/-- A part of a stream, with or without an end behind it. -/
def PartOf (whole ts : List Lexeme) : Prop :=
  ∃ full us, Stream whole full ∧ us <:+: full ∧ (∀ x ∈ us, x.1.isEof = false) ∧
    (ts = us ∨ ∃ e, ts = us ++ [(.eof, e)])

theorem partOf_self (hwhole : Scan.Scans cs p whole) : PartOf whole whole := by
  obtain ⟨us, e, heq, hus⟩ := hwhole.eof_last
  exact ⟨whole, us, .self, ⟨[], [(.eof, e)], by simp [heq]⟩, hus, .inr ⟨e, heq⟩⟩

theorem PartOf.terminated (h : PartOf whole ts) : PartOf whole (Cursor.terminated ts) := by
  obtain ⟨full, us, hfull, hus, heof, hts⟩ := h
  refine ⟨full, us, hfull, hus, heof, .inr ?_⟩
  rcases hts with rfl | ⟨e, rfl⟩
  · cases hlast : ts.getLast? with
    | none =>
      obtain rfl := List.getLast?_eq_none_iff.1 hlast
      exact ⟨_, rfl⟩
    | some x =>
      obtain ⟨t, s⟩ := x
      have ht := heof _ (List.mem_of_getLast? hlast)
      rw [Cursor.terminated_of_getLast? hlast, if_neg (by simp [ht])]
      exact ⟨_, rfl⟩
  · refine ⟨e, ?_⟩
    rw [Cursor.terminated, List.getLast?_concat]

theorem PartOf.infix (h : PartOf whole ts) (hus : us <:+: ts) : PartOf whole us := by
  obtain ⟨full, vs, hfull, hvs, heof, hts⟩ := h
  have hbefore : us <:+: vs → PartOf whole us := fun hus =>
    ⟨full, us, hfull, hus.trans hvs, fun x hx => heof x (hus.subset hx), .inl rfl⟩
  rcases hts with rfl | ⟨e, rfl⟩
  · exact hbefore hus
  · rcases List.infix_concat_iff.1 hus with hsuffix | hus
    · rcases List.suffix_concat_iff.1 hsuffix with rfl | ⟨t, rfl, ht⟩
      · exact hbefore (List.nil_infix)
      · exact ⟨full, t, hfull, ht.isInfix.trans hvs, fun x hx => heof x (ht.subset hx), .inr ⟨e, rfl⟩⟩
    · exact hbefore hus

theorem PartOf.part (hwhole : Scan.Scans cs p whole) (h : PartOf whole ts)
    {parts : List TemplatePart} {s : Span} (hparts : (.template parts, s) ∈ ts)
    (hus : .substitution us ∈ parts) : PartOf whole us := by
  obtain ⟨full, vs, hfull, hvs, heof, hts⟩ := h
  have hmem : (.template parts, s) ∈ full := by
    apply hvs.subset
    rcases hts with rfl | ⟨e, rfl⟩
    · exact hparts
    · simpa using hparts
  exact ⟨us, us, .part hfull hmem hus, List.infix_refl _, hfull.not_isEof hwhole hmem hus, .inl rfl⟩

end Lexeme

/-- What is known of a class: the tokens that it was read from. -/
def Likeness.origin (whole : List Lexeme) : Likeness where
  span _ _ := True
  source := Lexeme.PartOf whole
  known c := ∃ (n : Nat) (start stop : Cursor), Lexeme.PartOf whole start.tokens.toList ∧
    start.rest ≤ n + 1 ∧ (Grammar.levels n).classDef start = (.ok c, stop)
  body _ _ _ := True

theorem Likeness.origin_kept {cs : List Char} {p : Mark} {whole : List Lexeme}
    (hwhole : Scan.Scans cs p whole) : (origin whole).Kept where
  terminated h := h.terminated
  among hus h := h.infix hus
  substitution h hparts hus := h.part hwhole hparts hus
  known hsource hrest hrun := ⟨_, _, _, hsource, hrest, hrun⟩

theorem Cursor.pos_step {c : Cursor} (h : c.token.isEof = false) : c.step.pos = c.pos + 1 := by
  rw [step, dif_pos (succ_pos_lt h)]

theorem Cursor.previousSpan_step {c : Cursor} (h : c.token.isEof = false) :
    c.step.previousSpan = c.span := by
  have hlexeme : c.step.tokens.toList[c.step.pos - 1]? = some c.lexeme := by
    rw [c.leads_step.tokens, pos_step h, Nat.add_sub_cancel, getElem?_pos]
  exact previousSpan_eq hlexeme

theorem Token.eq_of_isWord {t : Token} {k : Keyword} (h : t.isWord k = true) : t = .keyword k := by
  cases t with
  | keyword l =>
    obtain rfl : l = k := by simpa [Token.isWord] using h
    rfl
  | _ => cases h

theorem Token.eq_of_isPunct {t : Token} {p : Punct} (h : t.isPunct p = true) : t = .punct p := by
  cases t with
  | punct q =>
    obtain rfl : q = p := by simpa [Token.isPunct] using h
    rfl
  | _ => cases h

namespace Parse

theorem expectKeyword_run_ok {k : Keyword} {u : Unit} {c c' : Cursor}
    (h : expectKeyword k c = (.ok u, c')) : c.token = .keyword k ∧ c' = c.step := by
  have hat : atKeyword k c = (.ok (c.token.isWord k), c) := rfl
  cases hk : c.token.isWord k with
  | true =>
    rw [hk] at hat
    have heat : eatKeyword k c = (.ok true, c.step) := bind_ok hat
    rw [expectKeyword, bind_ok heat] at h
    cases h
    exact ⟨Token.eq_of_isWord hk, rfl⟩
  | false =>
    rw [hk] at hat
    have heat : eatKeyword k c = (.ok false, c) := bind_ok hat
    rw [expectKeyword, bind_ok heat] at h
    cases h

theorem expectKeyword_eq_ok {k : Keyword} {c : Cursor} (h : c.token = .keyword k) :
    expectKeyword k c = (.ok (), c.step) := by
  have hat : atKeyword k c = (.ok true, c) := by
    show ((.ok (c.token.isWord k), c) : Except ParseError Bool × Cursor) = _
    rw [h]
    simp [Token.isWord]
  have heat : eatKeyword k c = (.ok true, c.step) := bind_ok hat
  exact bind_ok heat

end Parse

open Parse

theorem Grammar.classDef_run_ok {n : Nat} {c c' : Cursor} {a : ClassDef} (hc : c.rest ≤ n + 1)
    (h : (levels n).classDef c = (.ok a, c')) :
    ∃ inside last, c.token = .keyword .kwClass ∧
      classInside (levels n) c.step = (.ok inside, last) ∧ c.step.Leads last ∧
      last.token = .punct .rightBrace ∧ a = classOf inside (c.span.through last.span) := by
  obtain ⟨hread, hends⟩ := passes_classDef (levels_sound n) hc
  rw [h] at hread hends
  have hpos : c.pos < c'.pos := hends
  rw [classDef_eq] at h
  obtain ⟨_, _, hhere, h⟩ := bind_run_ok h
  cases hhere
  obtain ⟨_, _, hword, h⟩ := bind_run_ok h
  obtain ⟨hclass, rfl⟩ := expectKeyword_run_ok hword
  obtain ⟨inside, last, hinside, h⟩ := bind_run_ok h
  obtain ⟨_, _, hexpect, h⟩ := bind_run_ok h
  obtain ⟨hbrace, rfl⟩ := expect_run_ok hexpect
  obtain ⟨_, _, hprevious, h⟩ := bind_run_ok h
  cases hprevious
  cases h
  have hbrace := Token.eq_of_isPunct hbrace
  have heof : c.token.isEof = false := by rw [hclass]; rfl
  have heof' : last.token.isEof = false := by rw [hbrace]; rfl
  have htokens : last.tokens = c.tokens := last.leads_step.tokens.symm.trans hread.tokens
  have hleads : c.step.Leads last := by
    refine ⟨htokens.trans c.leads_step.tokens.symm, ?_⟩
    rw [Cursor.pos_step heof]
    rw [Cursor.pos_step heof'] at hpos
    -- the first word is no brace
    have hne : last.pos ≠ c.pos := fun hsame => by
      have hx := last.getElem?_pos
      rw [htokens, hsame, c.getElem?_pos] at hx
      have htoken : c.token = last.token := congrArg Prod.fst (Option.some.inj hx)
      rw [hclass, hbrace] at htoken
      cases htoken
    omega
  refine ⟨inside, last, hclass, hinside, hleads, hbrace, ?_⟩
  rw [Cursor.previousSpan_step heof']

theorem eq_append_of_getElem? {α : Type} {xs : List α} {i n : Nat} {x y : α} (hx : xs[i]? = some x)
    (hy : xs[i + 1 + n]? = some y) :
    xs = xs.take i ++ (x :: ((xs.drop (i + 1)).take n ++ [y]) ++ xs.drop (i + 1 + n + 1)) := by
  obtain ⟨hi, rfl⟩ := List.getElem?_eq_some_iff.1 hx
  obtain ⟨hn, rfl⟩ := List.getElem?_eq_some_iff.1 hy
  have hfirst : xs = xs.take i ++ xs[i] :: xs.drop (i + 1) := by
    rw [← List.drop_eq_getElem_cons hi, List.take_append_drop]
  have hsecond : xs.drop (i + 1) = (xs.drop (i + 1)).take n ++
      xs[i + 1 + n] :: xs.drop (i + 1 + n + 1) := by
    have hdrop : xs.drop (i + 1 + n) = (xs.drop (i + 1)).drop n := (List.drop_drop ..).symm
    rw [← List.drop_eq_getElem_cons hn, hdrop, List.take_append_drop]
  rw [List.cons_append, List.append_assoc, List.cons_append, List.nil_append, ← hsecond]
  exact hfirst

theorem Grammar.classDef_tokens {n : Nat} {c c' : Cursor} {a : ClassDef} (hc : c.rest ≤ n + 1)
    (h : (levels n).classDef c = (.ok a, c')) :
    ∃ before s inner s' after, c.tokens.toList =
        before ++ ((.keyword .kwClass, s) :: (inner ++ [(.punct .rightBrace, s')]) ++ after) ∧
      after ≠ [] ∧ c.pos = before.length ∧
      ∃ inside last, classInside (levels n) c.step = (.ok inside, last) ∧
        last.pos = before.length + inner.length + 1 ∧ a = classOf inside (s.through s') := by
  obtain ⟨inside, last, hclass, hinside, hleads, hbrace, rfl⟩ := classDef_run_ok hc h
  have heof : c.token.isEof = false := by rw [hclass]; rfl
  have heof' : last.token.isEof = false := by rw [hbrace]; rfl
  have htokens : last.tokens = c.tokens := hleads.tokens.trans c.leads_step.tokens
  obtain ⟨n, hn⟩ : ∃ n, last.pos = c.pos + 1 + n := by
    have := hleads.pos_le
    rw [Cursor.pos_step heof] at this
    exact ⟨last.pos - (c.pos + 1), by omega⟩
  have hfirst : c.tokens.toList[c.pos]? = some (.keyword .kwClass, c.span) := by
    rw [c.getElem?_pos, ← hclass]
    rfl
  have hlast : c.tokens.toList[c.pos + 1 + n]? = some (.punct .rightBrace, last.span) := by
    rw [← hn, ← htokens, last.getElem?_pos, ← hbrace]
    rfl
  have hsize := Cursor.succ_pos_lt heof'
  rw [htokens, hn, ← Array.length_toList] at hsize
  refine ⟨_, c.span, _, last.span, _, eq_append_of_getElem? hfirst hlast, ?_, ?_, inside, last,
    hinside, ?_, rfl⟩
  · rw [ne_eq, List.drop_eq_nil_iff]
    omega
  · rw [List.length_take]
    omega
  · rw [List.length_take, List.length_take, List.length_drop]
    omega

/-- Tokens that were read stand in a stream of the text, before the same tokens up to an end. -/
theorem Lexeme.PartOf.exists_stream {whole before group after : List Lexeme} {x : Lexeme}
    (h : PartOf whole (before ++ (group ++ after))) (hlast : group.getLast? = some x)
    (hx : x.1.isEof = false) :
    ∃ front after' rest, Stream whole (front ++ (group ++ (after' ++ rest))) ∧
      (after = after' ∨ ∃ e, after = after' ++ [(.eof, e)]) := by
  obtain ⟨full, us, hfull, ⟨front, rest, rfl⟩, heof, heq | ⟨e, heq⟩⟩ := h
  · subst heq
    refine ⟨front ++ before, after, rest, ?_, .inl rfl⟩
    simpa using hfull
  · rcases List.eq_nil_or_concat after with rfl | ⟨after', y, rfl⟩
    · have hend := congrArg List.getLast? heq
      rw [List.append_nil, List.getLast?_append, hlast, List.getLast?_concat] at hend
      cases hend
      cases hx
    · have hsplit : before ++ (group ++ after') ++ [y] = us ++ [(.eof, e)] := by simpa using heq
      obtain ⟨rfl, hy⟩ := List.append_inj' hsplit rfl
      cases hy
      refine ⟨front ++ before, after', rest, ?_, .inr ⟨e, by simp⟩⟩
      simpa using hfull

end Typings
