import Typings.Proofs.Syntax.Likeness
import Typings.Proofs.Token.Scanning

namespace Typings

theorem byteLength_pos {cs : List Char} (h : cs ≠ []) : 0 < byteLength cs := by
  obtain ⟨c, cs, rfl⟩ := List.exists_cons_of_ne_nil h
  have := c.utf8Size_pos
  simp only [byteLength_cons]
  omega

theorem dropBytes?_append (a b : List Char) : dropBytes? (byteLength a) (a ++ b) = some b := by
  induction a with
  | nil => rw [byteLength_nil, dropBytes?, List.nil_append]
  | cons c a ih =>
    obtain ⟨n, hn⟩ := Nat.exists_eq_add_of_lt (byteLength_pos (List.cons_ne_nil c a))
    rw [Nat.zero_add] at hn
    rw [hn, List.cons_append, dropBytes?, ← hn, byteLength_cons, if_pos (Nat.le_add_right ..),
      Nat.add_sub_cancel_left, ih]

theorem takeBytes?_append (a b : List Char) : takeBytes? (byteLength a) (a ++ b) = some a := by
  induction a with
  | nil => rw [byteLength_nil, takeBytes?]
  | cons c a ih =>
    obtain ⟨n, hn⟩ := Nat.exists_eq_add_of_lt (byteLength_pos (List.cons_ne_nil c a))
    rw [Nat.zero_add] at hn
    rw [hn, List.cons_append, takeBytes?, ← hn, byteLength_cons, if_pos (Nat.le_add_right ..),
      Nat.add_sub_cancel_left, ih]
    rfl

theorem slice?_append {text : String} {a b c : List Char} (h : text.toList = a ++ b ++ c) :
    slice? text (byteLength a) (byteLength a + byteLength b) = some (String.ofList b) := by
  rw [slice?, if_neg (by omega), h, List.append_assoc, Nat.add_sub_cancel_left]
  simp [dropBytes?_append, takeBytes?_append]

namespace Mark

theorem offset_after (p : Mark) (cs : List Char) : (p.after cs).offset = p.offset + byteLength cs := by
  induction cs generalizing p with
  | nil => rfl
  | cons c cs ih =>
    have hnext : (p.next c).offset = p.offset + c.utf8Size := by
      unfold next
      split <;> rfl
    show ((p.next c).after cs).offset = _
    rw [ih, hnext, byteLength_cons, Nat.add_assoc]

theorem offset_afterBytes (p : Mark) (cs : List Char) :
    (p.afterBytes cs).offset = p.offset + byteLength cs := by
  induction cs generalizing p with
  | nil => rfl
  | cons c cs ih =>
    have hnext : (p.nextBytes c).offset = p.offset + c.utf8Size := by
      unfold nextBytes
      split
      · rename_i hc
        obtain rfl : c = '\n' := by simpa using hc
        rfl
      · rfl
    show ((p.nextBytes c).afterBytes cs).offset = _
    rw [ih, hnext, byteLength_cons, Nat.add_assoc]

theorem line_after (p : Mark) (cs : List Char) : (p.after cs).line = p.line + cs.count '\n' := by
  induction cs generalizing p with
  | nil => rfl
  | cons c cs ih =>
    show ((p.next c).after cs).line = _
    rw [ih, next]
    by_cases hc : c = '\n'
    · simp [hc]
      omega
    · simp [hc]

theorem line_afterBytes (p : Mark) (cs : List Char) :
    (p.afterBytes cs).line = p.line + cs.count '\n' := by
  induction cs generalizing p with
  | nil => rfl
  | cons c cs ih =>
    show ((p.nextBytes c).afterBytes cs).line = _
    rw [ih, nextBytes]
    by_cases hc : c = '\n'
    · simp [hc]
      omega
    · simp [hc]

end Mark

namespace Lexeme

variable {S : Span → Span → Prop} {k k' : Nat} {ts ts' : List Lexeme}

theorem Shifted.withoutEof (h : Shifted S k k' ts ts') :
    Shifted S k k' (ts.filter (!·.1.isEof)) (ts'.filter (!·.1.isEof)) := by
  rw [shifted_eq] at h ⊢
  refine List.rel_filter (fun x x' hx => ?_) h
  have heof := (like_iff.1 hx).1.isEof
  show (!x.1.isEof) = true ↔ (!x'.1.isEof) = true
  rw [heof]

theorem Shifted.rebase {l l' : Nat} (h : Shifted S k k' ts ts') (hk : k + l' = l + k') :
    Shifted S l l' ts ts' := by
  rw [shifted_eq] at h ⊢
  refine h.imp fun x x' hx => ?_
  obtain ⟨ht, hs, hline⟩ := like_iff.1 hx
  exact like_iff.2 ⟨ht, hs, by omega⟩

end Lexeme

namespace Scan

variable {cs rest u v w : List Char} {p p' q : Mark} {t : Token} {ts : List Lexeme} {o : Nat}

theorem Gap.offset (h : Gap rest p u p') : p'.offset = p.offset + byteLength u := by
  cases h with
  | @blank c h => exact Mark.offset_after p [c]
  | line | block => exact Mark.offset_afterBytes ..
  | byteOrder => rfl

theorem Gap.ne_nil (h : Gap rest p u p') : u ≠ [] := by
  cases h <;> simp

theorem Gap.move (h : Gap rest p u p') (q : Mark) :
    ∃ q', Gap rest q u q' ∧ p'.line + q.line = q'.line + p.line := by
  cases h with
  | @blank c h =>
    refine ⟨_, .blank h, ?_⟩
    have hp := Mark.line_after p [c]
    have hq := Mark.line_after q [c]
    simp only [Mark.after, List.foldl_cons, List.foldl_nil] at hp hq
    omega
  | line hbody hrest =>
    refine ⟨_, .line hbody hrest, ?_⟩
    rw [Mark.line_afterBytes, Mark.line_afterBytes]
    omega
  | block h =>
    refine ⟨_, .block h, ?_⟩
    rw [Mark.line_afterBytes, Mark.line_afterBytes]
    omega
  | byteOrder => exact ⟨_, .byteOrder, Nat.add_comm ..⟩

theorem head?_brace (cs : List Char) : (cs ++ '}' :: w).head? = (cs ++ ['}']).head? := by
  cases cs <;> rfl

theorem Gap.cut (h : Gap (v ++ '}' :: w) p u p') : Gap (v ++ ['}']) p u p' := by
  cases h with
  | blank h => exact .blank h
  | line hbody hrest =>
    rw [head?_brace] at hrest
    exact .line hbody hrest
  | block h =>
    obtain ⟨_, _, _, hall⟩ := comment?_append h
    exact .block (hall _)
  | byteOrder => exact .byteOrder

theorem Lexed.ne_nil (h : Lexed rest o u t) : u ≠ [] := by
  cases h <;> simp

theorem Lexed.isEof (h : Lexed rest o u t) : t.isEof = false := by
  cases h with
  | piece hc h => exact (plain_of_piece h).1
  | template => rfl

/-- A token before a closing brace does not depend on what is behind the brace. -/
theorem Lexed.cut (h : Lexed (v ++ '}' :: w) o u t) : Lexed (v ++ ['}']) o u t := by
  cases h with
  | @piece c u t hc h =>
    have hstarts : startsPiece c (u ++ (v ++ ['}'])) = startsPiece c (u ++ (v ++ '}' :: w)) := by
      rw [startsPiece, startsPiece, ← List.append_assoc, ← List.append_assoc,
        head?_brace (w := w)]
    refine .piece (hstarts.trans hc) ?_
    by_cases hquote : c = '"' ∨ c = '\''
    · exact piece_quote hquote h
    · rw [not_or] at hquote
      rw [← List.append_assoc, piece_stop .brace hquote] at h ⊢
      exact h
  | template hending hparts =>
    obtain ⟨u', _, happend, hall⟩ := rawTemplate_append hending
    obtain rfl := List.append_cancel_right happend
    refine .template ?_ ?_
    · rw [hall]
    · rw [hall]
      exact hparts

theorem Lexed.text_punct {x : Punct} (h : Lexed rest o u (.punct x)) : u = x.text.toList := by
  cases h with
  | piece hc h => simpa using text_of_piece_punct h

theorem Lexed.text_keyword {x : Keyword} (h : Lexed rest o u (.keyword x)) :
    u = x.text.toList := by
  cases h with
  | piece hc h => simpa using text_of_piece_keyword h

/-- Pieces of a template that differ at most in their places. -/
inductive RawPart.SameText : RawPart → RawPart → Prop
  | text (raw : List Char) : SameText (.text raw) (.text raw)
  | substitution (o o' : Nat) (inner : List Char) :
      SameText (.substitution o inner) (.substitution o' inner)

theorem RawTemplate.sameText_pieces {r r' : RawTemplate} (hlead : r'.lead = r.lead)
    (hparts : List.Forall₂ RawPart.SameText r.parts r'.parts) :
    List.Forall₂ RawPart.SameText r.pieces r'.pieces := by
  rw [RawTemplate.pieces, RawTemplate.pieces, hlead]
  split
  · exact hparts
  · exact .cons (.text _) hparts

theorem rawTemplate_move (o o' : Nat) (cs : List Char) :
    (rawTemplate o' cs).lead = (rawTemplate o cs).lead ∧
      List.Forall₂ RawPart.SameText (rawTemplate o cs).parts (rawTemplate o' cs).parts ∧
      ∀ rest, (rawTemplate o cs).ending = .closed rest → (rawTemplate o' cs).ending = .closed rest := by
  fun_induction rawTemplate o cs generalizing o' with
  | case1 o | case3 o =>
    rw [rawTemplate]
    exact ⟨rfl, .nil, fun _ h => by cases h⟩
  | case2 o rest =>
    rw [rawTemplate]
    exact ⟨rfl, .nil, fun _ h => h⟩
  | case4 o c rest r ih =>
    obtain ⟨hlead, hparts, hending⟩ := ih (o' + 1 + c.utf8Size)
    rw [rawTemplate]
    exact ⟨by rw [hlead], hparts, hending⟩
  | case5 o rest hs =>
    rw [rawTemplate_openSubstitution hs]
    exact ⟨rfl, .nil, fun _ h => by cases h⟩
  | case6 o rest inner after hs r ih =>
    obtain ⟨hlead, hparts, hending⟩ := ih (o' + 3 + byteLength inner)
    rw [rawTemplate_substitution hs]
    exact ⟨rfl, .cons (.substitution ..) (RawTemplate.sameText_pieces hlead hparts), hending⟩
  | case7 o c rest hclose hlast hescape hopen r ih =>
    obtain ⟨hlead, hparts, hending⟩ := ih (o' + c.utf8Size)
    rw [rawTemplate.eq_6 _ _ _ hclose hlast hescape hopen]
    exact ⟨by rw [hlead], hparts, hending⟩

theorem mem_parts_of_mem_pieces {r : RawTemplate} {inner : List Char}
    (h : .substitution o inner ∈ r.pieces) : .substitution o inner ∈ r.parts := by
  rw [RawTemplate.pieces] at h
  split at h
  · exact h
  · simpa using h

/-- A substitution stands in the text of its template, behind `$` and a brace. -/
theorem append_of_mem_parts {start : Nat} {inner : List Char}
    (h : .substitution o inner ∈ (rawTemplate start cs).parts) :
    ∃ a b, cs = a ++ '$' :: '{' :: (inner ++ '}' :: b) ∧ o = start + byteLength a := by
  fun_induction rawTemplate start cs with
  | case1 | case2 | case3 | case5 => cases h
  | case4 start c rest r ih =>
    obtain ⟨a, b, rfl, ho⟩ := ih h
    refine ⟨'\\' :: c :: a, b, rfl, ?_⟩
    have hslash : '\\'.utf8Size = 1 := rfl
    simp only [byteLength_cons]
    omega
  | case6 start rest inner' after hs r ih =>
    obtain ⟨rfl, _⟩ := substitution?_append hs
    rcases List.mem_cons.1 h with heq | hmem
    · cases heq
      exact ⟨[], after, rfl, rfl⟩
    · obtain ⟨a, b, rfl, ho⟩ := ih (mem_parts_of_mem_pieces hmem)
      refine ⟨'$' :: '{' :: (inner' ++ '}' :: a), b, by simp, ?_⟩
      have hdollar : '$'.utf8Size = 1 := rfl
      have hopen : '{'.utf8Size = 1 := rfl
      have hclose : '}'.utf8Size = 1 := rfl
      simp only [byteLength_cons, byteLength_append]
      omega
  | case7 start c rest _ _ _ _ r ih =>
    obtain ⟨a, b, rfl, ho⟩ := ih h
    refine ⟨c :: a, b, rfl, ?_⟩
    simp only [byteLength_cons]
    omega

theorem append_of_mem_pieces {start : Nat} {inner : List Char}
    (hending : (rawTemplate start (u ++ rest)).ending = .closed rest)
    (h : .substitution o inner ∈ (rawTemplate start (u ++ rest)).pieces) :
    ∃ a b, u = a ++ '$' :: '{' :: (inner ++ '}' :: b) ∧ o = start + byteLength a := by
  obtain ⟨u', _, happend, hall⟩ := rawTemplate_append hending
  obtain rfl := List.append_cancel_right happend
  have hmem := mem_parts_of_mem_pieces h
  have hparts : (rawTemplate start u).parts = (rawTemplate start (u ++ rest)).parts := by
    have := hall []
    rw [List.append_nil] at this
    rw [this]
  rw [← hparts] at hmem
  exact append_of_mem_parts hmem

theorem exists_of_mem_reads {raws : List RawPart} {parts : List TemplatePart} {us : List Lexeme}
    (h : List.Forall₂ RawPart.Reads raws parts) (hus : .substitution us ∈ parts) :
    ∃ o inner ts, .substitution o inner ∈ raws ∧
      tokens inner (Mark.origin (o + 2)) = (ts, []) ∧ us = ts.filter (!·.1.isEof) := by
  induction h with
  | nil => cases hus
  | @cons raw part raws parts hraw _ ih =>
    rcases List.mem_cons.1 hus with rfl | hus
    · cases hraw with
      | @substitution o inner ts h => exact ⟨o, inner, ts, by simp, h, rfl⟩
    · obtain ⟨o, inner, ts, hmem, h⟩ := ih hus
      exact ⟨o, inner, ts, List.mem_cons_of_mem _ hmem, h⟩

theorem filter_eof {us : List Lexeme} {e : Span} (h : ∀ x ∈ us, x.1.isEof = false) :
    (us ++ [(Token.eof, e)]).filter (!·.1.isEof) = us := by
  rw [List.filter_append, List.filter_eq_self.2 (by simpa using h)]
  simp [Token.isEof]

namespace Scans

theorem eof_last (h : Scans cs p ts) :
    ∃ us s, ts = us ++ [(.eof, s)] ∧ ∀ x ∈ us, x.1.isEof = false := by
  induction h with
  | done => exact ⟨[], _, rfl, fun _ h => by cases h⟩
  | gap _ _ ih => exact ih
  | @token u cs p t ts h _ ih =>
    obtain ⟨us, s, rfl, hus⟩ := ih
    refine ⟨(t, _) :: us, s, rfl, fun x hx => ?_⟩
    rcases List.mem_cons.1 hx with rfl | hx
    · exact h.isEof
    · exact hus x hx

/-- Tokens stand one behind another, and only the end is empty. -/
theorem ordered (h : Scans cs p ts) :
    (∀ x ∈ ts, p.offset ≤ x.2.start ∧ x.2.start ≤ x.2.stop ∧
      (x.1.isEof = false → x.2.start < x.2.stop)) ∧
      ts.Pairwise fun x y => x.2.stop ≤ y.2.start := by
  induction h with
  | @done p => simp [Mark.span, Token.isEof]
  | gap h _ ih =>
    have hoffset := h.offset
    refine ⟨fun x hx => ?_, ih.2⟩
    have := ih.1 x hx
    exact ⟨by omega, this.2⟩
  | @token u cs p t ts h _ ih =>
    have hoffset := Mark.offset_after p u
    have hpos := byteLength_pos h.ne_nil
    constructor
    · intro x hx
      rcases List.mem_cons.1 hx with rfl | hx
      · simp only [Mark.span]
        omega
      · have := ih.1 x hx
        exact ⟨by omega, this.2⟩
    · exact List.pairwise_cons.2 ⟨fun y hy => (ih.1 y hy).1, ih.2⟩

theorem drop {before after : List Lexeme} {x : Lexeme} (h : Scans cs p ts)
    (hts : ts = before ++ x :: after) :
    ∃ u v q, cs = u ++ v ∧ q.offset = p.offset + byteLength u ∧ x.2.start = q.offset ∧
      Scans v q (x :: after) := by
  induction h generalizing before with
  | @done p =>
    cases before with
    | nil =>
      cases hts
      exact ⟨[], [], p, rfl, rfl, rfl, .done⟩
    | cons y before => simp at hts
  | @gap u cs p p' ts h hrest ih =>
    obtain ⟨u', v, q, rfl, hq, hx, hscans⟩ := ih hts
    refine ⟨u ++ u', v, q, by simp, ?_, hx, hscans⟩
    rw [hq, h.offset, byteLength_append, Nat.add_assoc]
  | @token u cs p t ts h hrest ih =>
    cases before with
    | nil =>
      cases hts
      exact ⟨[], u ++ cs, p, rfl, rfl, rfl, .token h hrest⟩
    | cons y before =>
      obtain ⟨_, rfl⟩ := List.cons.inj hts
      obtain ⟨u', v, q, rfl, hq, hx, hscans⟩ := ih rfl
      refine ⟨u ++ u', v, q, by simp, ?_, hx, hscans⟩
      rw [hq, Mark.offset_after, byteLength_append, Nat.add_assoc]

theorem cut {before after : List Lexeme} {s : Span} (h : Scans cs p ts)
    (hts : ts = before ++ (.punct .rightBrace, s) :: after) :
    ∃ v w e, cs = v ++ '}' :: w ∧ s.stop = p.offset + byteLength (v ++ ['}']) ∧
      Scans (v ++ ['}']) p (before ++ [(.punct .rightBrace, s), (.eof, e)]) := by
  induction h generalizing before with
  | done =>
    cases before with
    | nil => cases hts
    | cons y before => simp at hts
  | @gap u cs p p' ts h hrest ih =>
    obtain ⟨v, w, e, rfl, hstop, hscans⟩ := ih hts
    refine ⟨u ++ v, w, e, by simp, ?_, ?_⟩
    · rw [hstop, h.offset, List.append_assoc, byteLength_append u, Nat.add_assoc]
    · rw [List.append_assoc]
      exact .gap h.cut hscans
  | @token u cs p t ts h hrest ih =>
    cases before with
    | nil =>
      cases hts
      obtain rfl : u = ['}'] := h.text_punct
      have hlexed : Lexed [] p.offset ['}'] (.punct .rightBrace) := .piece rfl rfl
      exact ⟨[], cs, _, rfl, Mark.offset_after .., .token hlexed .done⟩
    | cons y before =>
      obtain ⟨rfl, rfl⟩ := List.cons.inj hts
      obtain ⟨v, w, e, rfl, hstop, hscans⟩ := ih rfl
      refine ⟨u ++ v, w, e, by simp, ?_, ?_⟩
      · rw [hstop, Mark.offset_after, List.append_assoc, byteLength_append u, Nat.add_assoc]
      · rw [List.append_assoc]
        exact .token h.cut hscans

/-- The tokens of a substitution are those of its text, which is part of the whole. -/
theorem substitution (h : Scans cs p ts) {parts : List TemplatePart} {s : Span} {us : List Lexeme}
    (hmem : (.template parts, s) ∈ ts) (hus : .substitution us ∈ parts) :
    ∃ a inner b e, cs = a ++ ['$', '{'] ++ inner ++ '}' :: b ∧
      Scans inner (Mark.origin (p.offset + byteLength (a ++ ['$', '{']))) (us ++ [(.eof, e)]) := by
  induction h with
  | done => simp at hmem
  | @gap u cs p p' ts h _ ih =>
    obtain ⟨a, inner, b, e, rfl, hscans⟩ := ih hmem
    refine ⟨u ++ a, inner, b, e, by simp, ?_⟩
    rwa [List.append_assoc, byteLength_append u, ← Nat.add_assoc, ← h.offset]
  | @token u cs p t ts h _ ih =>
    rcases List.mem_cons.1 hmem with heq | hmem
    · cases heq
      cases h with
      | piece hc h => exact absurd rfl ((plain_of_piece h).2 parts)
      | @template u _ hending hparts =>
        obtain ⟨o, inner, ts', hraw, htokens, rfl⟩ := exists_of_mem_reads hparts hus
        obtain ⟨a, b, rfl, rfl⟩ := append_of_mem_pieces hending hraw
        have hscans := scans_of_tokens htokens
        obtain ⟨us, e, rfl, heof⟩ := hscans.eof_last
        refine ⟨'`' :: a, inner, b ++ cs, e, by simp, ?_⟩
        rw [filter_eof heof]
        have hoffset : p.offset + byteLength ('`' :: a ++ ['$', '{']) =
            p.offset + 1 + byteLength a + 2 := by
          have htick : '`'.utf8Size = 1 := rfl
          have hdollar : '$'.utf8Size = 1 := rfl
          have hopen : '{'.utf8Size = 1 := rfl
          simp only [byteLength_cons, byteLength_append, byteLength_nil]
          omega
        rw [hoffset]
        exact hscans
    · obtain ⟨a, inner, b, e, rfl, hscans⟩ := ih hmem
      refine ⟨u ++ a, inner, b, e, by simp, ?_⟩
      rwa [List.append_assoc, byteLength_append u, ← Nat.add_assoc, ← Mark.offset_after]

end Scans

theorem reads_move {raws raws' : List RawPart} {parts : List TemplatePart}
    (hsame : List.Forall₂ RawPart.SameText raws raws')
    (hreads : List.Forall₂ RawPart.Reads raws parts)
    (hmove : ∀ o inner, .substitution o inner ∈ raws → ∀ {p ts} (q : Mark), Scans inner p ts →
      ∃ ts', Scans inner q ts' ∧ Lexeme.Shifted (fun _ _ => True) q.line p.line ts ts') :
    ∃ parts', List.Forall₂ RawPart.Reads raws' parts' ∧
      TemplatePart.AllLike (fun _ _ => True) parts parts' := by
  induction hsame generalizing parts with
  | nil =>
    cases hreads
    exact ⟨[], .nil, rfl⟩
  | @cons raw raw' raws raws' hraw hraws ih =>
    cases hreads with
    | @cons _ part _ parts hpart hparts =>
      obtain ⟨parts', hreads', hlike⟩ := ih hparts fun o inner hmem =>
        hmove o inner (List.mem_cons_of_mem _ hmem)
      cases hraw with
      | text raw =>
        cases hpart with
        | text => exact ⟨_, .cons (.text raw) hreads', _, _, rfl, rfl, hlike⟩
      | substitution o o' inner =>
        cases hpart with
        | @substitution _ _ ts h =>
          obtain ⟨ts', hscans, hts⟩ := hmove o inner (by simp) (Mark.origin (o' + 2))
            (scans_of_tokens h)
          exact ⟨_, .cons (.substitution hscans.tokens_eq) hreads', _, _, rfl,
            ⟨_, rfl, _, _, hts.withoutEof⟩, hlike⟩

theorem Lexed.move (h : Lexed rest o u t) (o' : Nat)
    (hmove : ∀ inner : List Char, inner.length < u.length → ∀ {p ts} (q : Mark), Scans inner p ts →
      ∃ ts', Scans inner q ts' ∧ Lexeme.Shifted (fun _ _ => True) q.line p.line ts ts') :
    ∃ t', Lexed rest o' u t' ∧ t.Like (fun _ _ => True) t' := by
  cases h with
  | piece hc h => exact ⟨t, .piece hc h, .refl (fun _ => trivial) t⟩
  | @template u parts hending hparts =>
    obtain ⟨hlead, hsame, hending'⟩ := rawTemplate_move (o + 1) (o' + 1) (u ++ rest)
    obtain ⟨parts', hparts', hlike⟩ :=
      reads_move (RawTemplate.sameText_pieces hlead hsame) hparts fun o₁ inner hmem => by
        obtain ⟨a, b, rfl, _⟩ := append_of_mem_pieces hending hmem
        exact hmove inner (by simp; omega)
    exact ⟨.template parts', .template (hending' _ hending) hparts', _, rfl, hlike⟩

theorem Scans.move (h : Scans cs p ts) (q : Mark) :
    ∃ ts', Scans cs q ts' ∧ Lexeme.Shifted (fun _ _ => True) q.line p.line ts ts' := by
  induction hn : cs.length using Nat.strongRecOn generalizing cs p ts q with
  | _ n ih =>
    subst hn
    cases h with
    | done =>
      refine ⟨_, .done, _, _, rfl, Lexeme.like_iff.2 ⟨rfl, trivial, Nat.add_comm ..⟩, rfl⟩
    | @gap u cs _ p' _ h hrest =>
      have hne := List.length_pos_iff.2 h.ne_nil
      obtain ⟨q', hgap, hline⟩ := h.move q
      obtain ⟨ts', hscans, hlike⟩ := ih cs.length (by simp; omega) hrest q' rfl
      exact ⟨ts', .gap hgap hscans, hlike.rebase (by omega)⟩
    | @token u cs _ t ts h hrest =>
      have hne := List.length_pos_iff.2 h.ne_nil
      have hinner : ∀ inner : List Char, inner.length < u.length → ∀ {p ts} (q : Mark),
          Scans inner p ts →
          ∃ ts', Scans inner q ts' ∧ Lexeme.Shifted (fun _ _ => True) q.line p.line ts ts' :=
        fun inner hlt _ _ q h => ih inner.length (by simp; omega) h q rfl
      obtain ⟨t', hlexed, ht⟩ := h.move q.offset hinner
      obtain ⟨ts', hscans, hlike⟩ := ih cs.length (by simp; omega) hrest (q.after u) rfl
      have hp := Mark.line_after p u
      have hq := Mark.line_after q u
      exact ⟨_, .token hlexed hscans, _, _, rfl, Lexeme.like_iff.2 ⟨ht, trivial, Nat.add_comm ..⟩,
        hlike.rebase (by omega)⟩

theorem Scans.keyword_prefix {k : Keyword} {s : Span} (h : Scans cs p ((.keyword k, s) :: ts))
    (hs : s.start = p.offset) : k.text.toList <+: cs := by
  cases h with
  | @gap u cs _ p' _ hgap hrest =>
    have hle := (hrest.ordered.1 _ List.mem_cons_self).1
    have hoffset := hgap.offset
    have hpos := byteLength_pos hgap.ne_nil
    simp only at hle
    omega
  | token hlexed _ =>
    rw [hlexed.text_keyword]
    exact List.prefix_append ..

/-- The text of tokens up to a closing brace has them for tokens wherever it stands. -/
theorem Scans.text {before inner after : List Lexeme} {x : Lexeme} {s : Span} (h : Scans cs p ts)
    (hts : ts = before ++ x :: (inner ++ (.punct .rightBrace, s) :: after)) :
    ∃ u v w, cs = u ++ (v ++ ['}']) ++ w ∧ x.2.start = p.offset + byteLength u ∧
      s.stop = x.2.start + byteLength (v ++ ['}']) ∧
      (∀ k, x.1 = .keyword k → k.text.toList <+: v ++ ['}']) ∧
      ∀ q : Mark, ∃ group e, Scans (v ++ ['}']) q (group ++ [(.eof, e)]) ∧
        Lexeme.AllLike (fun _ _ => True) (x :: inner ++ [(.punct .rightBrace, s)]) group := by
  obtain ⟨u, v, q, rfl, hq, hx, hscans⟩ := h.drop hts
  have hsplit : x :: (inner ++ (Token.punct .rightBrace, s) :: after) =
      (x :: inner) ++ (.punct .rightBrace, s) :: after := rfl
  obtain ⟨v, w, e, rfl, hstop, hscans⟩ := hscans.cut hsplit
  refine ⟨u, v, w, by simp, hx.trans hq, by rw [hstop, hx], fun k hk => ?_, fun q' => ?_⟩
  · obtain ⟨t, sx⟩ := x
    obtain rfl : t = .keyword k := hk
    exact hscans.keyword_prefix hx
  obtain ⟨ts', hscans', hlike⟩ := hscans.move q'
  obtain ⟨group, e', rfl, _⟩ := hscans'.eof_last
  refine ⟨group, e', hscans', q'.line, q.line, ?_⟩
  rw [Lexeme.shifted_eq] at hlike ⊢
  have hlength := hlike.length_eq
  have htake := List.forall₂_take_append _ _ _ hlike
  have hgroup : group.length = (x :: inner ++ [(Token.punct .rightBrace, s)]).length := by
    simp at hlength ⊢
    omega
  rw [hgroup] at htake
  have happend : x :: inner ++ [(Token.punct .rightBrace, s), (.eof, e)] =
      (x :: inner ++ [(.punct .rightBrace, s)]) ++ [(.eof, e)] := by simp
  rwa [happend, List.take_left] at htake

end Scan

end Typings
