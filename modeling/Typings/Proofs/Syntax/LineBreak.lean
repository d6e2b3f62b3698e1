import Typings.Proofs.Syntax.Origin

namespace Typings

namespace Scan

variable {cs rest u : List Char} {p p' : Mark} {t : Token} {ts : List Lexeme} {x y : Lexeme}
  {o : Nat}

theorem Gap.line_eq (h : Gap rest p u p') : p'.line = p.line + u.count '\n' := by
  cases h with
  | @blank c h => exact Mark.line_after p [c]
  | line | block => exact Mark.line_afterBytes ..
  | byteOrder => rfl

theorem exists_string_of_piece {c : Char} {length : Nat} (hc : c = '"' ∨ c = '\'')
    (h : piece c rest = .token t length) : ∃ s, t = .string s := by
  have hname : isNameStart c = false := by
    rcases hc with rfl | rfl <;> decide
  have hquote : (c == '"' || c == '\'') = true := by simpa using hc
  unfold piece at h
  simp only [hname, hquote, Bool.false_eq_true, if_false, if_true] at h
  split at h
  · cases h
    exact ⟨_, rfl⟩
  · cases h

/-- No token goes over several lines but strings and templates. -/
theorem Lexed.string_or_template (h : Lexed rest o u t) (hu : '\n' ∈ u) :
    (∃ s, t = .string s) ∨ ∃ parts, t = .template parts := by
  cases h with
  | template => exact .inr ⟨_, rfl⟩
  | @piece c u t hc h =>
    rcases List.mem_cons.1 hu with rfl | hu
    · simp [startsPiece, isSpace] at hc
    by_cases hquote : c = '"' ∨ c = '\''
    · exact .inl (exists_string_of_piece hquote h)
    · -- The token would end before the line does.
      obtain ⟨a, b, rfl⟩ := List.append_of_mem hu
      rw [List.append_assoc, List.cons_append, piece_stop .lineFeed (not_or.1 hquote)] at h
      have hle := (length_piece h).2
      simp only [List.length_append, List.length_cons] at hle
      omega

/-- The text before the first token, and the line that the token is on. -/
theorem Scans.head (h : Scans cs p (x :: ts)) :
    ∃ gap behind, cs = gap ++ behind ∧ x.2.start = p.offset + byteLength gap ∧
      x.2.line = p.line + gap.count '\n' := by
  generalize hts : x :: ts = us at h
  induction h with
  | done =>
    cases hts
    exact ⟨[], [], rfl, rfl, rfl⟩
  | @gap u cs p p' us h _ ih =>
    obtain ⟨gap, behind, rfl, hstart, hline⟩ := ih hts
    refine ⟨u ++ gap, behind, by simp, ?_, ?_⟩
    · rw [hstart, h.offset, byteLength_append, Nat.add_assoc]
    · rw [hline, h.line_eq, List.count_append, Nat.add_assoc]
  | token =>
    cases hts
    exact ⟨[], _, rfl, rfl, rfl⟩

theorem Scans.uncons (h : Scans cs p (x :: y :: ts)) (hx : x.2.start = p.offset) :
    ∃ u rest, cs = u ++ rest ∧ Lexed rest p.offset u x.1 ∧ x.2 = p.span (p.after u).offset ∧
      Scans rest (p.after u) (y :: ts) := by
  cases h with
  | @gap u cs _ p' _ h hrest =>
    have hpos := byteLength_pos h.ne_nil
    have hoffset := h.offset
    have hle := (hrest.ordered.1 x List.mem_cons_self).1
    omega
  | token h hrest => exact ⟨_, _, rfl, h, rfl, hrest⟩

/-- Two tokens, one behind the other, and what is between them. -/
theorem Scans.adjacent {before after : List Lexeme} (h : Scans cs p ts)
    (hts : ts = before ++ x :: y :: after) :
    ∃ a u gap b, cs = a ++ u ++ gap ++ b ∧ x.2.start = p.offset + byteLength a ∧
      x.2.stop = x.2.start + byteLength u ∧ y.2.start = x.2.stop + byteLength gap ∧
      y.2.line = x.2.line + u.count '\n' + gap.count '\n' ∧ Lexed (gap ++ b) x.2.start u x.1 := by
  obtain ⟨a, v, q, rfl, hq, hx, hscans⟩ := h.drop hts
  obtain ⟨u, rest, rfl, hlexed, hspan, hrest⟩ := hscans.uncons hx
  obtain ⟨gap, b, rfl, hstart, hline⟩ := hrest.head
  refine ⟨a, u, gap, b, by simp, hx.trans hq, ?_, ?_, ?_, hx ▸ hlexed⟩
  · rw [hspan]
    exact Mark.offset_after ..
  · rw [hspan]
    exact hstart
  · rw [hline, Mark.line_after, hspan]
    rfl

end Scan

namespace Cursor

variable {c : Cursor} {ts : List Lexeme}

theorem neighbours_of_lt {l : List Lexeme} (hc : c.tokens.toList = ts ++ l) (hpos : 0 < c.pos)
    (hlt : c.pos < ts.length) :
    ∃ before x after, ts = before ++ x :: c.lexeme :: after ∧ c.previousSpan = x.2 ∧
      c.tokenAt (c.pos - 1) = x.1 := by
  have hx : ts[c.pos - 1]? = some ts[c.pos - 1] := List.getElem?_eq_getElem _
  have hx' : c.tokens.toList[c.pos - 1]? = some ts[c.pos - 1] := by
    rw [hc, List.getElem?_append_left (by omega), hx]
  have hy : ts[c.pos - 1 + 1 + 0]? = some c.lexeme := by
    rw [Nat.add_zero, Nat.sub_add_cancel hpos, ← List.getElem?_append_left hlt, ← hc,
      c.getElem?_pos]
  exact ⟨_, _, _, by simpa using eq_append_of_getElem? hx hy, previousSpan_eq hx', tokenAt_eq hx'⟩

/-- The token before a position and the token there. The end may be one that was added. -/
theorem neighbours (hc : c.tokens.toList = terminated ts) (hpos : 0 < c.pos) :
    (c.pos < ts.length ∧ ∃ before x after, ts = before ++ x :: c.lexeme :: after ∧
      c.previousSpan = x.2 ∧ c.tokenAt (c.pos - 1) = x.1) ∨
    (c.pos = ts.length ∧ ∃ before x, ts = before ++ [x] ∧ c.previousSpan = x.2 ∧
      c.tokenAt (c.pos - 1) = x.1 ∧ x.1.isEof = false ∧
      c.lexeme = (.eof, { x.2 with start := x.2.stop })) := by
  have hsize := c.pos_lt
  rw [← Array.length_toList, hc] at hsize
  rcases List.eq_nil_or_concat ts with rfl | ⟨before, ⟨t, s⟩, rfl⟩
  · have hone : (terminated []).length = 1 := rfl
    omega
  rw [List.concat_eq_append] at hc hsize ⊢
  rw [terminated_of_getLast? List.getLast?_concat] at hc hsize
  split at hc
  · rename_i heof
    rw [if_pos heof] at hsize
    exact .inl ⟨hsize, neighbours_of_lt (hc.trans (List.append_nil _).symm) hpos hsize⟩
  · rename_i heof
    rw [if_neg heof, List.length_append, List.length_singleton] at hsize
    rcases Nat.lt_or_ge c.pos (before ++ [(t, s)]).length with hlt | hge
    · exact .inl ⟨hlt, neighbours_of_lt hc hpos hlt⟩
    · have hlast : c.pos = before.length + 1 := by
        rw [List.length_append, List.length_singleton] at hsize hge
        omega
      have hx : c.tokens.toList[c.pos - 1]? = some (t, s) := by simp [hc, hlast]
      have hy : c.tokens.toList[c.pos]? = some (.eof, { s with start := s.stop }) := by
        simp [hc, hlast]
      refine .inr ⟨by simp [hlast], before, (t, s), rfl, previousSpan_eq hx, tokenAt_eq hx,
        by simpa using heof, Option.some.inj ((c.getElem?_pos).symm.trans hy)⟩

theorem onNewLine_iff (hpos : 0 < c.pos) :
    c.onNewLine = true ↔ c.previousSpan.line < c.span.line := by
  simp [onNewLine, hpos]

end Cursor

theorem slice?_self {text part : String} {start stop : Nat}
    (h : slice? text start stop = some part) : slice? text start start = some "" := by
  rw [slice?] at h ⊢
  split at h
  · cases h
  · obtain ⟨rest, hrest, _⟩ := Option.bind_eq_some_iff.1 h
    rw [if_neg (Nat.lt_irrefl start), Nat.sub_self]
    refine Option.bind_eq_some_iff.2 ⟨rest, hrest, ?_⟩
    simp [takeBytes?]

/--
A token of a stream that is not the last one in its text: how it is written, what stands behind it,
and where the next token is.
-/
theorem Lexeme.Stream.adjacent {source : String} {whole full before after : List Lexeme}
    {x : Lexeme} (hwhole : Token.scan source = .ok whole) (h : Stream whole full)
    (hfull : full = before ++ x :: after) (hx : after ≠ [] ∨ x.1.isEof = false) :
    ∃ (y : Lexeme) (text gap : String), (∀ z ∈ after.head?, z = y) ∧
      slice? source x.2.start x.2.stop = some text ∧ slice? source x.2.stop y.2.start = some gap ∧
      y.2.line = x.2.line + text.toList.count '\n' + gap.toList.count '\n' ∧
      ('\n' ∈ text.toList → (∃ s, x.1 = .string s) ∨ ∃ parts, x.1 = .template parts) := by
  obtain ⟨a₀, inner, b₀, q, us, hsource, hq, hscans, hus, -⟩ := h.scans (Token.scan_eq_ok.1 hwhole)
  -- A token that is not the end has another one behind it.
  obtain ⟨y, rest, hrest, hy⟩ :
      ∃ y rest, us = before ++ x :: y :: rest ∧ ∀ z ∈ after.head?, z = y := by
    subst hfull
    cases after with
    | cons y after =>
      rcases hus with rfl | ⟨e, rfl⟩
      · exact ⟨y, after, rfl, by simp⟩
      · exact ⟨y, after ++ [(.eof, e)], by simp, by simp⟩
    | nil =>
      rcases hus with rfl | ⟨e, rfl⟩
      · obtain ⟨vs, s, hlast, _⟩ := hscans.eof_last
        obtain ⟨_, hx'⟩ := List.append_inj' hlast rfl
        cases hx'
        simp [Token.isEof] at hx
      · exact ⟨(.eof, e), [], by simp, by simp⟩
  obtain ⟨a, u, gap, b, rfl, hstart, hstop, hnext, hline, hlexed⟩ := hscans.adjacent hrest
  have hplace : x.2.start = byteLength (a₀ ++ a) := by
    rw [hstart, hq, byteLength_append, show (Mark.origin 0).offset = 0 from rfl, Nat.zero_add]
  refine ⟨y, String.ofList u, String.ofList gap, hy, ?_, ?_, ?_, ?_⟩
  · rw [hstop, hplace]
    exact slice?_append (c := gap ++ b ++ b₀) (by simp [hsource])
  · rw [hnext, hstop, hplace, ← byteLength_append]
    exact slice?_append (c := b ++ b₀) (by simp [hsource])
  · rw [String.toList_ofList, String.toList_ofList, hline]
  · rw [String.toList_ofList]
    exact hlexed.string_or_template

/--
The token before a position as it is written, what stands between it and the token there, and how
many lines this is further down. An end that was added is where the token before it stops, but it
has the line of that token.
-/
theorem Cursor.exists_between {source : String} {whole full ts : List Lexeme} {c : Cursor}
    (h : Token.scan source = .ok whole) (hfull : Lexeme.Stream whole full) (hts : ts <:+: full)
    (hc : c.tokens.toList = terminated ts) (hpos : 0 < c.pos) :
    ∃ text gap : String, slice? source c.previousSpan.start c.previousSpan.stop = some text ∧
      slice? source c.previousSpan.stop c.span.start = some gap ∧
      ('\n' ∈ text.toList → (∃ s, c.tokenAt (c.pos - 1) = .string s) ∨
        ∃ parts, c.tokenAt (c.pos - 1) = .template parts) ∧
      (c.pos < ts.length ∧ c.span.line =
          c.previousSpan.line + text.toList.count '\n' + gap.toList.count '\n' ∨
        c.pos = ts.length ∧ gap = "" ∧ c.atEnd = true ∧ c.span.line = c.previousSpan.line) := by
  obtain ⟨front, back, rfl⟩ := hts
  rcases neighbours hc hpos with ⟨hlt, before, x, after, rfl, hspan, htoken⟩ |
    ⟨hend, before, x, rfl, hspan, htoken, heof, hlexeme⟩
  · have hsplit : front ++ (before ++ x :: c.lexeme :: after) ++ back =
        (front ++ before) ++ x :: (c.lexeme :: after ++ back) := by simp
    obtain ⟨y, text, gap, hy, htext, hgap, hline, hlines⟩ :=
      hfull.adjacent h hsplit (.inl (List.cons_ne_nil _ _))
    obtain rfl := hy c.lexeme rfl
    rw [← hspan] at htext hgap hline
    rw [← htoken] at hlines
    exact ⟨text, gap, htext, hgap, hlines, .inl ⟨hlt, hline⟩⟩
  · have hsplit : front ++ (before ++ [x]) ++ back = (front ++ before) ++ x :: back := by simp
    obtain ⟨_, text, _, _, htext, hbehind, _, hlines⟩ := hfull.adjacent h hsplit (.inr heof)
    rw [← hspan] at htext hbehind
    rw [← htoken] at hlines
    have hplace : c.span = { c.previousSpan with start := c.previousSpan.stop } := by
      rw [span, hlexeme, hspan]
    have hatEnd : c.atEnd = true := by
      rw [atEnd, token, hlexeme]
      rfl
    refine ⟨text, "", htext, ?_, hlines, .inr ⟨hend, rfl, hatEnd, by rw [hplace]⟩⟩
    rw [hplace]
    exact slice?_self hbehind

theorem Parse.semicolon_run (c : Cursor) : semicolon c =
    if c.token.isPunct .semicolon then (.ok (), c.step)
    else if c.token.isPunct .rightBrace || c.atEnd || c.onNewLine then (.ok (), c)
    else (.error ⟨.missingSemicolon c.token, c.span⟩, c) := by
  rw [semicolon, bind_ok (eat_run .semicolon c)]
  cases c.token.isPunct .semicolon with
  | true => rfl
  | false =>
    rw [if_neg Bool.false_ne_true, if_neg Bool.false_ne_true, if_neg Bool.false_ne_true]
    have hget : (get : Parse Cursor) c = (.ok c, c) := rfl
    rw [bind_ok hget]
    split <;> rfl

/--
Behind the first token of a reading, a token is on a new line exactly if a line ends in the text
between it and the token before, or inside that token; an end that was added is never on a new line.
Only a string or a template has a line end inside. So without a semicolon a statement ends before a
closing brace, at the end, or at such a line end, and nowhere else.
-/
theorem onNewLine_iff_lineFeed {source : String} {whole full ts : List Lexeme} {c : Cursor}
    (h : Token.scan source = .ok whole) (hfull : Lexeme.Stream whole full) (hts : ts <:+: full)
    (hc : c.tokens.toList = Cursor.terminated ts) (hpos : 0 < c.pos) :
    ∃ text gap : String, slice? source c.previousSpan.start c.previousSpan.stop = some text ∧
      slice? source c.previousSpan.stop c.span.start = some gap ∧
      (c.onNewLine = true ↔ '\n' ∈ gap.toList ∨ '\n' ∈ text.toList ∧ c.pos < ts.length) ∧
      ('\n' ∈ text.toList → (∃ s, c.tokenAt (c.pos - 1) = .string s) ∨
        ∃ parts, c.tokenAt (c.pos - 1) = .template parts) ∧
      Parse.semicolon c =
        if c.token.isPunct .semicolon then (.ok (), c.step)
        else if c.token.isPunct .rightBrace ∨ c.atEnd ∨ '\n' ∈ gap.toList ∨ '\n' ∈ text.toList then
          (.ok (), c)
        else (.error ⟨.missingSemicolon c.token, c.span⟩, c) := by
  obtain ⟨text, gap, htext, hgap, hlines, hplace⟩ := Cursor.exists_between h hfull hts hc hpos
  have hline : c.onNewLine = true ↔
      '\n' ∈ gap.toList ∨ '\n' ∈ text.toList ∧ c.pos < ts.length := by
    rw [Cursor.onNewLine_iff hpos]
    rcases hplace with ⟨hlt, hline⟩ | ⟨hend, rfl, _, hline⟩
    · rw [hline, ← List.count_pos_iff, ← List.count_pos_iff]
      omega
    · simp [hline, hend]
  have hends : (c.token.isPunct .rightBrace || c.atEnd || c.onNewLine) = true ↔
      c.token.isPunct .rightBrace ∨ c.atEnd ∨ '\n' ∈ gap.toList ∨ '\n' ∈ text.toList := by
    rw [Bool.or_eq_true, Bool.or_eq_true, hline]
    rcases hplace with ⟨hlt, _⟩ | ⟨_, _, hatEnd, _⟩
    · simp only [hlt, and_true, or_assoc]
    · simp only [hatEnd, true_or, or_true]
  refine ⟨text, gap, htext, hgap, hline, hlines, ?_⟩
  simp only [Parse.semicolon_run, hends]

/-- Two statements of a substitution, on two lines. -/
theorem onNewLine_iff_lineFeed_inTemplate :
    let source := "`$\x7ba\nb\x7d`"
    let ts : List Lexeme := [(.identifier "a", ⟨3, 4, 1, 1⟩), (.identifier "b", ⟨5, 6, 2, 1⟩)]
    let whole : List Lexeme :=
      [(.template [.substitution ts], ⟨0, 8, 1, 1⟩), (.eof, ⟨8, 8, 2, 4⟩)]
    let c := (Cursor.ofTokens ts).step
    Token.scan source = .ok whole ∧ Lexeme.Stream whole ts ∧
      c.tokens.toList = Cursor.terminated ts ∧ 0 < c.pos ∧
      slice? source c.previousSpan.stop c.span.start = some "\n" ∧ c.onNewLine = true ∧
      Parse.semicolon c = (.ok (), c) := by
  intro source ts whole c
  have hscan : Token.scan source = .ok whole := Token.scan_of_scansTo (by decide +kernel)
  have hstream : Lexeme.Stream whole ts := .part .self List.mem_cons_self List.mem_cons_self
  have hc : c.tokens.toList = Cursor.terminated ts := rfl
  have hpos : 0 < c.pos := by decide
  have hslice : slice? source c.previousSpan.stop c.span.start = some "\n" := by decide +kernel
  obtain ⟨text, gap, _, hgap, hiff, _, hsemicolon⟩ :=
    onNewLine_iff_lineFeed hscan hstream (List.infix_refl ts) hc hpos
  obtain rfl := Option.some.inj (hslice.symm.trans hgap)
  have hmem : '\n' ∈ "\n".toList := by decide
  rw [if_neg (by decide), if_pos (.inr (.inr (.inl hmem)))] at hsemicolon
  exact ⟨hscan, hstream, hc, hpos, hslice, hiff.2 (.inl hmem), hsemicolon⟩

/-- Behind a template of two lines a token is on a new line without a line end before it. -/
theorem onNewLine_without_lineFeed :
    ¬ ∀ (source : String) (whole : List Lexeme) (c : Cursor), Token.scan source = .ok whole →
      c.tokens.toList = whole → 0 < c.pos → ∀ gap : String,
        slice? source c.previousSpan.stop c.span.start = some gap →
          (c.onNewLine = true ↔ '\n' ∈ gap.toList) := by
  intro hexact
  let whole : List Lexeme :=
    [(.template [.text "\n"], ⟨0, 3, 1, 1⟩), (.identifier "b", ⟨4, 5, 2, 3⟩), (.eof, ⟨5, 5, 2, 4⟩)]
  have hscan : Token.scan "`\n` b" = .ok whole := Token.scan_of_scansTo (by decide +kernel)
  have hiff := hexact _ _ (Cursor.ofTokens whole).step hscan rfl (by decide) " " (by decide +kernel)
  exact absurd (hiff.1 (by decide)) (by decide)

end Typings
