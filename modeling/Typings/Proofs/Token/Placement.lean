import Mathlib.Data.List.Induction
import Typings.Proofs.Syntax.Origin

namespace Typings

/-- The line that a text ends on. -/
def endLine (cs : List Char) : Nat := 1 + cs.count '\n'

/-- The column behind a text: one more than the characters behind its last line feed. -/
def endColumn (cs : List Char) : Nat := 1 + (cs.reverse.takeWhile (· != '\n')).length

theorem endLine_append (a b : List Char) : endLine (a ++ b) = endLine b + a.count '\n' := by
  rw [endLine, endLine, List.count_append]
  omega

theorem endColumn_concat (cs : List Char) (c : Char) :
    endColumn (cs ++ [c]) = if c = '\n' then 1 else endColumn cs + 1 := by
  rw [endColumn, List.reverse_concat]
  by_cases hc : c = '\n'
  · simp [hc]
  · simp [hc, endColumn]
    omega

theorem endColumn_append (a b : List Char) :
    endColumn (a ++ b) = if '\n' ∈ b then endColumn b else endColumn a + b.length := by
  induction b using List.reverseRecOn with
  | nil => simp
  | append_singleton b c ih =>
    rw [← List.append_assoc, endColumn_concat, endColumn_concat, ih]
    by_cases hc : c = '\n'
    · simp [hc]
    · by_cases hb : '\n' ∈ b
      · simp [hc, hb]
      · simp [hc, hb, Ne.symm hc]
        omega

theorem endColumn_append_eq (a b : List Char) :
    endColumn (a ++ b) = endColumn b + if '\n' ∈ b then 0 else endColumn a - 1 := by
  have hpos : 0 < endColumn a := by
    rw [endColumn]
    omega
  have hnil := endColumn_append [] b
  rw [List.nil_append, show endColumn [] = 1 from rfl] at hnil
  rw [endColumn_append]
  split
  · rfl
  · rename_i hb
    rw [if_neg hb] at hnil
    omega

namespace Lexeme

variable {ts : List Lexeme} {o start : Nat}

/-- Whether a byte of the text stands in a token. -/
def covers (ts : List Lexeme) (o : Nat) : Bool := ts.any fun x => x.2.start ≤ o && o < x.2.stop

theorem covers_of_mem {x : Lexeme} (hx : x ∈ ts) (hstart : x.2.start ≤ o) (hstop : o < x.2.stop) :
    covers ts o = true :=
  List.any_eq_true.2 ⟨x, hx, by simp [hstart, hstop]⟩

theorem not_covers (h : ∀ x ∈ ts, x.2.stop ≤ o ∨ o < x.2.start) : covers ts o = false := by
  apply List.any_eq_false.2
  intro x hx
  have := h x hx
  simp only [Bool.and_eq_true, decide_eq_true_eq, not_and]
  omega

theorem covers_concat {x : Lexeme} (hx : x.2.stop ≤ x.2.start) : covers (ts ++ [x]) o = covers ts o := by
  rw [covers, covers, List.any_append]
  have hempty : decide (x.2.start ≤ o) = true → decide (o < x.2.stop) = false := by
    simp only [decide_eq_true_eq, decide_eq_false_iff_not]
    omega
  cases hstart : decide (x.2.start ≤ o) with
  | false => simp [hstart]
  | true => simp [hstart, hempty hstart]

/-- Go on with the character at the offset `s.1`, if `s.2` are the separators before it on its line. -/
def separatorsNext (ts : List Lexeme) (s : Nat × List Char) (c : Char) : Nat × List Char :=
  (s.1 + c.utf8Size, if c = '\n' then [] else if covers ts s.1 then s.2 else s.2 ++ [c])

/--
The characters on the last line of a text that stand in none of the tokens `ts`. The text starts at
the offset `start`.
-/
def separators (ts : List Lexeme) (start : Nat) (cs : List Char) : List Char :=
  (cs.foldl (separatorsNext ts) (start, [])).2

theorem offset_separators (cs : List Char) :
    (cs.foldl (separatorsNext ts) (start, [])).1 = start + byteLength cs := by
  induction cs using List.reverseRecOn with
  | nil => rfl
  | append_singleton cs c ih =>
    rw [List.foldl_concat, separatorsNext, ih, byteLength_append]
    simp only [byteLength_cons, byteLength_nil]
    omega

theorem separators_concat (cs : List Char) (c : Char) :
    separators ts start (cs ++ [c]) = if c = '\n' then [] else
      if covers ts (start + byteLength cs) then separators ts start cs
      else separators ts start cs ++ [c] := by
  rw [separators, List.foldl_concat, separatorsNext, offset_separators]
  rfl

theorem separators_congr {us : List Lexeme} (h : ∀ o, covers us o = covers ts o) (cs : List Char) :
    separators us start cs = separators ts start cs := by
  have hnext : separatorsNext us = separatorsNext ts := by
    funext s c
    rw [separatorsNext, separatorsNext, h]
  rw [separators, separators, hnext]

end Lexeme

open Lexeme

namespace Scan

variable {cs rest u : List Char} {p p' : Mark} {ts : List Lexeme} {start : Nat}

/--
What the place behind `cs` is recorded as. Among the separators of its line are `marks` byte-order
marks that count no column; all the others count their bytes.
-/
structure Counted (ts : List Lexeme) (start : Nat) (cs : List Char) (p : Mark) : Prop where
  offset : p.offset = start + byteLength cs
  line : p.line = endLine cs
  column : ∃ marks ≤ (separators ts start cs).count '\ufeff',
    p.column + (separators ts start cs).length + 3 * marks =
      endColumn cs + byteLength (separators ts start cs)

theorem Counted.origin : Counted ts start [] (Mark.origin start) := ⟨rfl, rfl, 0, Nat.le_refl _, rfl⟩

namespace Counted

variable (h : Counted ts start cs p) {c : Char}
include h

/-- One character further, from what it counts in bytes, lines and columns. -/
theorem next (hoffset : p'.offset = p.offset + c.utf8Size)
    (hline : p'.line = if c = '\n' then p.line + 1 else p.line)
    (hfeed : c = '\n' → p'.column = 1)
    (hcolumn : c ≠ '\n' → ∃ k, (k = 0 ∨ k = 1 ∧ c = '\ufeff' ∧ covers ts p.offset = false) ∧
      p'.column + 3 * k = p.column + if covers ts p.offset then 1 else c.utf8Size) :
    Counted ts start (cs ++ [c]) p' := by
  obtain ⟨ho, hl, marks, hmarks, hcol⟩ := h
  refine ⟨?_, ?_, ?_⟩
  · rw [hoffset, ho, byteLength_append]
    simp only [byteLength_cons, byteLength_nil]
    omega
  · rw [hline, hl, endLine_append, endLine, endLine]
    by_cases hc : c = '\n'
    · simp [hc]
      omega
    · simp [hc]
  rw [separators_concat, endColumn_concat, ← ho]
  by_cases hc : c = '\n'
  · refine ⟨0, Nat.zero_le _, ?_⟩
    simp [hc, hfeed hc]
  obtain ⟨k, hk, hcolumn⟩ := hcolumn hc
  rw [if_neg hc, if_neg hc]
  cases hcovers : covers ts p.offset with
  | true =>
    rw [hcovers] at hcolumn hk
    refine ⟨marks, hmarks, ?_⟩
    simp only [if_true] at hcolumn ⊢
    rcases hk with rfl | ⟨_, _, hk⟩
    · omega
    · cases hk
  | false =>
    rw [hcovers] at hcolumn
    simp only [Bool.false_eq_true, if_false] at hcolumn ⊢
    refine ⟨marks + k, ?_, ?_⟩
    · rw [List.count_append]
      rcases hk with rfl | ⟨rfl, rfl, _⟩
      · omega
      · simp only [List.count_singleton_self]
        omega
    · simp only [List.length_append, List.length_singleton, byteLength_append, byteLength_cons,
        byteLength_nil]
      omega

theorem token (u : List Char)
    (hu : ∀ o, p.offset ≤ o → o < p.offset + byteLength u → covers ts o = true) :
    Counted ts start (cs ++ u) (p.after u) := by
  induction u generalizing cs p with
  | nil => rwa [List.append_nil]
  | cons c u ih =>
    have hsize := c.utf8Size_pos
    have hoffset : (p.next c).offset = p.offset + c.utf8Size := by
      rw [Mark.next]
      split <;> rfl
    have hcovers : covers ts p.offset = true :=
      hu _ (Nat.le_refl _) (by simp only [byteLength_cons]; omega)
    have hnext : Counted ts start (cs ++ [c]) (p.next c) := by
      refine h.next hoffset ?_ ?_ ?_
      · by_cases hc : c = '\n' <;> simp [Mark.next, hc]
      · intro hc
        simp [Mark.next, hc]
      · intro hc
        exact ⟨0, .inl rfl, by simp [Mark.next, hc, hcovers]⟩
    have hrest := ih hnext fun o hle hlt => hu o (by omega) (by simp only [byteLength_cons]; omega)
    rwa [List.append_assoc] at hrest

theorem comment (u : List Char)
    (hu : ∀ o, p.offset ≤ o → o < p.offset + byteLength u → covers ts o = false) :
    Counted ts start (cs ++ u) (p.afterBytes u) := by
  induction u generalizing cs p with
  | nil => rwa [List.append_nil]
  | cons c u ih =>
    have hsize := c.utf8Size_pos
    have hoffset : (p.nextBytes c).offset = p.offset + c.utf8Size := Mark.offset_afterBytes p [c]
    have hcovers : covers ts p.offset = false :=
      hu _ (Nat.le_refl _) (by simp only [byteLength_cons]; omega)
    have hnext : Counted ts start (cs ++ [c]) (p.nextBytes c) := by
      refine h.next hoffset ?_ ?_ ?_
      · by_cases hc : c = '\n' <;> simp [Mark.nextBytes, hc]
      · intro hc
        simp [Mark.nextBytes, hc]
      · intro hc
        exact ⟨0, .inl rfl, by simp [Mark.nextBytes, hc, hcovers]⟩
    have hrest := ih hnext fun o hle hlt => hu o (by omega) (by simp only [byteLength_cons]; omega)
    rwa [List.append_assoc] at hrest

/-- White space takes one byte, so that it may count as a comment does. -/
theorem gap (hgap : Gap rest p u p')
    (hu : ∀ o, p.offset ≤ o → o < p.offset + byteLength u → covers ts o = false) :
    Counted ts start (cs ++ u) p' := by
  cases hgap with
  | @blank c hspace =>
    have hsize : c.utf8Size = 1 := by
      simp only [isSpace, Bool.or_eq_true, beq_iff_eq] at hspace
      rcases hspace with ((rfl | rfl) | rfl) | rfl <;> rfl
    have hbytes : p.next c = p.afterBytes [c] := by
      show p.next c = p.nextBytes c
      rw [Mark.next, Mark.nextBytes, hsize]
    rw [hbytes]
    exact h.comment [c] hu
  | line => exact h.comment _ hu
  | block => exact h.comment _ hu
  | byteOrder =>
    have hcovers : covers ts p.offset = false := hu _ (Nat.le_refl _) (Nat.lt_add_of_pos_right (by decide))
    refine h.next rfl rfl (absurd · (by decide)) fun _ => ⟨1, .inr ⟨rfl, rfl, hcovers⟩, ?_⟩
    rw [hcovers]
    rfl

end Counted

/-- Where the tokens of a text are recorded, if the place before them is recorded as it should be. -/
theorem Scans.counted {all earlier : List Lexeme} {passed : List Char} (h : Scans cs p ts)
    (hall : all = earlier ++ ts) (hearlier : ∀ x ∈ earlier, x.2.stop ≤ p.offset)
    (hp : Counted all start passed p) :
    ∀ x ∈ ts, ∃ before behind q, passed ++ cs = before ++ behind ∧ Counted all start before q ∧
      x.2.start = q.offset ∧ x.2.line = q.line ∧ x.2.column = q.column := by
  induction h generalizing earlier passed with
  | @done p =>
    intro x hx
    obtain rfl := List.mem_singleton.1 hx
    exact ⟨passed, [], p, rfl, hp, rfl, rfl, rfl⟩
  | @gap u cs p p' ts h hrest ih =>
    -- the tokens passed so far end before the gap, and the others begin behind it
    have hoffset := h.offset
    have huncovered : ∀ o, p.offset ≤ o → o < p.offset + byteLength u → covers all o = false := by
      intro o hle hlt
      apply not_covers
      intro y hy
      rw [hall, List.mem_append] at hy
      rcases hy with hy | hy
      · have := hearlier y hy
        omega
      · have := (hrest.ordered.1 y hy).1
        omega
    have hrest' := ih hall (fun x hx => Nat.le_trans (hearlier x hx) (by omega)) (hp.gap h huncovered)
    rwa [List.append_assoc] at hrest'
  | @token u cs p t ts h hrest ih =>
    intro x hx
    have hoffset := Mark.offset_after p u
    rcases List.mem_cons.1 hx with rfl | hx
    · exact ⟨passed, _, p, rfl, hp, rfl, rfl, rfl⟩
    · have hmem : (t, p.span (p.after u).offset) ∈ all := by
        rw [hall]
        simp
      have hcovered : ∀ o, p.offset ≤ o → o < p.offset + byteLength u → covers all o = true :=
        fun o hle hlt => covers_of_mem hmem hle (by simp only [Mark.span]; omega)
      have hall' : all = earlier ++ [(t, p.span (p.after u).offset)] ++ ts := by simp [hall]
      have hearlier' : ∀ y ∈ earlier ++ [(t, p.span (p.after u).offset)],
          y.2.stop ≤ (p.after u).offset := by
        intro y hy
        rcases List.mem_append.1 hy with hy | hy
        · have := hearlier y hy
          omega
        · obtain rfl := List.mem_singleton.1 hy
          exact Nat.le_refl _
      have hrest' := ih hall' hearlier' (hp.token u hcovered) x hx
      rwa [List.append_assoc] at hrest'

theorem Scans.eof_empty (h : Scans cs p ts) : ∀ x ∈ ts, x.1.isEof = true → x.2.stop ≤ x.2.start := by
  induction h with
  | done => simp [Mark.span]
  | gap _ _ ih => exact ih
  | token h _ ih =>
    intro x hx hend
    rcases List.mem_cons.1 hx with rfl | hx
    · rw [h.isEof] at hend
      cases hend
    · exact ih x hx hend

end Scan

/-- The places of all tokens of a text or a substitution, from its own start. -/
theorem Lexeme.Stream.counted {source : String} {whole ts : List Lexeme}
    (h : Token.scan source = .ok whole) (hts : Stream whole ts) :
    ∃ a inner b, source.toList = a ++ inner ++ b ∧
      (ts = whole ∧ a = [] ∧ b = [] ∨ ['$', '{'] <:+ a ∧ ['}'] <+: b) ∧
      ∀ x ∈ ts, ∃ before behind q, inner = before ++ behind ∧
        Scan.Counted ts (byteLength a) before q ∧
        x.2.start = q.offset ∧ x.2.line = q.line ∧ x.2.column = q.column := by
  obtain ⟨a, inner, b, q, us, hsource, hq, hscans, hus, hstart⟩ := hts.scans (Token.scan_eq_ok.1 h)
  have hq : q = Mark.origin (byteLength a) := by
    have hoffset : q.offset = byteLength a := by rw [hq, Mark.origin, Nat.zero_add]
    rcases hstart with ⟨_, rfl, _, rfl⟩ | ⟨_, _, hq⟩
    · rfl
    · rw [hq, hoffset]
  subst hq
  have hall : us = [] ++ us := rfl
  have hplaces := hscans.counted hall (by simp) .origin
  refine ⟨a, inner, b, hsource, hstart.imp (fun h => ⟨h.1, h.2.1, h.2.2.1⟩) fun h => ⟨h.1, h.2.1⟩,
    fun x hx => ?_⟩
  rcases hus with rfl | ⟨e, rfl⟩
  · exact hplaces x hx
  · obtain ⟨before, behind, q, hinner, hcounted, hplace⟩ := hplaces x (by simp [hx])
    have hsame : separators (ts ++ [(.eof, e)]) (byteLength a) before =
        separators ts (byteLength a) before :=
      separators_congr (fun o => covers_concat (hscans.eof_empty (.eof, e) (by simp) rfl)) before
    refine ⟨before, behind, q, hinner, ⟨hcounted.offset, hcounted.line, ?_⟩, hplace⟩
    rw [← hsame]
    exact hcounted.column

/--
When the place of a token is exact. Its text, which is the source or a substitution, stands behind
`a`. The line is exact if `a` is on one line, as it is for the source. The column is exact if the
bytes of the separators before it on its line make up for those of them that are byte-order marks,
and for what stands on that line before the text.
-/
theorem exact_place_iff {source : String} {whole ts : List Lexeme}
    (h : Token.scan source = .ok whole) (hts : Lexeme.Stream whole ts) :
    ∃ a inner b, source.toList = a ++ inner ++ b ∧
      (ts = whole ∧ a = [] ∧ b = [] ∨ ['$', '{'] <:+ a ∧ ['}'] <+: b) ∧
      ∀ x ∈ ts, ∃ before behind, inner = before ++ behind ∧ x.2.start = byteLength (a ++ before) ∧
        (x.2.line = endLine (a ++ before) ↔ '\n' ∉ a) ∧
        ∃ marks ≤ (separators ts (byteLength a) before).count '\ufeff',
          (x.2.column = endColumn (a ++ before) ↔
            byteLength (separators ts (byteLength a) before) =
              (separators ts (byteLength a) before).length + 3 * marks +
                if '\n' ∈ before then 0 else endColumn a - 1) := by
  obtain ⟨a, inner, b, hsource, hstart, hplaces⟩ := hts.counted h
  refine ⟨a, inner, b, hsource, hstart, fun x hx => ?_⟩
  obtain ⟨before, behind, q, hinner, ⟨hoffset, hline, marks, hmarks, hcolumn⟩, hx₁, hx₂, hx₃⟩ :=
    hplaces x hx
  refine ⟨before, behind, hinner, ?_, ?_, marks, hmarks, ?_⟩
  · rw [hx₁, hoffset, byteLength_append]
  · rw [hx₂, hline, endLine_append, ← List.count_eq_zero]
    omega
  · rw [hx₃, endColumn_append_eq]
    omega

/-- A name in a substitution, behind a comment with a character of two bytes. -/
theorem exact_place_iff_inSubstitution :
    let source := "/* é */ `$\x7bx\x7d`"
    let name : Lexeme := (.identifier "x", ⟨12, 13, 1, 1⟩)
    let whole : List Lexeme := [(.template [.substitution [name]], ⟨9, 15, 1, 10⟩), (.eof, ⟨15, 15, 1, 16⟩)]
    Token.scan source = .ok whole ∧ Lexeme.Stream whole [name] ∧
      ∃ a inner b, source.toList = a ++ inner ++ b ∧
        ([name] = whole ∧ a = [] ∧ b = [] ∨ ['$', '{'] <:+ a ∧ ['}'] <+: b) ∧
        ∀ x ∈ [name], ∃ before behind, inner = before ++ behind ∧ x.2.start = byteLength (a ++ before) ∧
          (x.2.line = endLine (a ++ before) ↔ '\n' ∉ a) ∧
          ∃ marks ≤ (separators [name] (byteLength a) before).count '\ufeff',
            (x.2.column = endColumn (a ++ before) ↔
              byteLength (separators [name] (byteLength a) before) =
                (separators [name] (byteLength a) before).length + 3 * marks +
                  if '\n' ∈ before then 0 else endColumn a - 1) := by
  intro source name whole
  have hscan : Token.scan source = .ok whole := Token.scan_of_scansTo (by decide +kernel)
  have hstream : Lexeme.Stream whole [name] := .part .self List.mem_cons_self List.mem_cons_self
  exact ⟨hscan, hstream, exact_place_iff hscan hstream⟩

/-- Behind such a comment, and in such a substitution, columns are not exact. -/
theorem place_not_exact :
    ¬ ∀ (source : String) (whole ts : List Lexeme), Token.scan source = .ok whole →
      Lexeme.Stream whole ts → ∀ x ∈ ts, ∀ before behind, source.toList = before ++ behind →
        x.2.start = byteLength before → x.2.line = endLine before ∧ x.2.column = endColumn before := by
  intro hexact
  have hscan : Token.scan "/* é */ `$\x7bx\x7d`" = .ok
      [(.template [.substitution [(.identifier "x", ⟨12, 13, 1, 1⟩)]], ⟨9, 15, 1, 10⟩),
        (.eof, ⟨15, 15, 1, 16⟩)] := Token.scan_of_scansTo (by decide +kernel)
  have hcolumn := (hexact _ _ _ hscan .self _ List.mem_cons_self "/* é */ ".toList
    "`$\x7bx\x7d`".toList (by decide) (by decide)).2
  exact absurd hcolumn (by decide)

end Typings
