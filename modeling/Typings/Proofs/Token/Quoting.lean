import Typings.Proofs.Token.Bodies

namespace Typings

namespace Escape

variable {quote c : Char} {piece : List Char} {cs : List Char} {pieces : List (List Char)}
  {quotes : List Char}

/-- What a character is written as in a literal: itself, or one character behind a backslash. -/
inductive Spells (quote : Char) : Char → List Char → Prop
  | plain {c : Char} (hc : c ≠ quote ∧ c ≠ '\\') : Spells quote c [c]
  | escaped {d : Char} (hd : d ≠ '\n' ∧ d ≠ 'u' ∧ d ≠ 'x') : Spells quote (simple d) ['\\', d]

/-- A character in a literal, where a backslash stands before each of the `quotes`. -/
def written (quotes : List Char) (c : Char) : List Char :=
  if c = '\\' ∨ c ∈ quotes then ['\\', c]
  else if c = '\n' then ['\\', 'n']
  else if c = '\r' then ['\\', 'r']
  else [c]

def literal (quotes : List Char) (quote : Char) (text : String) : String :=
  String.ofList (quote :: (text.toList.flatMap (written quotes) ++ [quote]))

theorem cook_plain (hc : c ≠ '\\') (cs : List Char) : cook (c :: cs) = c :: cook cs := by
  rw [cook] <;> simp [hc]

theorem cook_escaped {d : Char} (hd : d ≠ '\n' ∧ d ≠ 'u' ∧ d ≠ 'x') (cs : List Char) :
    cook ('\\' :: d :: cs) = simple d :: cook cs := by
  rw [cook] <;> simp [hd]

theorem Spells.cook_append (h : Spells quote c piece) (cs : List Char) :
    cook (piece ++ cs) = c :: cook cs := by
  cases h with
  | plain hc => exact cook_plain hc.2 cs
  | escaped hd => exact cook_escaped hd cs

theorem body_flatten (h : List.Forall₂ (Spells quote) cs pieces) :
    Body quote (· ≠ '\n') pieces.flatten := by
  induction h with
  | nil => exact .nil
  | cons h _ ih =>
    cases h with
    | plain hc => exact .plain hc ih
    | escaped hd => exact .escaped hd.1 ih

theorem cook_flatten (h : List.Forall₂ (Spells quote) cs pieces) : cook pieces.flatten = cs := by
  induction h with
  | nil => simp [cook]
  | cons h _ ih => rw [List.flatten_cons, h.cook_append, ih]

theorem simple_eq_self (hquotes : ∀ c ∈ quotes, c = '"' ∨ c = '\'') (hc : c = '\\' ∨ c ∈ quotes) :
    simple c = c ∧ c ≠ '\n' ∧ c ≠ 'u' ∧ c ≠ 'x' := by
  rcases hc with rfl | hc
  · decide
  rcases hquotes c hc with rfl | rfl
  · decide
  · decide

theorem spells_written (hquote : quote ∈ quotes) (hquotes : ∀ c ∈ quotes, c = '"' ∨ c = '\'')
    (c : Char) : Spells quote c (written quotes c) := by
  unfold written
  split
  · rename_i hc
    obtain ⟨hself, hplain⟩ := simple_eq_self hquotes hc
    have hspells : Spells quote (simple c) ['\\', c] := .escaped hplain
    rwa [hself] at hspells
  split
  · rename_i hc
    subst hc
    exact Spells.escaped (d := 'n') (by decide)
  split
  · rename_i hc
    subst hc
    exact Spells.escaped (d := 'r') (by decide)
  · rename_i hc _ _
    rw [not_or] at hc
    refine .plain ⟨?_, hc.1⟩
    rintro rfl
    exact hc.2 hquote

theorem lineFeed_not_mem_written (hquotes : ∀ c ∈ quotes, c = '"' ∨ c = '\'') (c : Char) :
    '\n' ∉ written quotes c := by
  unfold written
  split
  · rename_i hc
    simp [(simple_eq_self hquotes hc).2.1.symm]
  split
  · simp
  split
  · simp
  · rename_i hc _
    simp [Ne.symm hc]

end Escape

theorem Mark.after_of_not_mem {p : Mark} {cs : List Char} (h : '\n' ∉ cs) :
    p.after cs = ⟨p.offset + byteLength cs, p.line, p.column + cs.length⟩ := by
  induction cs generalizing p with
  | nil => rfl
  | cons c cs ih =>
    rw [List.mem_cons, not_or] at h
    have hnext : p.next c = ⟨p.offset + c.utf8Size, p.line, p.column + 1⟩ := by
      simp [Mark.next, Ne.symm h.1]
    show (p.next c).after cs = _
    rw [ih h.2, hnext, byteLength_cons, List.length_cons]
    simp only [Mark.mk.injEq, true_and]
    omega

theorem Scan.lexed_string {quote : Char} {cs rest : List Char} {pieces : List (List Char)} {o : Nat}
    (hquote : quote = '"' ∨ quote = '\'') (h : List.Forall₂ (Escape.Spells quote) cs pieces) :
    Lexed rest o (quote :: (pieces.flatten ++ [quote])) (.string (String.ofList cs)) := by
  have hslash : quote ≠ '\\' := by
    rcases hquote with rfl | rfl <;> decide
  rw [← Escape.cook_flatten h]
  exact lexed_body hquote ((Escape.body_flatten h).stringBody?_eq_some hslash)

/--
A text that is written as a literal is scanned as one string token that stands for the text, on one
line, and then the end. It does not matter whether a backslash stands before both kinds of quotes or
only before the one that is used.
-/
theorem literal_reads_back {quotes : List Char} {quote : Char} (hquote : quote ∈ quotes)
    (hquotes : ∀ c ∈ quotes, c = '"' ∨ c = '\'') (text : String) :
    let literal := Escape.literal quotes quote text
    Token.scan literal = .ok
      [(.string text, ⟨0, literal.utf8ByteSize, 1, 1⟩),
        (.eof, ⟨literal.utf8ByteSize, literal.utf8ByteSize, 1, literal.length + 1⟩)] := by
  intro literal
  have hkind := hquotes quote hquote
  have hspelled : List.Forall₂ (Escape.Spells quote) text.toList
      (text.toList.map (Escape.written quotes)) := by
    rw [List.forall₂_map_right_iff, List.forall₂_same]
    exact fun c _ => Escape.spells_written hquote hquotes c
  have hchars : literal.toList =
      quote :: ((text.toList.map (Escape.written quotes)).flatten ++ [quote]) := by
    simp only [literal, Escape.literal, String.toList_ofList, List.flatMap_def]
  have hline : '\n' ∉ literal.toList := by
    have hne : quote ≠ '\n' := by
      rcases hkind with rfl | rfl <;> decide
    simp [hchars, hne.symm, Escape.lineFeed_not_mem_written hquotes]
  have hlexed : Scan.Lexed [] 0 _ _ := Scan.lexed_string hkind hspelled
  have hscans := Scan.Scans.token (p := Mark.origin 0) hlexed .done
  rw [List.append_nil, ← hchars, Mark.after_of_not_mem hline, String.ofList_toList,
    byteLength_toList, String.length_toList] at hscans
  have hplace : 1 + literal.length = literal.length + 1 := Nat.add_comm ..
  rw [Token.scan_eq_ok, ← hplace]
  simpa [Mark.origin, Mark.span] using hscans

/-- Quotes next to backslashes, ends of lines, and what looks like an escape. -/
theorem literal_reads_back_similar :
    let text := "\\'\"\\\\n\n\r\\x41\\u\x7b41\x7dé\x00\\"
    let literal := "'\\\\\\'\\\"\\\\\\\\n\\n\\r\\\\x41\\\\u\x7b41\x7dé\x00\\\\'"
    '\'' ∈ ['"', '\''] ∧ (∀ c ∈ ['"', '\''], c = '"' ∨ c = '\'') ∧
      Escape.literal ['"', '\''] '\'' text = literal ∧
      Token.scan literal = .ok [(.string text, ⟨0, 34, 1, 1⟩), (.eof, ⟨34, 34, 1, 34⟩)] := by
  intro text literal
  have hquote : '\'' ∈ ['"', '\''] := by decide
  have hquotes : ∀ c ∈ ['"', '\''], c = '"' ∨ c = '\'' := by simp
  have hliteral : Escape.literal ['"', '\''] '\'' text = literal := by decide
  have hread := literal_reads_back hquote hquotes text
  dsimp only at hread
  have hsize : literal.utf8ByteSize = 34 := by decide
  have hlength : literal.length = 33 := by decide
  rw [hliteral, hsize, hlength] at hread
  exact ⟨hquote, hquotes, hliteral, hread⟩

end Typings
