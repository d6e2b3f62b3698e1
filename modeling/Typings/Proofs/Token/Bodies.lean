import Typings.Proofs.Token.Tiling

namespace Typings

namespace Escape

variable {quote : Char} {allowed : Char → Prop} {body cs rest : List Char}

/--
The bodies of literals, read from left to right: a backslash takes the character behind it, which has
to be `allowed`, and no other quote occurs.
-/
inductive Body (quote : Char) (allowed : Char → Prop) : List Char → Prop
  | nil : Body quote allowed []
  | plain {c : Char} {cs : List Char} (hc : c ≠ quote ∧ c ≠ '\\') (h : Body quote allowed cs) :
      Body quote allowed (c :: cs)
  | escaped {d : Char} {cs : List Char} (hd : allowed d) (h : Body quote allowed cs) :
      Body quote allowed ('\\' :: d :: cs)

theorem Body.of_stringBody? (h : Scan.stringBody? quote cs = some body) :
    Body quote (· ≠ '\n') body := by
  fun_induction Scan.stringBody? quote cs generalizing body with
  | case1 | case3 | case4 => cases h
  | case2 =>
    cases h
    exact .nil
  | case5 c hquote hslash d ds hd ih =>
    obtain ⟨body, hbody, rfl⟩ := Option.map_eq_some_iff.1 h
    obtain rfl : c = '\\' := by simpa using hslash
    exact .escaped (by simpa using hd) (ih hbody)
  | case6 c cs hquote hslash ih =>
    obtain ⟨body, hbody, rfl⟩ := Option.map_eq_some_iff.1 h
    exact .plain ⟨by simpa using hquote, by simpa using hslash⟩ (ih hbody)

theorem stringBody?_plain {c : Char} (hc : c ≠ quote ∧ c ≠ '\\') (cs : List Char) :
    Scan.stringBody? quote (c :: cs) = (Scan.stringBody? quote cs).map (c :: ·) := by
  rw [Scan.stringBody?.eq_def]
  simp [hc]

theorem stringBody?_escaped (hquote : quote ≠ '\\') (d : Char) (cs : List Char) :
    Scan.stringBody? quote ('\\' :: d :: cs) =
      if d = '\n' then none else (Scan.stringBody? quote cs).map ('\\' :: d :: ·) := by
  simp [Scan.stringBody?, hquote.symm]

theorem Body.stringBody?_eq_some (hquote : quote ≠ '\\') (h : Body quote (· ≠ '\n') body) :
    Scan.stringBody? quote (body ++ quote :: rest) = some body := by
  induction h with
  | nil => simp [Scan.stringBody?.eq_def]
  | plain hc _ ih => rw [List.cons_append, stringBody?_plain hc, ih, Option.map_some]
  | escaped hd _ ih =>
    rw [List.cons_append, List.cons_append, stringBody?_escaped hquote, if_neg hd, ih,
      Option.map_some]

theorem Body.stringBody?_eq_none (hquote : quote ≠ '\\') (h : Body quote (fun _ => True) body)
    (hfeed : ¬ Body quote (· ≠ '\n') body) (rest : List Char) :
    Scan.stringBody? quote (body ++ rest) = none := by
  induction h with
  | nil => exact absurd .nil hfeed
  | plain hc _ ih =>
    rw [List.cons_append, stringBody?_plain hc, ih fun h => hfeed (.plain hc h), Option.map_none]
  | @escaped d cs _ _ ih =>
    rw [List.cons_append, List.cons_append, stringBody?_escaped hquote]
    split
    · rfl
    · rename_i hd
      rw [ih fun h => hfeed (.escaped hd h), Option.map_none]

end Escape

namespace Scan

variable {quote : Char} {body rest : List Char} {p : Mark}

theorem startsPiece_quote (hquote : quote = '"' ∨ quote = '\'') (rest : List Char) :
    startsPiece quote rest = true := by
  rcases hquote with rfl | rfl <;> simp [startsPiece, isSpace]

theorem piece_string (hquote : quote = '"' ∨ quote = '\'') (h : stringBody? quote rest = some body) :
    piece quote rest = .token (.string (String.ofList (Escape.cook body))) (body.length + 2) := by
  have hname : isNameStart quote = false := by
    rcases hquote with rfl | rfl <;> decide
  simp [piece, hname, hquote, h]

theorem piece_openString (hquote : quote = '"' ∨ quote = '\'') (h : stringBody? quote rest = none) :
    piece quote rest = .openString := by
  have hname : isNameStart quote = false := by
    rcases hquote with rfl | rfl <;> decide
  simp [piece, hname, hquote, h]

theorem tokens_openString (hquote : quote = '"' ∨ quote = '\'') (h : stringBody? quote rest = none) :
    tokens (quote :: rest) p = ([], [⟨.unterminatedString, p⟩]) := by
  have hpiece := piece_openString hquote h
  rw [tokens]
  rcases hquote with rfl | rfl <;> simp [isSpace, hpiece]

theorem lexed_body (hquote : quote = '"' ∨ quote = '\'')
    (h : stringBody? quote (body ++ quote :: rest) = some body) {o : Nat} :
    Lexed rest o (quote :: (body ++ [quote])) (.string (String.ofList (Escape.cook body))) := by
  refine .piece (startsPiece_quote hquote _) ?_
  rw [List.append_assoc, List.cons_append, List.nil_append, piece_string hquote h,
    List.length_append, List.length_singleton]

theorem stringBody?_of_scans (hquote : quote = '"' ∨ quote = '\'') {t : Token} {s : Span}
    {ts : List Lexeme} (h : Scans (quote :: (body ++ [quote])) p ((t, s) :: ts))
    (hstop : s.stop = p.offset + byteLength (quote :: (body ++ [quote]))) :
    stringBody? quote (body ++ [quote]) = some body := by
  have htokens := h.tokens_eq
  cases hfound : stringBody? quote (body ++ [quote]) with
  | none =>
    rw [tokens_openString hquote hfound] at htokens
    cases htokens
  | some found =>
    obtain ⟨rest, happend, _⟩ := stringBody?_append hfound
    have htake : (body ++ [quote]).take (found.length + 2 - 1) = found ++ [quote] := by
      rw [happend, ← List.singleton_append, ← List.append_assoc, List.take_left' (by simp)]
    rw [tokens_piece (startsPiece_quote hquote _) (piece_string hquote hfound)
      (congrArg (fun u => p.after (quote :: u)) htake)] at htokens
    -- The token ends behind the quote that was found, so nothing is left behind that.
    have hspan : s.stop = (p.after (quote :: (found ++ [quote]))).offset := by
      obtain ⟨hfirst, _⟩ := List.cons.inj (Prod.mk.inj htokens).1
      exact congrArg (·.2.stop) hfirst.symm
    have hrest : rest = [] := by
      by_contra hne
      have hpos := byteLength_pos hne
      have hlength := congrArg byteLength happend
      rw [hspan, Mark.offset_after] at hstop
      simp only [byteLength_cons, byteLength_append, byteLength_nil] at hstop hlength
      omega
    subst hrest
    rw [(List.append_inj_left' happend rfl)]

end Scan

/--
A body between two quotes is scanned as one string token that stands for what its escapes are
replaced by, and then the end, exactly where no backslash stands before a line feed. With such a line
feed, a body is reported as a literal that does not end.
-/
theorem literal_scans_iff {quote : Char} (hquote : quote = '"' ∨ quote = '\'') (body : String) :
    let literal := String.ofList (quote :: (body.toList ++ [quote]))
    let stop := (Mark.origin 0).after literal.toList
    (Token.scan literal = .ok
        [(.string (String.ofList (Escape.cook body.toList)), ⟨0, literal.utf8ByteSize, 1, 1⟩),
          (.eof, stop.span stop.offset)] ↔
      Escape.Body quote (· ≠ '\n') body.toList) ∧
    (Escape.Body quote (fun _ => True) body.toList → ¬ Escape.Body quote (· ≠ '\n') body.toList →
      Token.scan literal = .error [⟨.unterminatedString, Mark.origin 0⟩]) := by
  intro literal stop
  have hslash : quote ≠ '\\' := by
    rcases hquote with rfl | rfl <;> decide
  have hchars : literal.toList = quote :: (body.toList ++ [quote]) := String.toList_ofList
  have hsize : literal.utf8ByteSize = byteLength (quote :: (body.toList ++ [quote])) := by
    rw [← byteLength_toList, hchars]
  refine ⟨⟨fun h => ?_, fun h => ?_⟩, fun hbody hfeed => ?_⟩
  · rw [Token.scan_eq_ok, hchars] at h
    have hstop := hsize.trans (Nat.zero_add _).symm
    exact .of_stringBody? (Scan.stringBody?_of_scans hquote h hstop)
  · have hlexed : Scan.Lexed [] 0 _ _ := Scan.lexed_body hquote (h.stringBody?_eq_some hslash)
    have hscans := Scan.Scans.token (p := Mark.origin 0) hlexed .done
    rw [List.append_nil, ← hchars] at hscans
    have hstop : stop.offset = literal.utf8ByteSize := by
      simp [stop, Mark.offset_after, Mark.origin, byteLength_toList]
    rw [Token.scan_eq_ok, ← hstop]
    exact hscans
  · have hopen := Scan.tokens_openString (p := Mark.origin 0) hquote
      (hbody.stringBody?_eq_none hslash hfeed [quote])
    rw [Token.scan, hchars, hopen]
    rfl

/-- Quotes of both kinds, a backslash that stands for itself, and a line feed without one. -/
theorem literal_scans_iff_withLineFeed :
    let body := "\\\"'\\\\\n\\x41"
    let literal := "\"\\\"'\\\\\n\\x41\""
    ('"' = '"' ∨ '"' = '\'') ∧ Escape.Body '"' (· ≠ '\n') body.toList ∧
      Token.scan literal = .ok
        [(.string "\"'\\\nA", ⟨0, 12, 1, 1⟩), (.eof, ⟨12, 12, 2, 6⟩)] := by
  intro body literal
  have hquote : '"' = '"' ∨ '"' = '\'' := .inl rfl
  have hchars : body.toList = ['\\', '"', '\'', '\\', '\\', '\n', '\\', 'x', '4', '1'] := by decide
  have hbody : Escape.Body '"' (· ≠ '\n') body.toList := by
    rw [hchars]
    exact .escaped (by decide) <| .plain (by decide) <| .escaped (by decide) <| .plain (by decide) <|
      .escaped (by decide) <| .plain (by decide) <| .plain (by decide) .nil
  have hcook : Escape.cook body.toList = "\"'\\\nA".toList := by
    have hbyte : Escape.byte? (Escape.hexRun 2 ['4', '1']).1 = some 'A' := by decide
    have hrest : (Escape.hexRun 2 ['4', '1']).2 = [] := by decide
    simp [hchars, Escape.cook, Escape.simple, hbyte, hrest]
  have hliteral : String.ofList ('"' :: (body.toList ++ ['"'])) = literal := by decide
  have hscan := (literal_scans_iff hquote body).1.2 hbody
  have hsize : literal.utf8ByteSize = 12 := by decide
  have hstop : (Mark.origin 0).after literal.toList = ⟨12, 2, 6⟩ := by decide
  rw [hcook, String.ofList_toList, hliteral, hsize, hstop] at hscan
  exact ⟨hquote, hbody, hscan⟩

/-- A line is continued inside a literal: its escapes can be replaced, but it has no end. -/
theorem continued_literal_not_scanned :
    Escape.Body '\'' (fun _ => True) ['\\', '\n'] ∧ Escape.cook ['\\', '\n'] = [] ∧
      Token.scan "'\\\n'" = .error [⟨.unterminatedString, ⟨0, 1, 1⟩⟩] := by
  refine ⟨.escaped trivial .nil, by simp [Escape.cook], ?_⟩
  have hopen : Scan.tokens "'\\\n'".toList (Mark.origin 0) = ([], [⟨.unterminatedString, ⟨0, 1, 1⟩⟩]) :=
    Scan.tokens_openString (.inr rfl) (by decide)
  rw [Token.scan, hopen]
  rfl

end Typings
