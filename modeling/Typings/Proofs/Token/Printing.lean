import Typings.Proofs.Token.Extent

namespace Typings

namespace Scan

variable {rest : List Char} {o : Nat}

/-- Whether a text is one name and no reserved word. -/
def isName (n : String) : Bool :=
  match n.toList with
  | [] => false
  | c :: cs => isNameStart c && cs.all isNamePart && (Keyword.ofText? n).isNone

theorem exists_of_isName {n : String} (h : isName n = true) :
    ∃ c cs, n.toList = c :: cs ∧ isNameStart c = true ∧ (∀ d ∈ cs, isNamePart d = true) ∧
      nameToken n.toList = .identifier n := by
  unfold isName at h
  split at h
  · cases h
  · rename_i c cs hn
    simp only [Bool.and_eq_true, List.all_eq_true, Option.isNone_iff_eq_none] at h
    refine ⟨c, cs, hn, h.1.1, h.1.2, ?_⟩
    simp only [nameToken, String.ofList_toList, h.2]

theorem startsPiece_of_isNameStart {c : Char} (h : isNameStart c = true) (rest : List Char) :
    startsPiece c rest = true := by
  have hne : ∀ d, isNameStart d = false → (c == d) = false := by
    intro d hd
    apply beq_false_of_ne
    rintro rfl
    cases h.symm.trans hd
  have hspace : isSpace c = false := by
    simp [isSpace, hne ' ' (by decide), hne '\t' (by decide), hne '\r' (by decide),
      hne '\n' (by decide)]
  simp [startsPiece, hspace, hne '/' (by decide), bne, hne '\ufeff' (by decide),
    hne '`' (by decide)]

theorem lexed_word {c : Char} {cs : List Char} (hc : isNameStart c = true)
    (hcs : ∀ d ∈ cs, isNamePart d = true) (hrest : ∀ c ∈ rest.head?, isNamePart c = false) :
    Lexed rest o (c :: cs) (nameToken (c :: cs)) := by
  have htake : (cs ++ rest).takeWhile isNamePart = cs := by
    rw [List.takeWhile_append_of_pos hcs]
    cases rest with
    | nil => simp
    | cons d rest => simp [hrest d rfl]
  refine .piece (startsPiece_of_isNameStart hc _) ?_
  rw [piece, if_pos hc]
  dsimp only
  rw [htake, List.length_cons]

theorem lexed_name {n : String} (hn : isName n = true)
    (hrest : ∀ c ∈ rest.head?, isNamePart c = false) :
    Lexed rest o n.toList (.identifier n) := by
  obtain ⟨c, cs, hchars, hc, hcs, htoken⟩ := exists_of_isName hn
  rw [← htoken, hchars]
  exact lexed_word hc hcs hrest

theorem stops_space : Stops ' ' where
  name := by decide
  digit base := by
    have hvalue : digitIn? base ' ' = if base < base then some base else none := rfl
    rw [hvalue, if_neg (Nat.lt_irrefl _)]
    rfl
  ne_point := by decide
  ne_sign := by decide
  punct p := by
    cases p <;> decide

end Scan

/-- Whether messages show a token as it is written: a reserved word, a punctuator or a name. -/
def Token.isSpelled : Token → Bool
  | .keyword _ | .punct _ => true
  | .identifier n => Scan.isName n
  | _ => false

/-- Tokens as they are shown, with single spaces between them. -/
def Token.print (ts : List Token) : String := " ".intercalate (ts.map Token.text)

theorem Token.toList_print_cons (t : Token) {ts : List Token} (h : ts ≠ []) :
    (Token.print (t :: ts)).toList = t.text.toList ++ ([' '] ++ (Token.print ts).toList) := by
  obtain ⟨u, ts, rfl⟩ := List.exists_cons_of_ne_nil h
  have hspace : " ".toList = [' '] := rfl
  rw [Token.print, List.map_cons, List.map_cons, String.intercalate_cons_cons, String.toList_append,
    String.toList_append, hspace, List.append_assoc, ← List.map_cons, ← Token.print]

theorem Keyword.spelling (k : Keyword) :
    ∃ c cs, k.text.toList = c :: cs ∧ Scan.isNameStart c = true ∧
      (∀ d ∈ cs, Scan.isNamePart d = true) ∧ Scan.nameToken (c :: cs) = .keyword k := by
  cases k <;> exact ⟨_, _, rfl, by decide, List.all_eq_true.1 rfl, rfl⟩

theorem Punct.spelling (p : Punct) :
    ∃ c cs, p.text.toList = c :: cs ∧ (c ≠ '"' ∧ c ≠ '\'') ∧
      Scan.startsPiece c cs = true ∧ Scan.piece c cs = .token (.punct p) (cs.length + 1) := by
  cases p <;> exact ⟨_, _, rfl, by decide, by decide, rfl⟩

namespace Scan

variable {rest : List Char} {o : Nat}

theorem piece_end {c : Char} (hc : c ≠ '"' ∧ c ≠ '\'') (cs : List Char)
    (hrest : ∀ d ∈ rest.head?, d = ' ') :
    piece c (cs ++ rest) = piece c cs := by
  cases rest with
  | nil => rw [List.append_nil]
  | cons d rest =>
    obtain rfl := hrest d rfl
    exact piece_stop stops_space hc cs

theorem startsPiece_end (c : Char) (cs : List Char) (hrest : ∀ d ∈ rest.head?, d = ' ') :
    startsPiece c (cs ++ rest) = startsPiece c cs := by
  cases cs with
  | cons d cs => rfl
  | nil =>
    cases rest with
    | nil => rfl
    | cons d rest =>
      obtain rfl := hrest d rfl
      simp [startsPiece]

theorem lexed_punct (p : Punct) (hrest : ∀ d ∈ rest.head?, d = ' ') :
    Lexed rest o p.text.toList (.punct p) := by
  obtain ⟨c, cs, hchars, hquote, hstarts, hpiece⟩ := p.spelling
  rw [hchars]
  exact .piece ((startsPiece_end c cs hrest).trans hstarts) ((piece_end hquote cs hrest).trans hpiece)

theorem lexed_keyword (k : Keyword) (hrest : ∀ d ∈ rest.head?, isNamePart d = false) :
    Lexed rest o k.text.toList (.keyword k) := by
  obtain ⟨c, cs, hchars, hc, hcs, htoken⟩ := k.spelling
  rw [hchars, ← htoken]
  exact lexed_word hc hcs hrest

theorem lexed_text {t : Token} (ht : t.isSpelled = true) (hrest : ∀ d ∈ rest.head?, d = ' ') :
    Lexed rest o t.text.toList t := by
  have hpart : ∀ d ∈ rest.head?, isNamePart d = false := by
    intro d hd
    rw [hrest d hd]
    decide
  cases t with
  | keyword k => exact lexed_keyword k hpart
  | punct p => exact lexed_punct p hrest
  | identifier n => exact lexed_name ht hpart
  | _ => cases ht

/-- Printed tokens are scanned as they were, wherever they stand. -/
theorem scans_print {ts : List Token} (hts : ∀ t ∈ ts, t.isSpelled = true) (p : Mark) :
    ∃ us, Scans (Token.print ts).toList p us ∧ us.map (·.1) = ts ++ [.eof] := by
  induction ts generalizing p with
  | nil => exact ⟨_, .done, rfl⟩
  | cons t ts ih =>
    have ht := hts t List.mem_cons_self
    by_cases hnil : ts = []
    · subst hnil
      have hprint : (Token.print [t]).toList = t.text.toList ++ [] := by
        rw [Token.print, List.map_singleton, String.intercalate_singleton, List.append_nil]
      rw [hprint]
      exact ⟨_, .token (lexed_text ht (by simp)) .done, rfl⟩
    · -- one token, one space, and the rest where the space ends
      obtain ⟨us, hscans, hus⟩ := ih (fun u hu => hts u (List.mem_cons_of_mem _ hu))
        ((p.after t.text.toList).next ' ')
      rw [Token.toList_print_cons t hnil]
      refine ⟨_, .token (lexed_text ht (by simp)) (.gap (.blank rfl) hscans), ?_⟩
      rw [List.map_cons, hus, List.cons_append]

end Scan

/-- Reserved words, punctuators and names, printed with single spaces, are scanned as they were. -/
theorem scan_print {ts : List Token} (hts : ∀ t ∈ ts, t.isSpelled = true) :
    ∃ us, Token.scan (Token.print ts) = .ok us ∧ us.map (·.1) = ts ++ [.eof] := by
  obtain ⟨us, hscans, hus⟩ := Scan.scans_print hts (Mark.origin 0)
  exact ⟨us, Token.scan_eq_ok.2 hscans, hus⟩

/-- Slashes and stars side by side, operators that begin others, and names that begin with reserved words. -/
theorem scan_print_similar :
    let ts : List Token := [.punct .slash, .punct .slash, .punct .star, .punct .slash, .punct .slashEqual,
      .punct .greater, .punct .greaterGreaterGreater, .punct .greaterGreaterGreaterEqual, .punct .dot,
      .punct .dotDotDot, .punct .question, .punct .questionDot, .keyword .kwIn, .keyword .kwInstanceof,
      .identifier "instance", .identifier "in0", .identifier "$new"]
    (∀ t ∈ ts, t.isSpelled = true) ∧
      ∃ us, Token.scan (Token.print ts) = .ok us ∧ us.map (·.1) = ts ++ [.eof] := by
  intro ts
  have hts : ∀ t ∈ ts, t.isSpelled = true := by decide
  exact ⟨hts, scan_print hts⟩

end Typings
