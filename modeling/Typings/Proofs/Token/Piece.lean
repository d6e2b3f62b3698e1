import Typings.Token.Scan

namespace Typings

/-- A character that stands in no token behind another one, unless that is a string or a template. -/
structure Scan.Stops (x : Char) : Prop where
  name : isNamePart x = false
  digit : ∀ base, (digitIn? base x).isSome = false
  ne_point : x ≠ '.'
  ne_sign : x ≠ '+' ∧ x ≠ '-'
  punct : ∀ p : Punct, x ∈ p.text.toList → p.text.toList.length = 1

namespace Scan.Stops

theorem brace : Stops '}' where
  name := by decide
  digit base := by
    have hvalue : digitIn? base '}' = if base < base then some base else none := rfl
    rw [hvalue, if_neg (Nat.lt_irrefl _)]
    rfl
  ne_point := by decide
  ne_sign := by decide
  punct p := by
    cases p <;> decide

theorem lineFeed : Stops '\n' where
  name := by decide
  digit base := by
    have hvalue : digitIn? base '\n' = if base < base then some base else none := rfl
    rw [hvalue, if_neg (Nat.lt_irrefl _)]
    rfl
  ne_point := by decide
  ne_sign := by decide
  punct p := by
    cases p <;> decide

variable {x : Char} (hx : Stops x)
include hx

theorem not_isDigit : isDigit x = false := (Bool.or_eq_false_iff.1 hx.name).2

theorem ne_of_isNamePart {c : Char} (hc : isNamePart c = true) : x ≠ c := by
  rintro rfl
  cases hx.name.symm.trans hc

theorem ne_underscore : x ≠ '_' := hx.ne_of_isNamePart (by decide)

theorem ne_exponent : x ≠ 'e' ∧ x ≠ 'E' :=
  ⟨hx.ne_of_isNamePart (by decide), hx.ne_of_isNamePart (by decide)⟩

theorem ne_base : x ≠ 'x' ∧ x ≠ 'X' ∧ x ≠ 'b' ∧ x ≠ 'B' ∧ x ≠ 'o' ∧ x ≠ 'O' := by
  refine ⟨?_, ?_, ?_, ?_, ?_, ?_⟩
  all_goals exact hx.ne_of_isNamePart (by decide)

end Scan.Stops

namespace Numeral

variable {digit : Char → Bool} {cs : List Char}

theorem length_group (digit : Char → Bool) (cs : List Char) :
    (group digit cs).length ≤ cs.length := by
  fun_induction group digit cs <;> simp_all

theorem length_digits (digit : Char → Bool) (cs : List Char) :
    (digits digit cs).length ≤ cs.length := by
  unfold digits
  split
  · simp
  · split
    · exact length_group digit _
    · simp

theorem length_exponent (cs : List Char) : (exponent cs).length ≤ cs.length := by
  unfold exponent
  split
  · rename_i e s rest
    have htake : (rest.takeWhile isDigit).length ≤ rest.length :=
      (List.takeWhile_prefix _).length_le
    grind
  · simp

theorem length_fraction (cs : List Char) : (fraction cs).length ≤ cs.length := by
  unfold fraction
  split
  · rename_i rest
    have hdigits := length_digits isDigit rest
    have hexponent := length_exponent (rest.drop (digits isDigit rest).length)
    simp only [List.length_drop] at hexponent
    simp only [List.cons_append, List.length_cons, List.length_append]
    omega
  · simp

theorem length_decimal (cs : List Char) : (decimal cs).length ≤ cs.length := by
  have hdigits := length_digits isDigit cs
  have hexponent := length_exponent (cs.drop (digits isDigit cs).length)
  have hfraction := length_fraction (cs.drop (digits isDigit cs).length)
  simp only [List.length_drop] at hexponent hfraction
  unfold decimal
  dsimp only
  split
  · rename_i hhead
    have hne : cs.drop (digits isDigit cs).length ≠ [] := by
      intro h
      simp [h] at hhead
    have := List.length_pos_iff.2 hne
    simp only [List.length_drop] at this
    simp only [List.length_append, List.length_cons, List.length_nil]
    omega
  · simp only [List.length_append]
    split <;> omega

theorem length_based? {length : Nat} {value : Option Float} (h : based? cs = some (length, value)) :
    0 < length ∧ length ≤ cs.length := by
  unfold based? at h
  split at h
  · rename_i letter rest
    obtain ⟨base, _, h⟩ := Option.bind_eq_some_iff.1 h
    have hdigits := length_digits (fun c => (digitIn? base c).isSome) rest
    dsimp only at h
    split at h
    · cases h
    · cases h
      simp only [List.length_cons]
      omega
  · cases h

theorem decimal_ne_nil {d : Char} (hd : isDigit d = true) (cs : List Char) :
    decimal (d :: cs) ≠ [] := by
  have hdigits : digits isDigit (d :: cs) = d :: group isDigit cs := by
    simp [digits, group, hd]
  unfold decimal
  dsimp only
  rw [hdigits]
  split <;> simp

theorem length_read? {length : Nat} {value : Option Float} (h : read? cs = some (length, value)) :
    0 < length ∧ length ≤ cs.length := by
  unfold read? at h
  split at h
  · rename_i hbased
    cases h
    exact length_based? hbased
  · split at h
    · split at h
      · cases h
        exact ⟨Nat.succ_pos _, length_fraction _⟩
      · cases h
    · split at h
      · rename_i hdigit
        cases h
        exact ⟨List.length_pos_iff.2 (decimal_ne_nil hdigit _), length_decimal _⟩
      · cases h
    · cases h

variable {w : List Char} {x : Char}

theorem group_stop (hx : Scan.Stops x) (hd : digit x = false) (cs : List Char) :
    group digit (cs ++ x :: w) = group digit cs := by
  have hstop : group digit (x :: w) = [] := by
    cases w <;> simp [group, hd, hx.ne_underscore]
  induction cs with
  | nil => exact hstop
  | cons c cs ih =>
    cases cs with
    | nil =>
      show group digit (c :: x :: w) = group digit [c]
      conv => lhs; rw [group, hstop]
      simp [group, hd]
    | cons d cs =>
      simp only [List.cons_append] at ih ⊢
      rw [group, ih]
      rfl

theorem digits_stop (hx : Scan.Stops x) (hd : digit x = false) (cs : List Char) :
    digits digit (cs ++ x :: w) = digits digit cs := by
  cases cs with
  | nil => simp [digits, hd]
  | cons c cs => rw [List.cons_append, digits, digits, ← List.cons_append, group_stop hx hd]

theorem takeWhile_stop {f : Char → Bool} (hf : f x = false) (cs : List Char) :
    (cs ++ x :: w).takeWhile f = cs.takeWhile f := by
  induction cs with
  | nil => simp [hf]
  | cons c cs ih => simp [List.takeWhile_cons, ih]

section
variable (hx : Scan.Stops x)
include hx

theorem exponent_stop (cs : List Char) : exponent (cs ++ x :: w) = exponent cs := by
  match cs with
  | [] => cases w <;> simp [exponent, hx.ne_exponent]
  | [e] => simp [exponent, hx.not_isDigit, hx.ne_sign]
  | e :: s :: rest =>
    simp only [List.cons_append, exponent, takeWhile_stop hx.not_isDigit]

theorem fraction_stop (cs : List Char) : fraction (cs ++ x :: w) = fraction cs := by
  cases cs with
  | nil => simp [fraction, hx.ne_point]
  | cons c rest =>
    by_cases hc : c = '.'
    · subst hc
      simp only [List.cons_append, fraction, digits_stop hx hx.not_isDigit,
        List.drop_append_of_le_length (length_digits isDigit rest), exponent_stop hx]
    · simp [fraction, hc]

theorem decimal_stop (cs : List Char) : decimal (cs ++ x :: w) = decimal cs := by
  have hhead : ∀ rest : List Char,
      ((rest ++ x :: w).head? == some '_') = (rest.head? == some '_') := by
    intro rest
    cases rest <;> simp [hx.ne_underscore]
  simp only [decimal, digits_stop hx hx.not_isDigit, fraction_stop hx, exponent_stop hx, hhead,
    List.drop_append_of_le_length (length_digits isDigit cs)]

theorem based?_stop (cs : List Char) : based? (cs ++ x :: w) = based? cs := by
  match cs with
  | [] =>
    have hzero : x ≠ '0' := by
      rintro rfl
      exact absurd hx.not_isDigit (by decide)
    simp [based?, hzero]
  | [c] =>
    by_cases hc : c = '0'
    · subst hc
      simp [based?, base?, hx.ne_base]
    · simp [based?, hc]
  | c :: letter :: rest =>
    by_cases hc : c = '0'
    · subst hc
      have hdigits (base : Nat) : digits (fun c => (digitIn? base c).isSome) (rest ++ x :: w) =
          digits (fun c => (digitIn? base c).isSome) rest := digits_stop hx (hx.digit base) rest
      simp only [List.cons_append, based?, hdigits]
    · simp [based?, hc]

theorem read?_stop (cs : List Char) : read? (cs ++ x :: w) = read? cs := by
  have hbased := based?_stop hx (w := w) cs
  unfold read?
  rw [hbased]
  cases hfound : based? cs with
  | some found => rfl
  | none =>
    match cs with
    | [] => simp [hx.ne_point, hx.not_isDigit]
    | [c] =>
      by_cases hc : c = '.'
      · subst hc
        simp [hx.not_isDigit]
        decide
      · have hdecimal := decimal_stop hx (w := w) [c]
        simp only [List.cons_append, List.nil_append] at hdecimal ⊢
        simp [hc, hdecimal]
    | c :: d :: rest =>
      have hdecimal := decimal_stop hx (w := w) (c :: d :: rest)
      have hfraction := fraction_stop hx (w := w) (c :: d :: rest)
      simp only [List.cons_append] at hdecimal hfraction ⊢
      by_cases hc : c = '.'
      · subst hc
        simp [hfraction]
      · simp [hc, hdecimal]

end

end Numeral

namespace Punct

theorem text_ne_nil (p : Punct) : p.text.toList ≠ [] := by cases p <;> decide

theorem text_of_ofChars? {cs : List Char} {p : Punct} (h : ofChars? cs = some p) :
    p.text.toList = cs := by
  simpa using List.find?_some h

theorem ofChars?_stop {x : Char} (hx : Scan.Stops x) {cs w : List Char} (h : cs ≠ []) :
    ofChars? (cs ++ x :: w) = none := by
  apply Option.eq_none_iff_forall_ne_some.2
  intro p hp
  have htext := text_of_ofChars? hp
  have hlength := hx.punct p (by rw [htext]; simp)
  have := List.length_pos_iff.2 h
  rw [htext, List.length_append, List.length_cons] at hlength
  omega

theorem longest?_stop {x : Char} (hx : Scan.Stops x) {cs w : List Char} (h : cs ≠ []) :
    longest? (cs ++ x :: w) = longest? cs := by
  have htake : ∀ n, ofChars? ((cs ++ x :: w).take n) =
      if n ≤ cs.length then ofChars? (cs.take n) else none := by
    intro n
    split
    · rename_i hle
      rw [List.take_append_of_le_length hle]
    · rename_i hlt
      obtain ⟨k, rfl⟩ : ∃ k, n = cs.length + (k + 1) := ⟨n - cs.length - 1, by omega⟩
      rw [List.take_length_add_append]
      exact ofChars?_stop hx h
  match cs with
  | [a] | [a, b] | [a, b, c] =>
    -- the whole of a short text is looked up several times
    simp only [longest?, List.findSome?, htake]
    simp only [List.length_cons, List.length_nil, List.take_succ_cons, List.take_nil, List.take_zero]
    simp
    split <;> simp_all
  | a :: b :: c :: d :: rest => rfl

theorem take_longest? {cs : List Char} {p : Punct} (h : longest? cs = some p) :
    cs.take p.text.length = p.text.toList := by
  obtain ⟨n, _, hn⟩ := List.exists_of_findSome?_eq_some h
  have htext := text_of_ofChars? hn
  rw [← String.length_toList, htext, List.length_take, List.take_eq_take_iff]
  omega

theorem length_longest? {cs : List Char} {p : Punct} (h : longest? cs = some p) :
    0 < p.text.length ∧ p.text.length ≤ cs.length := by
  have htake := congrArg List.length (take_longest? h)
  have hpos := List.length_pos_iff.2 p.text_ne_nil
  rw [List.length_take, String.length_toList] at htake
  rw [String.length_toList] at hpos
  omega

end Punct

namespace Scan

variable {c quote : Char} {cs rest body w : List Char} {t : Token} {length : Nat}

/-- The body of a string does not depend on what stands behind the quote that closes it. -/
theorem stringBody?_append (h : stringBody? quote cs = some body) :
    ∃ rest, cs = body ++ quote :: rest ∧
      ∀ rest', stringBody? quote (body ++ quote :: rest') = some body := by
  fun_induction stringBody? quote cs generalizing body with
  | case1 | case3 | case4 => cases h
  | case2 c cs hc =>
    cases h
    obtain rfl : c = quote := by simpa using hc
    refine ⟨cs, rfl, fun rest' => ?_⟩
    rw [List.nil_append, stringBody?.eq_def]
    simp
  | case5 c hc hslash d ds hd ih =>
    obtain ⟨body, hbody, rfl⟩ := Option.map_eq_some_iff.1 h
    obtain ⟨rest, rfl, hall⟩ := ih hbody
    exact ⟨rest, rfl, fun rest' => by simp [stringBody?, hc, hslash, hd, hall]⟩
  | case6 c cs hc hslash ih =>
    obtain ⟨body, hbody, rfl⟩ := Option.map_eq_some_iff.1 h
    obtain ⟨rest, rfl, hall⟩ := ih hbody
    refine ⟨rest, rfl, fun rest' => ?_⟩
    rw [List.cons_append, stringBody?.eq_def]
    simp [hc, hslash, hall]

theorem length_piece (h : piece c rest = .token t length) :
    0 < length ∧ length ≤ rest.length + 1 := by
  unfold piece at h
  split at h
  · cases h
    have := (List.takeWhile_prefix isNamePart (l := rest)).length_le
    simpa using this
  · split at h
    · split at h
      · rename_i hbody
        cases h
        obtain ⟨rest', rfl, _⟩ := stringBody?_append hbody
        simp only [List.length_append, List.length_cons]
        omega
      · cases h
    · split at h
      · rename_i hnumber
        cases h
        simpa using Numeral.length_read? hnumber
      · cases h
      · split at h
        · rename_i hpunct
          cases h
          simpa using Punct.length_longest? hpunct
        · cases h

theorem append_of_piece (h : piece c rest = .token t length) :
    ∃ u cs, rest = u ++ cs ∧ length = u.length + 1 := by
  obtain ⟨hpos, hle⟩ := length_piece h
  refine ⟨rest.take (length - 1), rest.drop (length - 1), (List.take_append_drop ..).symm, ?_⟩
  rw [List.length_take]
  omega

theorem piece_stop {x : Char} (hx : Stops x) (hc : c ≠ '"' ∧ c ≠ '\'') (cs : List Char) :
    piece c (cs ++ x :: w) = piece c cs := by
  have hread := Numeral.read?_stop hx (w := w) (c :: cs)
  have hlongest := Punct.longest?_stop hx (w := w) (List.cons_ne_nil c cs)
  rw [List.cons_append] at hread hlongest
  simp only [piece, Numeral.takeWhile_stop hx.name, hread, hlongest]
  simp [hc]

/-- A string may hold braces, but it never looks behind its own end. -/
theorem piece_quote {u : List Char} (hc : c = '"' ∨ c = '\'')
    (h : piece c (u ++ rest) = .token t (u.length + 1)) :
    piece c (u ++ cs) = .token t (u.length + 1) := by
  have hname : isNameStart c = false := by
    rcases hc with rfl | rfl <;> decide
  have hquote : (c == '"' || c == '\'') = true := by simpa using hc
  unfold piece at h ⊢
  simp only [hname, hquote, Bool.false_eq_true, if_false, if_true] at h ⊢
  split at h
  · rename_i body hbody
    obtain ⟨rest', happend, hall⟩ := stringBody?_append hbody
    simp only [Piece.token.injEq] at h
    obtain ⟨rfl, hlength⟩ := h
    have hu : u = body ++ [c] := by
      have happend : u ++ rest = (body ++ [c]) ++ rest' := by simpa using happend
      exact (List.append_inj happend (by simp; omega)).1
    subst hu
    rw [List.append_assoc, List.cons_append, List.nil_append, hall cs, ← hlength]
  · cases h

theorem piece_cases (h : piece c rest = .token t length) :
    (t = nameToken (c :: rest.takeWhile isNamePart) ∧ length = (rest.takeWhile isNamePart).length + 1) ∨
      (∃ s, t = .string s) ∨ (∃ x, t = .number x) ∨
      ∃ p, t = .punct p ∧ Punct.longest? (c :: rest) = some p ∧ length = p.text.length := by
  unfold piece at h
  split at h
  · cases h
    exact .inl ⟨rfl, rfl⟩
  · split at h
    · split at h
      · cases h
        exact .inr (.inl ⟨_, rfl⟩)
      · cases h
    · split at h
      · cases h
        exact .inr (.inr (.inl ⟨_, rfl⟩))
      · cases h
      · split at h
        · rename_i p hpunct
          cases h
          exact .inr (.inr (.inr ⟨p, rfl, hpunct, rfl⟩))
        · cases h

theorem nameToken_cases (name : List Char) :
    nameToken name = .identifier (String.ofList name) ∨
      ∃ k : Keyword, nameToken name = .keyword k ∧ k.text.toList = name := by
  unfold nameToken
  dsimp only
  split
  · rename_i k hk
    have htext : k.text = String.ofList name := by simpa using List.find?_some hk
    exact .inr ⟨k, rfl, by rw [htext, String.toList_ofList]⟩
  · exact .inl rfl

theorem plain_of_piece (h : piece c rest = .token t length) :
    t.isEof = false ∧ ∀ parts, t ≠ .template parts := by
  rcases piece_cases h with ⟨rfl, _⟩ | ⟨s, rfl⟩ | ⟨x, rfl⟩ | ⟨p, rfl, _, _⟩
  · rcases nameToken_cases (c :: rest.takeWhile isNamePart) with hname | ⟨k, hname, _⟩
    · rw [hname]
      exact ⟨rfl, fun _ => Token.noConfusion⟩
    · rw [hname]
      exact ⟨rfl, fun _ => Token.noConfusion⟩
  · exact ⟨rfl, fun _ => Token.noConfusion⟩
  · exact ⟨rfl, fun _ => Token.noConfusion⟩
  · exact ⟨rfl, fun _ => Token.noConfusion⟩

theorem text_of_piece_keyword {k : Keyword} (h : piece c rest = .token (.keyword k) length) :
    c :: rest.take (length - 1) = k.text.toList := by
  rcases piece_cases h with ⟨hname, rfl⟩ | ⟨s, hs⟩ | ⟨x, hx⟩ | ⟨p, hp, _, _⟩
  · rcases nameToken_cases (c :: rest.takeWhile isNamePart) with hname' | ⟨l, hname', htext⟩
    · rw [hname'] at hname
      cases hname
    · rw [hname'] at hname
      cases hname
      rw [htext, Nat.add_sub_cancel,
        ← List.prefix_iff_eq_take.1 (List.takeWhile_prefix isNamePart (l := rest))]
  · cases hs
  · cases hx
  · cases hp

theorem text_of_piece_punct {p : Punct} (h : piece c rest = .token (.punct p) length) :
    c :: rest.take (length - 1) = p.text.toList := by
  rcases piece_cases h with ⟨hname, _⟩ | ⟨s, hs⟩ | ⟨x, hx⟩ | ⟨q, hq, hlongest, rfl⟩
  · rcases nameToken_cases (c :: rest.takeWhile isNamePart) with hname' | ⟨l, hname', _⟩
    · rw [hname'] at hname
      cases hname
    · rw [hname'] at hname
      cases hname
  · cases hs
  · cases hx
  · cases hq
    obtain ⟨n, hn⟩ := Nat.exists_eq_add_of_lt (Punct.length_longest? hlongest).1
    rw [← Punct.take_longest? hlongest, hn, Nat.zero_add, Nat.add_sub_cancel, List.take_succ_cons]

end Scan

end Typings
