import Mathlib.Data.List.Forall2
import Typings.Proofs.Token.Piece

namespace Typings

namespace Scan

/-- Text without tokens at `p`, before `rest`, and the place behind it. -/
inductive Gap (rest : List Char) (p : Mark) : List Char → Mark → Prop
  | blank {c : Char} (h : isSpace c = true) : Gap rest p [c] (p.next c)
  | line {body : List Char} (hbody : ∀ c ∈ body, c ≠ '\n') (hrest : ∀ c ∈ rest.head?, c = '\n') :
      Gap rest p ('/' :: '/' :: body) (p.afterBytes ('/' :: '/' :: body))
  | block {body : List Char} (h : comment? (body ++ rest) = some body) :
      Gap rest p ('/' :: '*' :: body) (p.afterBytes ('/' :: '*' :: body))
  | byteOrder : Gap rest p ['\ufeff'] { p with offset := p.offset + '\ufeff'.utf8Size }

inductive RawPart.Reads : RawPart → TemplatePart → Prop
  | text (raw : List Char) : Reads (.text raw) (textPart raw)
  | substitution {offset : Nat} {inner : List Char} {ts : List Lexeme}
      (h : tokens inner (Mark.origin (offset + 2)) = (ts, [])) :
      Reads (.substitution offset inner) (.substitution (ts.filter (!·.1.isEof)))

/-- Whether a piece that is no template starts with `c`. -/
def startsPiece (c : Char) (rest : List Char) : Bool :=
  !isSpace c && !(c == '/' && (rest.head? == some '/' || rest.head? == some '*')) &&
    c != '\ufeff' && c != '`'

inductive Lexed (rest : List Char) (offset : Nat) : List Char → Token → Prop
  | piece {c : Char} {u : List Char} {t : Token} (hc : startsPiece c (u ++ rest) = true)
      (h : piece c (u ++ rest) = .token t (u.length + 1)) : Lexed rest offset (c :: u) t
  | template {u : List Char} {parts : List TemplatePart}
      (hending : (rawTemplate (offset + 1) (u ++ rest)).ending = .closed rest)
      (hparts : List.Forall₂ RawPart.Reads (rawTemplate (offset + 1) (u ++ rest)).pieces parts) :
      Lexed rest offset ('`' :: u) (.template parts)

/-- The tokens of a text that has no errors. -/
inductive Scans : List Char → Mark → List Lexeme → Prop
  | done {p : Mark} : Scans [] p [(.eof, p.span p.offset)]
  | gap {u cs : List Char} {p p' : Mark} {ts : List Lexeme} (h : Gap cs p u p')
      (hrest : Scans cs p' ts) : Scans (u ++ cs) p ts
  | token {u cs : List Char} {p : Mark} {t : Token} {ts : List Lexeme} (h : Lexed cs p.offset u t)
      (hrest : Scans cs (p.after u) ts) :
      Scans (u ++ cs) p ((t, p.span (p.after u).offset) :: ts)

variable {c : Char} {cs rest body : List Char} {p : Mark} {t : Token}

theorem tokens_blank (h : isSpace c = true) : tokens (c :: rest) p = tokens rest (p.next c) := by
  rw [tokens, if_pos h]

theorem tokens_lineComment : tokens ('/' :: '/' :: rest) p =
    tokens (rest.dropWhile (· != '\n')) (p.afterBytes ('/' :: '/' :: rest.takeWhile (· != '\n'))) := by
  rw [tokens, if_neg (by decide), if_pos (by simp)]
  rfl

theorem tokens_blockComment (h : comment? rest = some body) : tokens ('/' :: '*' :: rest) p =
    tokens (rest.drop body.length) (p.afterBytes ('/' :: '*' :: body)) := by
  rw [tokens, if_neg (by decide), if_neg (by simp), if_pos (by simp)]
  simp only [List.drop_succ_cons, List.drop_zero, h]

theorem tokens_byteOrder : tokens ('\ufeff' :: rest) p =
    tokens rest { p with offset := p.offset + '\ufeff'.utf8Size } := by
  rw [tokens, if_neg (by decide), if_neg (by simp), if_neg (by simp), if_pos (by simp)]

/-- The part that a piece of a template is, or where it goes wrong. -/
def RawPart.result : RawPart → Except Nat TemplatePart
  | .text raw => .ok (textPart raw)
  | .substitution offset inner =>
    if (tokens inner (Mark.origin (offset + 2))).2.isEmpty then
      .ok (.substitution ((tokens inner (Mark.origin (offset + 2))).1.filter (!·.1.isEof)))
    else .error offset

theorem RawPart.result_eq_ok_iff {raw : RawPart} {part : TemplatePart} :
    raw.result = .ok part ↔ raw.Reads part := by
  cases raw with
  | text raw =>
    constructor
    · intro h
      cases h
      exact .text raw
    · intro h
      cases h
      rfl
  | substitution offset inner =>
    rw [RawPart.result]
    rcases hts : tokens inner (Mark.origin (offset + 2)) with ⟨ts, es⟩
    cases es with
    | nil =>
      constructor
      · intro h
        cases h
        exact .substitution hts
      · intro h
        cases h with
        | substitution h =>
          rw [h] at hts
          cases hts
          rfl
    | cons e es =>
      constructor
      · intro h
        cases h
      · intro h
        cases h with
        | substitution h =>
          rw [h] at hts
          cases hts

theorem firstError_eq_ok_iff {raws : List RawPart} {parts : List TemplatePart} :
    firstError (raws.map RawPart.result) = .ok parts ↔ List.Forall₂ RawPart.Reads raws parts := by
  induction raws generalizing parts with
  | nil =>
    rw [List.forall₂_nil_left_iff]
    constructor
    · intro h
      cases h
      rfl
    · rintro rfl
      rfl
  | cons raw raws ih =>
    rw [List.forall₂_cons_left_iff, List.map_cons]
    cases hraw : raw.result with
    | error e =>
      constructor
      · intro h
        cases h
      · rintro ⟨part, _, hpart, _⟩
        rw [RawPart.result_eq_ok_iff.2 hpart] at hraw
        cases hraw
    | ok part =>
      have hpart := RawPart.result_eq_ok_iff.1 hraw
      rw [firstError]
      cases hraws : firstError (raws.map RawPart.result) with
      | error e =>
        constructor
        · intro h
          cases h
        · rintro ⟨_, rest, _, hrest, _⟩
          rw [ih.2 hrest] at hraws
          cases hraws
      | ok rest =>
        constructor
        · intro h
          cases h
          exact ⟨part, rest, hpart, ih.1 hraws, rfl⟩
        · rintro ⟨part', rest', hpart', hrest', rfl⟩
          rw [RawPart.result_eq_ok_iff.2 hpart'] at hraw
          rw [ih.2 hrest'] at hraws
          cases hraw
          cases hraws
          rfl

theorem map_result_pieces (raw : RawTemplate) :
    (if raw.lead.isEmpty then [] else [.ok (textPart raw.lead)]) ++
      raw.parts.attach.map (fun
        | ⟨.text t, _⟩ => .ok (textPart t)
        | ⟨.substitution offset inner, _⟩ =>
          if (tokens inner (Mark.origin (offset + 2))).2.isEmpty then
            .ok (.substitution ((tokens inner (Mark.origin (offset + 2))).1.filter (!·.1.isEof)))
          else .error offset) =
      raw.pieces.map RawPart.result := by
  have hparts : raw.parts.attach.map (fun x => x.1.result) = raw.parts.map RawPart.result :=
    List.attach_map_val ..
  refine (congrArg (_ ++ ·) (List.map_congr_left (g := fun x => x.1.result) ?_)).trans ?_
  · rintro ⟨x, _⟩ _
    cases x <;> rfl
  · rw [RawTemplate.pieces, apply_ite (List.map RawPart.result), List.map_cons, ← hparts]
    split <;> rfl

theorem tokens_template {after : List Char} {parts : List TemplatePart}
    (hparts : List.Forall₂ RawPart.Reads (rawTemplate (p.offset + 1) rest).pieces parts)
    (hending : (rawTemplate (p.offset + 1) rest).ending = .closed after) {stop : Mark}
    (hstop : p.after ('`' :: rest.take (rest.length - after.length)) = stop) :
    tokens ('`' :: rest) p =
      ((.template parts, p.span stop.offset) :: (tokens after stop).1, (tokens after stop).2) := by
  have hok := firstError_eq_ok_iff.2 hparts
  rw [← map_result_pieces] at hok
  rw [tokens, if_neg (by decide), if_neg (by simp), if_neg (by simp), if_neg (by simp),
    if_pos (by simp)]
  dsimp only
  split
  · rename_i herror
    cases hok.symm.trans herror
  · rename_i hopen
    cases hending.symm.trans hopen
  · rename_i hopen
    cases hending.symm.trans hopen
  · rename_i hparts' hclosed
    cases hok.symm.trans hparts'
    cases hending.symm.trans hclosed
    rw [← hstop]

theorem tokens_piece {length : Nat} (hc : startsPiece c rest = true)
    (h : piece c rest = .token t length) {stop : Mark}
    (hstop : p.after (c :: rest.take (length - 1)) = stop) :
    tokens (c :: rest) p =
      ((t, p.span stop.offset) :: (tokens (rest.drop (length - 1)) stop).1,
        (tokens (rest.drop (length - 1)) stop).2) := by
  simp only [startsPiece, Bool.and_eq_true, Bool.not_eq_true', bne_iff_ne, ne_eq,
    Bool.and_eq_false_iff, Bool.or_eq_false_iff] at hc
  obtain ⟨⟨⟨hspace, hcomment⟩, horder⟩, htemplate⟩ := hc
  have hline : (c == '/' && rest.head? == some '/') = false := by grind
  have hblock : (c == '/' && rest.head? == some '*') = false := by grind
  rw [tokens, if_neg (by simp [hspace]), if_neg (by simp only [hline]; decide),
    if_neg (by simp only [hblock]; decide), if_neg (by simpa using horder),
    if_neg (by simpa using htemplate), ← hstop]
  simp only [h]

/-- What a relation says of a text is what the scanner finds in it. -/
theorem Scans.tokens_eq {ts : List Lexeme} (h : Scans cs p ts) : tokens cs p = (ts, []) := by
  induction h with
  | done => rw [tokens]
  | @gap u cs p p' ts h _ ih =>
    rw [← ih]
    cases h with
    | blank h => exact tokens_blank h
    | @line body hbody hrest =>
      have hinside : ∀ c ∈ body, (c != '\n') = true := by simpa using hbody
      have htake : cs.takeWhile (· != '\n') = [] := by
        cases cs with
        | nil => rfl
        | cons c cs => simp [hrest c rfl]
      have hdrop : cs.dropWhile (· != '\n') = cs := by
        cases cs with
        | nil => rfl
        | cons c cs => simp [hrest c rfl]
      show tokens ('/' :: '/' :: (body ++ cs)) p = _
      rw [tokens_lineComment, List.takeWhile_append_of_pos hinside, htake,
        List.dropWhile_append_of_pos hinside, hdrop, List.append_nil]
    | @block body h =>
      show tokens ('/' :: '*' :: (body ++ cs)) p = _
      rw [tokens_blockComment h, List.drop_left]
    | byteOrder => exact tokens_byteOrder
  | @token u cs p t ts h _ ih =>
    cases h with
    | @piece c u t hc h =>
      have hstop : p.after (c :: (u ++ cs).take (u.length + 1 - 1)) = p.after (c :: u) := by
        rw [Nat.add_sub_cancel, List.take_left]
      show tokens (c :: (u ++ cs)) p = _
      rw [tokens_piece hc h hstop, Nat.add_sub_cancel, List.drop_left, ih]
    | @template u parts hending hparts =>
      have hstop : p.after ('`' :: (u ++ cs).take ((u ++ cs).length - cs.length)) =
          p.after ('`' :: u) := by
        rw [List.length_append, Nat.add_sub_cancel, List.take_left]
      show tokens ('`' :: (u ++ cs)) p = _
      rw [tokens_template hparts hending hstop, ih]

theorem comment?_append (h : comment? cs = some body) :
    body ≠ [] ∧ ∃ rest, cs = body ++ rest ∧ ∀ rest', comment? (body ++ rest') = some body := by
  fun_induction comment? cs generalizing body with
  | case1 => cases h
  | case2 rest =>
    cases h
    exact ⟨List.cons_ne_nil _ _, rest, rfl, fun rest' => rfl⟩
  | case3 c cs hc ih =>
    obtain ⟨body, hbody, rfl⟩ := Option.map_eq_some_iff.1 h
    obtain ⟨hne, rest, rfl, hall⟩ := ih hbody
    obtain ⟨d, body, rfl⟩ := List.exists_cons_of_ne_nil hne
    refine ⟨List.cons_ne_nil _ _, rest, rfl, fun rest' => ?_⟩
    rw [List.cons_append, comment?, hall]
    · rfl
    · intro tail hstar hslash
      obtain ⟨rfl, _⟩ := List.cons.inj hslash
      exact hc _ hstar rfl

theorem substitution?_append {depth : Nat} {inner : List Char}
    (h : substitution? depth cs = some (inner, rest)) :
    cs = inner ++ '}' :: rest ∧
      ∀ rest', substitution? depth (inner ++ '}' :: rest') = some (inner, rest') := by
  fun_induction substitution? depth cs generalizing inner rest with
  | case1 => cases h
  | case2 depth c cs hc ih =>
    obtain ⟨⟨inner, rest⟩, hinner, hpair⟩ := Option.map_eq_some_iff.1 h
    cases hpair
    obtain ⟨rfl, hall⟩ := ih hinner
    refine ⟨rfl, fun rest' => ?_⟩
    simp [substitution?, hc, hall]
  | case3 c cs hc hd =>
    cases h
    obtain rfl : c = '}' := by simpa using hd
    exact ⟨rfl, fun rest' => rfl⟩
  | case4 c cs hc hd depth ih =>
    obtain ⟨⟨inner, rest⟩, hinner, hpair⟩ := Option.map_eq_some_iff.1 h
    cases hpair
    obtain ⟨rfl, hall⟩ := ih hinner
    refine ⟨rfl, fun rest' => ?_⟩
    simp [substitution?, hc, hd, hall]
  | case5 depth c cs hc hd ih =>
    obtain ⟨⟨inner, rest⟩, hinner, hpair⟩ := Option.map_eq_some_iff.1 h
    cases hpair
    obtain ⟨rfl, hall⟩ := ih hinner
    refine ⟨rfl, fun rest' => ?_⟩
    simp [substitution?, hc, hd, hall]

theorem rawTemplate_substitution {offset : Nat} {inner after : List Char}
    (h : substitution? 0 rest = some (inner, after)) :
    rawTemplate offset ('$' :: '{' :: rest) =
      ⟨[], .substitution offset inner :: (rawTemplate (offset + 3 + byteLength inner) after).pieces,
        (rawTemplate (offset + 3 + byteLength inner) after).ending⟩ := by
  rw [rawTemplate]
  split
  · rename_i hnone
    cases h.symm.trans hnone
  · rename_i hsome
    cases h.symm.trans hsome
    rfl

theorem rawTemplate_openSubstitution {offset : Nat} (h : substitution? 0 rest = none) :
    rawTemplate offset ('$' :: '{' :: rest) = ⟨[], [], .openSubstitution offset⟩ := by
  rw [rawTemplate]
  split
  · rfl
  · rename_i hsome
    cases h.symm.trans hsome

theorem rawTemplate_append {offset : Nat} (h : (rawTemplate offset cs).ending = .closed rest) :
    ∃ u, u ≠ [] ∧ cs = u ++ rest ∧ ∀ rest', rawTemplate offset (u ++ rest') =
      ⟨(rawTemplate offset cs).lead, (rawTemplate offset cs).parts, .closed rest'⟩ := by
  fun_induction rawTemplate offset cs with
  | case1 | case3 | case5 => cases h
  | case2 offset rest =>
    cases h
    exact ⟨['`'], by simp, rfl, fun rest' => by simp [rawTemplate]⟩
  | case4 offset c cs r ih =>
    obtain ⟨u, _, rfl, hall⟩ := ih h
    refine ⟨'\\' :: c :: u, by simp, rfl, fun rest' => ?_⟩
    rw [List.cons_append, List.cons_append, rawTemplate, hall]
  | case6 offset cs inner after hs r ih =>
    obtain ⟨u, _, rfl, hall⟩ := ih h
    obtain ⟨rfl, hs'⟩ := substitution?_append hs
    refine ⟨'$' :: '{' :: (inner ++ '}' :: u), by simp, by simp, fun rest' => ?_⟩
    have happend : '$' :: '{' :: (inner ++ '}' :: u) ++ rest' =
        '$' :: '{' :: (inner ++ '}' :: (u ++ rest')) := by simp
    rw [happend, rawTemplate_substitution (hs' _), hall]
    rfl
  | case7 offset c cs hclose hlast hescape hopen r ih =>
    obtain ⟨u, hne, rfl, hall⟩ := ih h
    obtain ⟨d, u, rfl⟩ := List.exists_cons_of_ne_nil hne
    refine ⟨c :: d :: u, by simp, rfl, fun rest' => ?_⟩
    have hall := hall rest'
    rw [List.cons_append] at hall
    rw [List.cons_append, List.cons_append, rawTemplate, hall]
    · exact hclose
    · intro _ hnil
      cases hnil
    · intro e rest'' hc hcons
      exact hescape d (u ++ rest) hc rfl
    · intro rest'' hc hcons
      obtain ⟨rfl, _⟩ := List.cons.inj hcons
      exact hopen _ hc rfl

/-- Where the scanner finds nothing wrong, the relation says what it finds. -/
theorem scans_of_tokens {ts : List Lexeme} (h : tokens cs p = (ts, [])) : Scans cs p ts := by
  induction hn : cs.length using Nat.strongRecOn generalizing cs p ts with
  | _ n ih =>
    subst hn
    cases cs with
    | nil =>
      rw [tokens] at h
      cases h
      exact .done
    | cons c rest =>
      rw [tokens] at h
      split at h
      · rename_i hspace
        exact .gap (.blank hspace) (ih _ (by simp) h rfl)
      split at h
      · rename_i hline
        simp only [Bool.and_eq_true, beq_iff_eq, List.head?_eq_some_iff] at hline
        obtain ⟨rfl, rest, rfl⟩ := hline
        have hsplit : '/' :: '/' :: rest = ('/' :: '/' :: rest.takeWhile (· != '\n')) ++
            rest.dropWhile (· != '\n') := by simp
        have hlength := congrArg List.length hsplit
        rw [List.length_append] at hlength
        have hrest := ih (rest.dropWhile (· != '\n')).length (by simp at hlength ⊢; omega) h rfl
        rw [hsplit]
        refine .gap (.line ?_ ?_) hrest
        · intro c hc
          simpa using List.all_eq_true.1 List.all_takeWhile c hc
        · intro c hc
          have hhead := List.head?_dropWhile_not (· != '\n') rest
          rw [Option.mem_def.1 hc] at hhead
          simpa using hhead
      split at h
      · rename_i hblock
        simp only [Bool.and_eq_true, beq_iff_eq, List.head?_eq_some_iff] at hblock
        obtain ⟨rfl, rest, rfl⟩ := hblock
        split at h
        · rename_i body hbody
          simp only [List.drop_succ_cons, List.drop_zero] at hbody h
          obtain ⟨_, rest, rfl, _⟩ := comment?_append hbody
          rw [List.drop_left] at h
          exact .gap (.block hbody) (ih _ (by simp; omega) h rfl)
        · cases h
      split at h
      · rename_i horder
        obtain rfl : c = '\ufeff' := by simpa using horder
        exact .gap .byteOrder (ih _ (by simp) h rfl)
      split at h
      · rename_i htemplate
        obtain rfl : c = '`' := by simpa using htemplate
        dsimp only at h
        split at h
        · cases h
        · cases h
        · cases h
        · rename_i parts after hparts hending
          have hparts := firstError_eq_ok_iff.1
            ((congrArg firstError (map_result_pieces _)).symm.trans hparts)
          obtain ⟨u, _, rfl, _⟩ := rawTemplate_append hending
          rw [List.length_append, Nat.add_sub_cancel, List.take_left] at h
          obtain ⟨rfl, hes⟩ := Prod.mk.inj h
          have hrest := ih after.length (by simp only [List.length_append, List.length_cons]; omega)
            (Prod.ext rfl hes) rfl
          exact .token (.template hending hparts) hrest
      · rename_i hspace hline hblock horder htemplate
        split at h
        · rename_i t length hpiece
          obtain ⟨u, cs, rfl, rfl⟩ := append_of_piece hpiece
          have hstarts : startsPiece c (u ++ cs) = true := by
            unfold startsPiece
            grind
          rw [Nat.add_sub_cancel, List.take_left, List.drop_left] at h
          obtain ⟨rfl, hes⟩ := Prod.mk.inj h
          have hrest := ih cs.length (by simp only [List.length_append, List.length_cons]; omega)
            (Prod.ext rfl hes) rfl
          exact .token (.piece hstarts hpiece) hrest
        · cases h
        · cases h

end Scan

theorem Token.scan_eq_ok {source : String} {ts : List Lexeme} :
    Token.scan source = .ok ts ↔ Scan.Scans source.toList (Mark.origin 0) ts := by
  constructor
  · intro h
    rcases htokens : Scan.tokens source.toList (Mark.origin 0) with ⟨us, es⟩
    rw [Token.scan, htokens] at h
    cases es with
    | nil =>
      cases h
      exact Scan.scans_of_tokens htokens
    | cons => cases h
  · intro h
    rw [Token.scan, h.tokens_eq]
    rfl

mutual

def Token.same : Token → Token → Bool
  | .keyword k, .keyword l => k == l
  | .punct p, .punct q => p == q
  | .number x, .number y => x = y
  | .string s, .string t => s == t
  | .template ps, .template qs => TemplatePart.allSame ps qs
  | .identifier m, .identifier n => m == n
  | .eof, .eof => true
  | _, _ => false

def TemplatePart.same : TemplatePart → TemplatePart → Bool
  | .text s, .text t => s == t
  | .substitution ts, .substitution us => Lexeme.allSame ts us
  | _, _ => false

def TemplatePart.allSame : List TemplatePart → List TemplatePart → Bool
  | [], [] => true
  | p :: ps, q :: qs => p.same q && TemplatePart.allSame ps qs
  | _, _ => false

def Lexeme.allSame : List (Token × Span) → List (Token × Span) → Bool
  | [], [] => true
  | (t, s) :: ts, (u, s') :: us => t.same u && s == s' && Lexeme.allSame ts us
  | _, _ => false

end

theorem Lexeme.eq_of_allSame {ts us : List Lexeme} : allSame ts us = true → ts = us := by
  refine Lexeme.allSame.induct (fun t u => t.same u = true → t = u)
    (fun ps qs => TemplatePart.allSame ps qs = true → ps = qs) (fun p q => p.same q = true → p = q)
    (fun ts us => allSame ts us = true → ts = us)
    ?_ ?_ ?_ ?_ ?_ ?_ ?_ ?_ ?_ ?_ ?_ ?_ ?_ ?_ ?_ ?_ ?_ ts us
  all_goals grind [Token.same, TemplatePart.same, TemplatePart.allSame, allSame]

/-- Whether a source text has the given tokens. -/
def Token.scansTo (source : String) (ts : List Lexeme) : Bool :=
  (Token.scan source).toOption.any (Lexeme.allSame · ts)

theorem Token.scan_of_scansTo {source : String} {ts : List Lexeme}
    (h : Token.scansTo source ts = true) : Token.scan source = .ok ts := by
  unfold scansTo at h
  cases hscan : Token.scan source with
  | error => simp [hscan, Except.toOption] at h
  | ok us =>
    rw [hscan] at h
    rw [Lexeme.eq_of_allSame h]

end Typings
