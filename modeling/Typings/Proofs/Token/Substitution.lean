import Typings.Proofs.Token.Tiling

namespace Typings

def Span.shift (k : Nat) (s : Span) : Span := { s with start := s.start + k, stop := s.stop + k }

def Mark.shift (k : Nat) (p : Mark) : Mark := { p with offset := p.offset + k }

mutual

/-- The token `k` bytes further on; in substitutions too, lines and columns stay. -/
def Token.shift (k : Nat) : Token → Token
  | .template parts => .template (TemplatePart.shiftAll k parts)
  | t => t
termination_by structural t => t

def TemplatePart.shift (k : Nat) : TemplatePart → TemplatePart
  | .text s => .text s
  | .substitution ts => .substitution (Lexeme.shiftAll k ts)
termination_by structural p => p

def TemplatePart.shiftAll (k : Nat) : List TemplatePart → List TemplatePart
  | [] => []
  | p :: ps => p.shift k :: TemplatePart.shiftAll k ps
termination_by structural ps => ps

def Lexeme.shift (k : Nat) : Token × Span → Token × Span
  | (t, s) => (t.shift k, s.shift k)
termination_by structural x => x

def Lexeme.shiftAll (k : Nat) : List (Token × Span) → List (Token × Span)
  | [] => []
  | x :: ts => Lexeme.shift k x :: Lexeme.shiftAll k ts
termination_by structural ts => ts

end

variable {k : Nat}

theorem TemplatePart.shiftAll_eq (ps : List TemplatePart) : shiftAll k ps = ps.map (shift k) := by
  induction ps with
  | nil => rfl
  | cons p ps ih => rw [shiftAll, ih, List.map_cons]

theorem Lexeme.shiftAll_eq (ts : List Lexeme) : shiftAll k ts = ts.map (shift k) := by
  induction ts with
  | nil => rfl
  | cons x ts ih => rw [shiftAll, ih, List.map_cons]

theorem Token.isEof_shift (t : Token) : (t.shift k).isEof = t.isEof := by
  cases t <;> rfl

theorem Lexeme.withoutEof_shift (ts : List Lexeme) :
    (ts.map (shift k)).filter (!·.1.isEof) = (ts.filter (!·.1.isEof)).map (shift k) := by
  rw [List.filter_map]
  congr 2
  funext x
  obtain ⟨t, s⟩ := x
  exact congrArg (!·) t.isEof_shift

namespace Mark

theorem next_shift (p : Mark) (c : Char) : (p.shift k).next c = (p.next c).shift k := by
  unfold next shift
  split
  · simp only [mk.injEq, and_true]
    omega
  · simp only [mk.injEq, and_true]
    omega

theorem nextBytes_shift (p : Mark) (c : Char) :
    (p.shift k).nextBytes c = (p.nextBytes c).shift k := by
  unfold nextBytes shift
  split
  · simp only [mk.injEq, and_true]
    omega
  · simp only [mk.injEq, and_true]
    omega

theorem after_shift (p : Mark) (cs : List Char) : (p.shift k).after cs = (p.after cs).shift k := by
  induction cs generalizing p with
  | nil => rfl
  | cons c cs ih =>
    show ((p.shift k).next c).after cs = _
    rw [next_shift, ih]
    rfl

theorem afterBytes_shift (p : Mark) (cs : List Char) :
    (p.shift k).afterBytes cs = (p.afterBytes cs).shift k := by
  induction cs generalizing p with
  | nil => rfl
  | cons c cs ih =>
    show ((p.shift k).nextBytes c).afterBytes cs = _
    rw [nextBytes_shift, ih]
    rfl

end Mark

namespace Scan

variable {cs rest u : List Char} {p p' : Mark} {t : Token} {ts : List Lexeme} {o : Nat}

theorem Gap.shift (h : Gap rest p u p') : Gap rest (p.shift k) u (p'.shift k) := by
  cases h with
  | blank h =>
    rw [← Mark.next_shift]
    exact .blank h
  | line hbody hrest =>
    rw [← Mark.afterBytes_shift]
    exact .line hbody hrest
  | block h =>
    rw [← Mark.afterBytes_shift]
    exact .block h
  | byteOrder =>
    have hplace : Mark.shift k { p with offset := p.offset + '\ufeff'.utf8Size } =
        { p.shift k with offset := (p.shift k).offset + '\ufeff'.utf8Size } := by
      simp only [Mark.shift, Mark.mk.injEq, and_true]
      omega
    rw [hplace]
    exact .byteOrder

def RawPart.shift (k : Nat) : RawPart → RawPart
  | .text raw => .text raw
  | .substitution o inner => .substitution (o + k) inner

theorem RawTemplate.pieces_shift {r r' : RawTemplate} (hlead : r'.lead = r.lead)
    (hparts : r'.parts = r.parts.map (RawPart.shift k)) :
    r'.pieces = r.pieces.map (RawPart.shift k) := by
  rw [RawTemplate.pieces, RawTemplate.pieces, hlead, hparts]
  split <;> rfl

theorem rawTemplate_shift (o k : Nat) (cs : List Char) :
    (rawTemplate (o + k) cs).lead = (rawTemplate o cs).lead ∧
      (rawTemplate (o + k) cs).parts = (rawTemplate o cs).parts.map (RawPart.shift k) ∧
      ∀ rest, (rawTemplate o cs).ending = .closed rest →
        (rawTemplate (o + k) cs).ending = .closed rest := by
  fun_induction rawTemplate o cs with
  | case1 o | case3 o =>
    rw [rawTemplate]
    exact ⟨rfl, rfl, fun _ h => by cases h⟩
  | case2 o rest =>
    rw [rawTemplate]
    exact ⟨rfl, rfl, fun _ h => h⟩
  | case4 o c rest r ih =>
    have hoffset : o + k + 1 + c.utf8Size = o + 1 + c.utf8Size + k := by omega
    rw [rawTemplate, hoffset]
    exact ⟨by rw [ih.1], ih.2⟩
  | case5 o rest hs =>
    rw [rawTemplate_openSubstitution hs]
    exact ⟨rfl, rfl, fun _ h => by cases h⟩
  | case6 o rest inner after hs r ih =>
    have hoffset : o + k + 3 + byteLength inner = o + 3 + byteLength inner + k := by omega
    rw [rawTemplate_substitution hs, hoffset, RawTemplate.pieces_shift ih.1 ih.2.1]
    exact ⟨rfl, rfl, ih.2.2⟩
  | case7 o c rest hclose hlast hescape hopen r ih =>
    have hoffset : o + k + c.utf8Size = o + c.utf8Size + k := by omega
    rw [rawTemplate.eq_6 _ _ _ hclose hlast hescape hopen, hoffset]
    exact ⟨by rw [ih.1], ih.2⟩

theorem reads_shift {raws : List RawPart} {parts : List TemplatePart}
    (h : List.Forall₂ RawPart.Reads raws parts)
    (hinner : ∀ o inner, .substitution o inner ∈ raws → ∀ {p ts}, Scans inner p ts →
      Scans inner (p.shift k) (ts.map (Lexeme.shift k))) :
    List.Forall₂ RawPart.Reads (raws.map (RawPart.shift k)) (parts.map (TemplatePart.shift k)) := by
  induction h with
  | nil => exact .nil
  | @cons raw part raws parts hpart _ ih =>
    refine .cons ?_ (ih fun o inner hmem => hinner o inner (List.mem_cons_of_mem _ hmem))
    cases hpart with
    | text raw => exact .text raw
    | @substitution o inner ts h =>
      have hscans := hinner o inner List.mem_cons_self (scans_of_tokens h)
      have hplace : (Mark.origin (o + 2)).shift k = Mark.origin (o + k + 2) := by
        simp only [Mark.shift, Mark.origin, Mark.mk.injEq, and_true]
        omega
      rw [hplace] at hscans
      have hreads := RawPart.Reads.substitution hscans.tokens_eq
      rwa [Lexeme.withoutEof_shift, ← Lexeme.shiftAll_eq] at hreads

/-- A token is the same further on, if the texts of its substitutions are. -/
theorem Lexed.shift (h : Lexed rest o u t)
    (hinner : ∀ inner : List Char, inner.length < u.length → ∀ {p ts}, Scans inner p ts →
      Scans inner (p.shift k) (ts.map (Lexeme.shift k))) :
    Lexed rest (o + k) u (t.shift k) := by
  cases h with
  | piece hc h =>
    have ht : t.shift k = t := by
      cases t with
      | template parts => exact absurd rfl ((plain_of_piece h).2 parts)
      | _ => rfl
    rw [ht]
    exact .piece hc h
  | @template u parts hending hparts =>
    obtain ⟨hlead, hparts', hending'⟩ := rawTemplate_shift (o + 1) k (u ++ rest)
    have hreads := reads_shift hparts fun o' inner hmem => by
      obtain ⟨a, b, rfl, _⟩ := append_of_mem_pieces hending hmem
      exact hinner inner (by simp; omega)
    rw [← RawTemplate.pieces_shift hlead hparts', Nat.add_right_comm] at hreads
    have hclosed := hending' rest hending
    rw [Nat.add_right_comm] at hclosed
    rw [Token.shift, TemplatePart.shiftAll_eq]
    exact .template hclosed hreads

theorem Scans.shift (h : Scans cs p ts) (k : Nat) :
    Scans cs (p.shift k) (ts.map (Lexeme.shift k)) := by
  induction hn : cs.length using Nat.strongRecOn generalizing cs p ts with
  | _ n ih =>
    subst hn
    cases h with
    | done => exact .done
    | @gap u cs _ p' _ h hrest =>
      have hne := List.length_pos_iff.2 h.ne_nil
      exact .gap h.shift (ih cs.length (by simp; omega) hrest rfl)
    | @token u cs _ t ts h hrest =>
      have hne := List.length_pos_iff.2 h.ne_nil
      have hlexed := h.shift (k := k) fun inner hlt {p ts} h =>
        ih inner.length (by simp; omega) h rfl
      have hafter := ih cs.length (by simp; omega) hrest rfl
      rw [← Mark.after_shift] at hafter
      have hscans := Scans.token (p := p.shift k) hlexed hafter
      rw [Mark.after_shift] at hscans
      exact hscans

end Scan

/-- Whether a character is a brace; an opening one is `true`. -/
def braceOf (c : Char) : Option Bool :=
  if c = '{' then some true else if c = '}' then some false else none

/-- Whether a token is a brace; an opening one is `true`. -/
def Lexeme.brace? : Lexeme → Option Bool
  | (.punct .leftBrace, _) => some true
  | (.punct .rightBrace, _) => some false
  | _ => none

section Braces

variable {α : Type} {brace? : α → Option Bool} {depth opened : Nat} {x : α} {xs ys : List α}

/-- The braces that are open behind one more item; none is closed that is not open. -/
def braceStep (brace? : α → Option Bool) (depth : Nat) (x : α) : Option Nat :=
  match brace? x, depth with
  | none, depth => some depth
  | some true, depth => some (depth + 1)
  | some false, depth + 1 => some depth
  | some false, 0 => none

/-- The braces that are open behind some items. -/
def openBraces (brace? : α → Option Bool) (depth : Nat) (xs : List α) : Option Nat :=
  xs.foldlM (braceStep brace?) depth

/-- Every brace that is closed was opened before, and every one that was opened is closed. -/
def BracesNest (brace? : α → Option Bool) (xs : List α) : Prop := openBraces brace? 0 xs = some 0

instance : Decidable (BracesNest brace? xs) := inferInstanceAs (Decidable (_ = _))

theorem openBraces_cons : openBraces brace? depth (x :: xs) =
    (braceStep brace? depth x).bind (openBraces brace? · xs) :=
  List.foldlM_cons

theorem openBraces_append : openBraces brace? depth (xs ++ ys) =
    (openBraces brace? depth xs).bind (openBraces brace? · ys) :=
  List.foldlM_append

theorem braceStep_add (h : braceStep brace? depth x = some opened) (k : Nat) :
    braceStep brace? (depth + k) x = some (opened + k) := by
  unfold braceStep at h ⊢
  split at h
  · rename_i hx
    cases h
    rw [hx]
  · rename_i hx
    cases h
    rw [hx, Nat.add_right_comm]
  · rename_i hx
    cases h
    rw [hx, Nat.succ_add]
  · cases h

theorem openBraces_add (h : openBraces brace? depth xs = some opened) (k : Nat) :
    openBraces brace? (depth + k) xs = some (opened + k) := by
  induction xs generalizing depth with
  | nil =>
    cases h
    rfl
  | cons x xs ih =>
    rw [openBraces_cons] at h ⊢
    obtain ⟨next, hnext, h⟩ := Option.bind_eq_some_iff.1 h
    rw [braceStep_add hnext]
    exact ih h

theorem BracesNest.openBraces (h : BracesNest brace? xs) (depth : Nat) :
    openBraces brace? depth xs = some depth := by
  have hadd := openBraces_add h depth
  rwa [Nat.zero_add] at hadd

end Braces

/-- Counting from the start of a substitution comes to its end where its braces nest. -/
theorem Scan.substitution?_eq_some_iff {depth : Nat} {cs rest : List Char} :
    substitution? depth (cs ++ '}' :: rest) = some (cs, rest) ↔
      openBraces braceOf depth cs = some 0 := by
  induction cs generalizing depth with
  | nil =>
    cases depth with
    | zero => exact ⟨fun _ => rfl, fun _ => rfl⟩
    | succ depth =>
      constructor
      · intro h
        obtain ⟨⟨a, b⟩, _, hpair⟩ := Option.map_eq_some_iff.1 h
        cases hpair
      · intro h
        cases h
  | cons c cs ih =>
    have hmap : ∀ found : Option (List Char × List Char),
        found.map (fun x => (c :: x.1, x.2)) = some (c :: cs, rest) ↔ found = some (cs, rest) := by
      intro found
      cases found <;> simp [Prod.ext_iff]
    rw [List.cons_append, substitution?.eq_def, openBraces_cons]
    by_cases hopen : c = '{'
    · subst hopen
      exact (hmap _).trans ih
    by_cases hclose : c = '}'
    · subst hclose
      cases depth with
      | zero => simp [braceStep, braceOf]
      | succ depth => exact (hmap _).trans ih
    · have hstep : braceStep braceOf depth c = some depth := by
        simp [braceStep, braceOf, hopen, hclose]
      simp only [beq_iff_eq, hopen, hclose, if_false, hstep, Option.bind_some]
      exact (hmap _).trans ih

/--
From an offset on, the braces nest between any two tokens and in every token that is no brace
itself: each brace there is closed in the comment, string or template that it is opened in.
-/
def BracesNestElsewhere (source : String) : Nat → List Lexeme → Prop
  | _, [] => True
  | start, (t, s) :: ts =>
    (∀ gap ∈ slice? source start s.start, BracesNest braceOf gap.toList) ∧
      (Lexeme.brace? (t, s) = none →
        ∀ text ∈ slice? source s.start s.stop, BracesNest braceOf text.toList) ∧
      BracesNestElsewhere source s.stop ts

instance decidableBracesNestElsewhere (source : String) :
    ∀ start ts, Decidable (BracesNestElsewhere source start ts)
  | _, [] => .isTrue trivial
  | _, (_, s) :: ts =>
    have := decidableBracesNestElsewhere source s.stop ts
    inferInstanceAs (Decidable (_ ∧ _ ∧ _))

namespace Scan

variable {cs rest u : List Char} {p : Mark} {t : Token} {ts : List Lexeme} {o : Nat}

theorem Lexed.openBraces_eq (h : Lexed rest o u t) (s : Span)
    (hu : Lexeme.brace? (t, s) = none → BracesNest braceOf u) (depth : Nat) :
    openBraces braceOf depth u = braceStep Lexeme.brace? depth (t, s) := by
  by_cases hopen : t = .punct .leftBrace
  · subst hopen
    rw [h.text_punct]
    rfl
  by_cases hclose : t = .punct .rightBrace
  · subst hclose
    rw [h.text_punct]
    cases depth <;> rfl
  · have hbrace : Lexeme.brace? (t, s) = none := by
      unfold Lexeme.brace?
      split <;> simp_all
    rw [(hu hbrace).openBraces]
    simp [braceStep, hbrace]

/-- Where braces nest elsewhere, as many are open behind a text as behind its tokens. -/
theorem Scans.openBraces_eq {source : String} {a : List Char} (h : Scans cs p ts)
    (hsource : source.toList = a ++ cs) (hp : p.offset = byteLength a)
    (helsewhere : BracesNestElsewhere source p.offset ts) (depth : Nat) :
    openBraces braceOf depth cs = openBraces Lexeme.brace? depth ts := by
  induction ts generalizing cs p a depth with
  | nil => cases h.first
  | cons x ts ih =>
    cases h.first with
    | @done _ q hgap hq =>
      have hslice : slice? source p.offset q.offset = some (String.ofList cs) := by
        rw [hq, hp]
        exact slice?_append (c := []) (by simp [hsource])
      have hnest := helsewhere.1 _ hslice
      rw [String.toList_ofList] at hnest
      exact hnest.openBraces depth
    | @token gap u cs q t _ hgap hq hlexed hrest =>
      obtain ⟨hbetween, hinside, helsewhere⟩ := helsewhere
      have hq' : q.offset = byteLength (a ++ gap) := by rw [hq, hp, byteLength_append]
      have hslice : slice? source p.offset q.offset = some (String.ofList gap) := by
        rw [hq, hp]
        exact slice?_append (c := u ++ cs) (by simp [hsource])
      have htext : slice? source q.offset (q.after u).offset = some (String.ofList u) := by
        rw [Mark.offset_after, hq']
        exact slice?_append (c := cs) (by simp [hsource])
      have hgapNests := hbetween _ hslice
      rw [String.toList_ofList] at hgapNests
      have htoken := hlexed.openBraces_eq (q.span (q.after u).offset) (fun hbrace => by
        have hnest := hinside hbrace _ htext
        rwa [String.toList_ofList] at hnest) depth
      rw [openBraces_append, hgapNests.openBraces, Option.bind_some, openBraces_append, htoken,
        openBraces_cons]
      refine congrArg _ (funext fun depth => ?_)
      refine ih (a := a ++ gap ++ u) hrest (by simp [hsource]) ?_ helsewhere depth
      rw [Mark.offset_after, hq', byteLength_append (a ++ gap)]

theorem Scans.template_inv {x : Lexeme} (h : Scans ('`' :: cs) p (x :: ts)) :
    ∃ u rest parts, cs = u ++ rest ∧ x = (.template parts, p.span (p.after ('`' :: u)).offset) ∧
      (rawTemplate (p.offset + 1) cs).ending = .closed rest ∧
      List.Forall₂ RawPart.Reads (rawTemplate (p.offset + 1) cs).pieces parts ∧
      Scans rest (p.after ('`' :: u)) ts := by
  generalize hcs : '`' :: cs = whole at h
  cases h with
  | done => cases hcs
  | gap h _ =>
    cases h with
    | blank h =>
      obtain ⟨rfl, _⟩ := List.cons.inj hcs
      cases h
    | line | block | byteOrder => cases hcs
  | @token v rest _ t _ h hrest =>
    cases h with
    | piece hc _ =>
      obtain ⟨rfl, _⟩ := List.cons.inj hcs
      simp [startsPiece] at hc
    | @template u parts hending hparts =>
      obtain ⟨_, rfl⟩ := List.cons.inj hcs
      exact ⟨u, rest, parts, rfl, rfl, hending, hparts, hrest⟩

theorem rawTemplate_of_bracesNest {inner : List Char} (h : BracesNest braceOf inner) :
    rawTemplate o ('$' :: '{' :: (inner ++ ['}', '`'])) =
      ⟨[], [.substitution o inner], .closed []⟩ := by
  rw [rawTemplate_substitution (substitution?_eq_some_iff.2 h)]
  simp [rawTemplate, RawTemplate.pieces]

/-- A template of one piece is all of the text only if the braces of that piece nest. -/
theorem bracesNest_of_rawTemplate {inner : List Char} {raw : RawPart}
    (hending : (rawTemplate o ('$' :: '{' :: (inner ++ ['}', '`']))).ending = .closed [])
    (hpieces : (rawTemplate o ('$' :: '{' :: (inner ++ ['}', '`']))).pieces = [raw]) :
    BracesNest braceOf inner := by
  cases hs : substitution? 0 (inner ++ ['}', '`']) with
  | none =>
    rw [rawTemplate_openSubstitution hs] at hending
    cases hending
  | some found =>
    obtain ⟨found, after⟩ := found
    rw [rawTemplate_substitution hs] at hending hpieces
    -- No piece is left behind the substitution, so the template ends there.
    have hafter : after = ['`'] := by
      obtain ⟨hplaced, htext⟩ := rawTemplate_placed hending
      rw [← (RawTemplate.placed_pieces hplaced).2, (List.cons.inj hpieces).2] at htext
      exact htext
    subst hafter
    obtain rfl : inner = found := List.append_cancel_right (substitution?_append hs).1
    exact substitution?_eq_some_iff.1 hs

theorem Scans.lexed_template {inner : List Char} (h : Scans inner (Mark.origin 0) ts)
    (hnest : BracesNest braceOf inner) :
    Lexed [] 0 ('`' :: '$' :: '{' :: (inner ++ ['}', '`']))
      (.template [.substitution ((ts.filter (!·.1.isEof)).map (Lexeme.shift 3))]) := by
  have hraw := rawTemplate_of_bracesNest (o := 1) hnest
  have hreads : RawPart.Reads (.substitution 1 inner) _ := .substitution (h.shift 3).tokens_eq
  rw [Lexeme.withoutEof_shift] at hreads
  refine .template ?_ ?_
  · rw [List.append_nil, hraw]
  · rw [List.append_nil, hraw]
    exact .cons hreads .nil

theorem Scans.bracesNest {inner : List Char} {part : TemplatePart}
    (h : Scans ('`' :: '$' :: '{' :: (inner ++ ['}', '`'])) p
      ((.template [part],
        p.span (p.after ('`' :: '$' :: '{' :: (inner ++ ['}', '`']))).offset) :: ts)) :
    BracesNest braceOf inner := by
  obtain ⟨u, rest, parts, hu, htoken, hending, hparts, -⟩ := h.template_inv
  obtain ⟨htoken, hspan⟩ := Prod.mk.inj htoken
  cases htoken
  have hrest : rest = [] := by
    have hstop := congrArg Span.stop hspan
    simp only [Mark.span, Mark.offset_after] at hstop
    rw [hu, ← List.cons_append, byteLength_append] at hstop
    by_contra hne
    have hpos := byteLength_pos hne
    omega
  rw [hrest] at hending
  obtain ⟨raw, _, hraw, hnil, hpieces⟩ := List.forall₂_cons_right_iff.1 hparts
  rw [List.forall₂_nil_right_iff.1 hnil] at hpieces
  exact bracesNest_of_rawTemplate hending hpieces

end Scan

/-- A text as the only substitution of a template. -/
def asTemplate (e : String) : String := "`$\x7b" ++ e ++ "\x7d`"

/-- The tokens of the template, if its substitution is scanned as the text alone. -/
def templateTokens (e : String) (ts : List Lexeme) : List Lexeme :=
  let stop := (Mark.origin 0).after (asTemplate e).toList
  [(.template [.substitution ((ts.filter (!·.1.isEof)).map (Lexeme.shift 3))],
      (Mark.origin 0).span stop.offset), (.eof, stop.span stop.offset)]

theorem scan_asTemplate_iff {e : String} {ts : List Lexeme} (h : Token.scan e = .ok ts) :
    Token.scan (asTemplate e) = .ok (templateTokens e ts) ↔ BracesNest braceOf e.toList := by
  have hchars : (asTemplate e).toList = '`' :: '$' :: '{' :: (e.toList ++ ['}', '`']) := by
    simp [asTemplate]
  rw [Token.scan_eq_ok, templateTokens, hchars]
  constructor
  · exact fun htemplate => htemplate.bracesNest
  · intro hnest
    have hlexed := (Token.scan_eq_ok.1 h).lexed_template hnest
    have htemplate := Scan.Scans.token (p := Mark.origin 0) hlexed .done
    rwa [List.append_nil] at htemplate

/--
A text that is scanned alone is scanned the same as a template's substitution exactly where its
braces nest, whatever they stand in. For braces that are no tokens this is more than the tokens
tell: only where those nest by themselves do the tokens decide.
-/
theorem substitution_scans_alone_iff {e : String} {ts : List Lexeme} (h : Token.scan e = .ok ts) :
    (Token.scan (asTemplate e) = .ok (templateTokens e ts) ↔ BracesNest braceOf e.toList) ∧
      (BracesNestElsewhere e 0 ts →
        (Token.scan (asTemplate e) = .ok (templateTokens e ts) ↔ BracesNest Lexeme.brace? ts)) := by
  refine ⟨scan_asTemplate_iff h, fun helsewhere => (scan_asTemplate_iff h).trans ?_⟩
  have hscans := Token.scan_eq_ok.1 h
  rw [BracesNest, BracesNest, hscans.openBraces_eq (a := []) rfl rfl helsewhere]

/-- An object, with a template and a comment that have braces of their own. -/
theorem substitution_scans_alone_iff_object :
    let e := "\x7ba: `$\x7bb\x7d`\x7d /* \x7b\x7d */"
    let ts : List Lexeme :=
      [(.punct .leftBrace, ⟨0, 1, 1, 1⟩), (.identifier "a", ⟨1, 2, 1, 2⟩),
        (.punct .colon, ⟨2, 3, 1, 3⟩),
        (.template [.substitution [(.identifier "b", ⟨7, 8, 1, 1⟩)]], ⟨4, 10, 1, 5⟩),
        (.punct .rightBrace, ⟨10, 11, 1, 11⟩), (.eof, ⟨20, 20, 1, 21⟩)]
    Token.scan e = .ok ts ∧ BracesNestElsewhere e 0 ts ∧ BracesNest Lexeme.brace? ts ∧
      Token.scan (asTemplate e) = .ok (templateTokens e ts) := by
  intro e ts
  have hscan : Token.scan e = .ok ts := Token.scan_of_scansTo (by decide +kernel)
  have helsewhere : BracesNestElsewhere e 0 ts := by decide +kernel
  have hnest : BracesNest Lexeme.brace? ts := by decide
  exact ⟨hscan, helsewhere, hnest, ((substitution_scans_alone_iff hscan).2 helsewhere).2 hnest⟩

/-- A closing brace in a string ends the substitution before the string does. -/
theorem substitution_not_scanned_alone :
    ¬ ∀ (e : String) (ts : List Lexeme), Token.scan e = .ok ts → BracesNest Lexeme.brace? ts →
      ∃ s s', Token.scan (asTemplate e) = .ok
        [(.template [.substitution ((ts.filter (!·.1.isEof)).map (Lexeme.shift 3))], s),
          (.eof, s')] := by
  intro halone
  have hscan : Token.scan "\"\x7d\"" =
      .ok [(.string "\x7d", ⟨0, 3, 1, 1⟩), (.eof, ⟨3, 3, 1, 4⟩)] :=
    Token.scan_of_scansTo (by decide +kernel)
  have hopen : (Token.scan (asTemplate "\"\x7d\"")).toOption.isSome = false := by decide +kernel
  obtain ⟨s, s', htemplate⟩ := halone _ _ hscan (by decide)
  rw [htemplate] at hopen
  cases hopen

end Typings
