import Typings.Proofs.Token.Bytes

namespace Typings

/--
White space, byte-order marks and whole comments. A line comment ends with its line; the last one
may end with the text.
-/
inductive Separates (last : Bool) : List Char → Prop
  | nil : Separates last []
  | blank {c : Char} {cs : List Char} : c ∈ [' ', '\t', '\r', '\n', '\ufeff'] →
    Separates last cs → Separates last (c :: cs)
  | line {body cs : List Char} : '\n' ∉ body → Separates last ('\n' :: cs) →
    Separates last ('/' :: '/' :: (body ++ '\n' :: cs))
  | lastLine {body : List Char} : last = true → '\n' ∉ body → Separates last ('/' :: '/' :: body)
  | block {body cs : List Char} : ¬ ['*', '/'] <:+: body → Separates last cs →
    Separates last ('/' :: '*' :: (body ++ '*' :: '/' :: cs))

mutual

/-- The tokens between two offsets, with what separates them. -/
inductive Tiles (source : String) : Nat → Nat → List Lexeme → Prop
  | done {start stop : Nat} {gap : String} : slice? source start stop = some gap →
    Separates true gap.toList → Tiles source start stop []
  | token {start stop : Nat} {gap text : String} {t : Token} {s : Span} {ts : List Lexeme} :
    slice? source start s.start = some gap → Separates false gap.toList →
    slice? source s.start s.stop = some text → text ≠ "" →
    t.isEof = false → (∀ parts, t ≠ .template parts) →
    Tiles source s.stop stop ts → Tiles source start stop ((t, s) :: ts)
  | template {start stop close : Nat} {gap text : String} {parts : List TemplatePart} {s : Span}
    {ts : List Lexeme} :
    slice? source start s.start = some gap → Separates false gap.toList →
    slice? source s.start s.stop = some text → text ≠ "" →
    slice? source s.start (s.start + 1) = some "`" → TilesTemplate source (s.start + 1) close parts →
    slice? source close (close + 1) = some "`" → s.stop = close + 1 →
    Tiles source s.stop stop ts → Tiles source start stop ((.template parts, s) :: ts)

/-- The parts of a template between two offsets. -/
inductive TilesTemplate (source : String) : Nat → Nat → List TemplatePart → Prop
  | done {stop : Nat} : TilesTemplate source stop stop []
  | text {start mid stop : Nat} {raw : String} {parts : List TemplatePart} :
    slice? source start mid = some raw → raw ≠ "" → TilesTemplate source mid stop parts →
    TilesTemplate source start stop (Scan.textPart raw.toList :: parts)
  | substitution {start mid stop : Nat} {ts : List Lexeme} {parts : List TemplatePart} :
    slice? source start (start + 2) = some "$\x7b" → Tiles source (start + 2) mid ts →
    slice? source mid (mid + 1) = some "\x7d" → TilesTemplate source (mid + 1) stop parts →
    TilesTemplate source start stop (.substitution ts :: parts)

end

namespace Scan

variable {cs rest u : List Char} {p : Mark} {ts : List Lexeme}

theorem exists_of_comment? {body : List Char} (h : comment? cs = some body) :
    ∃ inner, body = inner ++ ['*', '/'] ∧ ¬ ['*', '/'] <:+: inner := by
  fun_induction comment? cs generalizing body with
  | case1 => cases h
  | case2 rest =>
    cases h
    exact ⟨[], rfl, by simp⟩
  | case3 c cs hc ih =>
    obtain ⟨body, hbody, rfl⟩ := Option.map_eq_some_iff.1 h
    obtain ⟨inner, rfl, hinner⟩ := ih hbody
    obtain ⟨_, rest, rfl, _⟩ := comment?_append hbody
    refine ⟨c :: inner, rfl, fun hinfix => ?_⟩
    rcases List.infix_cons_iff.1 hinfix with hprefix | hinfix
    · -- The closing would have been found here.
      obtain ⟨tail, htail⟩ := hprefix
      obtain ⟨rfl, rfl⟩ := List.cons.inj htail
      exact hc _ rfl rfl
    · exact hinner hinfix

/-- More before what separates. Behind a line comment its line ends, or the text does. -/
theorem Gap.separates {last : Bool} {gap v : List Char} {p' : Mark} (h : Gap (gap ++ v) p u p')
    (hgap : Separates last gap)
    (hend : gap = [] → (∀ c ∈ v.head?, c = '\n') → last = true) : Separates last (u ++ gap) := by
  cases h with
  | blank hspace =>
    apply Separates.blank _ hgap
    simp only [isSpace, Bool.or_eq_true, beq_iff_eq] at hspace
    rcases hspace with ((rfl | rfl) | rfl) | rfl <;> simp
  | @line body hbody hrest =>
    have hbody : '\n' ∉ body := fun hmem => hbody _ hmem rfl
    cases gap with
    | nil =>
      rw [List.append_nil]
      exact .lastLine (hend rfl hrest) hbody
    | cons c gap =>
      obtain rfl : c = '\n' := hrest c rfl
      exact .line hbody hgap
  | block hbody =>
    obtain ⟨inner, rfl, hinner⟩ := exists_of_comment? hbody
    have happend : '/' :: '*' :: (inner ++ ['*', '/']) ++ gap =
        '/' :: '*' :: (inner ++ '*' :: '/' :: gap) := by simp
    rw [happend]
    exact .block hinner hgap
  | byteOrder => exact .blank (by simp) hgap

/-- How a text begins: with what separates, and then with a token or the end. -/
inductive First (p : Mark) : List Char → List Lexeme → Prop
  | done {gap : List Char} {q : Mark} (hgap : Separates true gap)
      (hq : q.offset = p.offset + byteLength gap) : First p gap [(.eof, q.span q.offset)]
  | token {gap u cs : List Char} {q : Mark} {t : Token} {ts : List Lexeme}
      (hgap : Separates false gap) (hq : q.offset = p.offset + byteLength gap)
      (h : Lexed cs q.offset u t) (hrest : Scans cs (q.after u) ts) :
      First p (gap ++ (u ++ cs)) ((t, q.span (q.after u).offset) :: ts)

theorem Lexed.head_ne {o : Nat} {t : Token} (h : Lexed rest o u t) : u.head? ≠ some '\n' := by
  cases h with
  | @piece c u t hc h =>
    intro hhead
    obtain rfl : c = '\n' := by simpa using hhead
    simp [startsPiece, isSpace] at hc
  | template => simp

theorem Scans.first (h : Scans cs p ts) : First p cs ts := by
  induction h with
  | done => exact .done .nil rfl
  | token h hrest _ => exact .token .nil rfl h hrest
  | @gap u cs p p' ts h _ ih =>
    have hoffset := h.offset
    cases ih with
    | done hgap hq =>
      have hgap' : Separates true (u ++ cs) :=
        Gap.separates (v := []) (by rwa [List.append_nil]) hgap fun _ _ => rfl
      exact .done hgap' (by rw [hq, hoffset, byteLength_append, Nat.add_assoc])
    | @token gap u' cs q t ts hgap hq hlexed hrest =>
      have hgap' : Separates false (u ++ gap) := by
        apply Gap.separates h hgap
        intro _ hhead
        obtain ⟨c, u', rfl⟩ := List.exists_cons_of_ne_nil hlexed.ne_nil
        exact absurd (congrArg some (hhead c rfl)) hlexed.head_ne
      rw [← List.append_assoc]
      exact .token hgap' (by rw [hq, hoffset, byteLength_append, Nat.add_assoc]) hlexed hrest

/-- A piece of a template as it stands in the text. -/
def RawPart.written : RawPart → List Char
  | .text raw => raw
  | .substitution _ inner => '$' :: '{' :: (inner ++ ['}'])

/-- Pieces that follow each other from an offset on. -/
inductive Placed : Nat → List RawPart → Prop
  | nil (o : Nat) : Placed o []
  | text {o : Nat} {raw : List Char} {parts : List RawPart} (hraw : raw ≠ [])
      (h : Placed (o + byteLength raw) parts) : Placed o (.text raw :: parts)
  | substitution {o : Nat} {inner : List Char} {parts : List RawPart}
      (h : Placed (o + 3 + byteLength inner) parts) : Placed o (.substitution o inner :: parts)

theorem RawTemplate.placed_pieces {r : RawTemplate} {o : Nat}
    (h : Placed (o + byteLength r.lead) r.parts) :
    Placed o r.pieces ∧ r.pieces.flatMap RawPart.written = r.lead ++ r.parts.flatMap RawPart.written := by
  rw [RawTemplate.pieces]
  split
  · rename_i hlead
    rw [List.isEmpty_iff.1 hlead] at h ⊢
    exact ⟨h, rfl⟩
  · rename_i hlead
    exact ⟨.text (by simpa using hlead) h, rfl⟩

theorem rawTemplate_placed {o : Nat} (h : (rawTemplate o cs).ending = .closed rest) :
    Placed (o + byteLength (rawTemplate o cs).lead) (rawTemplate o cs).parts ∧
      cs = (rawTemplate o cs).lead ++ (rawTemplate o cs).parts.flatMap RawPart.written ++
        '`' :: rest := by
  fun_induction rawTemplate o cs with
  | case1 | case3 | case5 => cases h
  | case2 o rest =>
    cases h
    exact ⟨.nil _, rfl⟩
  | case4 o c rest r ih =>
    obtain ⟨hplaced, htext⟩ := ih h
    have hoffset : o + byteLength ('\\' :: c :: r.lead) = o + 1 + c.utf8Size + byteLength r.lead := by
      have hslash : '\\'.utf8Size = 1 := rfl
      simp only [byteLength_cons]
      omega
    exact ⟨hoffset ▸ hplaced, congrArg (fun cs => '\\' :: c :: cs) htext⟩
  | case6 o rest inner after hs r ih =>
    obtain ⟨hplaced, htext⟩ := ih h
    obtain ⟨rfl, _⟩ := substitution?_append hs
    obtain ⟨hpieces, hwritten⟩ := RawTemplate.placed_pieces hplaced
    refine ⟨.substitution hpieces, ?_⟩
    rw [List.nil_append, List.flatMap_cons, hwritten]
    conv => lhs; rw [htext]
    simp [RawPart.written]
  | case7 o c rest _ _ _ _ r ih =>
    obtain ⟨hplaced, htext⟩ := ih h
    have hoffset : o + byteLength (c :: r.lead) = o + c.utf8Size + byteLength r.lead := by
      rw [byteLength_cons, Nat.add_assoc]
    exact ⟨hoffset ▸ hplaced, congrArg (c :: ·) htext⟩

/-- Tokens tile a part of a text, and then its end is a token. -/
def TilesToEnd (source : String) (start stop : Nat) (ts : List Lexeme) : Prop :=
  ∃ us e, ts = us ++ [(.eof, e)] ∧ e.start = stop ∧ e.stop = stop ∧
    (∀ x ∈ us, x.1.isEof = false) ∧ Tiles source start stop us

/-- The pieces of a template tile it if the tokens of its substitutions tile these. -/
theorem Placed.tiles {source : String} {o : Nat} {a b : List Char} {raws : List RawPart}
    {parts : List TemplatePart} (hplaced : Placed o raws)
    (hreads : List.Forall₂ RawPart.Reads raws parts)
    (hsource : source.toList = a ++ raws.flatMap RawPart.written ++ b) (ho : o = byteLength a)
    (hinner : ∀ o' inner, .substitution o' inner ∈ raws → ∀ {a b p ts}, Scans inner p ts →
      source.toList = a ++ inner ++ b → p.offset = byteLength a →
      TilesToEnd source p.offset (p.offset + byteLength inner) ts) :
    TilesTemplate source o (o + byteLength (raws.flatMap RawPart.written)) parts := by
  induction hplaced generalizing a parts with
  | nil o =>
    cases hreads
    exact .done
  | @text o raw raws hraw _ ih =>
    cases hreads with
    | cons hpart hparts =>
      cases hpart
      rw [List.flatMap_cons] at hsource ⊢
      have hslice : slice? source o (o + byteLength raw) = some (String.ofList raw) := by
        rw [ho]
        exact slice?_append (c := raws.flatMap RawPart.written ++ b) (by simp [hsource, RawPart.written])
      have hrest := ih (a := a ++ raw) hparts (by simp [hsource, RawPart.written])
        (by rw [ho, byteLength_append]) fun o' inner hmem => hinner o' inner (by simp [hmem])
      rw [byteLength_append, ← Nat.add_assoc]
      have htext := TilesTemplate.text hslice (by simpa using hraw) hrest
      rwa [String.toList_ofList] at htext
  | @substitution o inner raws _ ih =>
    cases hreads with
    | cons hpart hparts =>
      cases hpart with
      | @substitution _ _ ts htokens =>
        rw [List.flatMap_cons] at hsource ⊢
        have hdollar : '$'.utf8Size = 1 := rfl
        have hopen : '{'.utf8Size = 1 := rfl
        have hclose : '}'.utf8Size = 1 := rfl
        have hstart : byteLength (a ++ ['$', '{']) = o + 2 := by
          rw [byteLength_append, ← ho]
          rfl
        have hmid : byteLength (a ++ ['$', '{'] ++ inner) = o + 2 + byteLength inner := by
          rw [byteLength_append, hstart]
        have hopened : slice? source o (o + 2) = some "$\x7b" := by
          rw [ho]
          exact slice?_append (b := ['$', '{'])
            (c := inner ++ '}' :: (raws.flatMap RawPart.written ++ b)) (by simp [hsource, RawPart.written])
        have hclosed : slice? source (o + 2 + byteLength inner) (o + 2 + byteLength inner + 1) =
            some "\x7d" := by
          rw [← hmid]
          exact slice?_append (b := ['}']) (c := raws.flatMap RawPart.written ++ b)
            (by simp [hsource, RawPart.written])
        obtain ⟨us, e, rfl, -, -, heof, htiles⟩ := hinner o inner (by simp)
          (a := a ++ ['$', '{']) (b := '}' :: (raws.flatMap RawPart.written ++ b))
          (scans_of_tokens htokens) (by simp [hsource, RawPart.written]) hstart.symm
        have hrest := ih (a := a ++ ['$', '{'] ++ inner ++ ['}']) hparts
          (by simp [hsource, RawPart.written])
          (by rw [byteLength_append, hmid]; simp only [byteLength_cons, byteLength_nil]; omega)
          fun o' inner' hmem => hinner o' inner' (by simp [hmem])
        have hlength : o + byteLength (RawPart.written (.substitution o inner) ++
            raws.flatMap RawPart.written) =
            o + 3 + byteLength inner + byteLength (raws.flatMap RawPart.written) := by
          simp only [RawPart.written, byteLength_append, byteLength_cons, byteLength_nil]
          omega
        have hnext : o + 3 + byteLength inner = o + 2 + byteLength inner + 1 := by omega
        rw [hlength, hnext, filter_eof heof]
        rw [hnext] at hrest
        exact .substitution hopened htiles hclosed hrest

theorem Scans.tiles {source : String} {a b : List Char} (h : Scans cs p ts)
    (hsource : source.toList = a ++ cs ++ b) (hp : p.offset = byteLength a) :
    TilesToEnd source p.offset (p.offset + byteLength cs) ts := by
  induction hn : cs.length using Nat.strongRecOn generalizing cs p ts a b with
  | _ n ih =>
    subst hn
    cases h.first with
    | done hgap hq =>
      have hslice : slice? source p.offset (p.offset + byteLength cs) = some (String.ofList cs) := by
        rw [hp]
        exact slice?_append hsource
      exact ⟨[], _, rfl, hq, hq, by simp, .done hslice (by simpa using hgap)⟩
    | @token gap u cs q t ts hgap hq hlexed hrest =>
      have hne := List.length_pos_iff.2 hlexed.ne_nil
      have hq' : q.offset = byteLength (a ++ gap) := by rw [hq, hp, byteLength_append]
      have hafter := Mark.offset_after q u
      have hgapSlice : slice? source p.offset q.offset = some (String.ofList gap) := by
        rw [hq, hp]
        exact slice?_append (c := u ++ cs ++ b) (by simp [hsource])
      obtain ⟨us, e, rfl, hstart, hstop, heof, htiles⟩ := ih cs.length (by simp; omega)
        (a := a ++ gap ++ u) (b := b) hrest (by simp [hsource])
        (by rw [hafter, hq', byteLength_append (a ++ gap)]) rfl
      have hend : (q.after u).offset + byteLength cs =
          p.offset + byteLength (gap ++ (u ++ cs)) := by
        rw [hafter, hq, byteLength_append, byteLength_append]
        omega
      rw [hend] at hstart hstop htiles
      refine ⟨(t, q.span (q.after u).offset) :: us, e, rfl, hstart, hstop, ?_, ?_⟩
      · intro x hx
        rcases List.mem_cons.1 hx with rfl | hx
        · exact hlexed.isEof
        · exact heof x hx
      have hgap : Separates false (String.ofList gap).toList := by simpa using hgap
      have htext : slice? source q.offset (q.after u).offset = some (String.ofList u) := by
        rw [hafter, hq']
        exact slice?_append (c := cs ++ b) (by simp [hsource])
      cases hlexed with
      | @piece c u t hc hpiece =>
        obtain ⟨hnotEof, hnotTemplate⟩ := plain_of_piece hpiece
        exact .token hgapSlice hgap htext (by simp) hnotEof hnotTemplate htiles
      | @template u parts hending hparts =>
        obtain ⟨hpieces, hwritten⟩ := RawTemplate.placed_pieces (rawTemplate_placed hending).1
        obtain ⟨w, hw⟩ : ∃ w, (rawTemplate (q.offset + 1) (u ++ cs)).pieces.flatMap
            RawPart.written = w := ⟨_, rfl⟩
        have hu : u = w ++ ['`'] := by
          have htext := (rawTemplate_placed hending).2
          rw [← hwritten, hw] at htext
          exact List.append_cancel_right (htext.trans (by simp))
        have htick : '`'.utf8Size = 1 := rfl
        have hopened : slice? source q.offset (q.offset + 1) = some "`" := by
          rw [hq']
          exact slice?_append (b := ['`']) (c := u ++ cs ++ b) (by simp [hsource])
        have hinside : q.offset + 1 = byteLength (a ++ gap ++ ['`']) := by
          rw [byteLength_append, ← hq']
          rfl
        have hclosed : slice? source (q.offset + 1 + byteLength w) (q.offset + 1 + byteLength w + 1) =
            some "`" := by
          rw [hinside, ← byteLength_append]
          exact slice?_append (b := ['`']) (c := cs ++ b) (by simp [hsource, hu])
        have hwhole : source.toList = a ++ gap ++ ['`'] ++ w ++ '`' :: (cs ++ b) := by
          simp [hsource, hu]
        have htemplate : TilesTemplate source (q.offset + 1) (q.offset + 1 + byteLength w) parts := by
          rw [← hw] at hwhole ⊢
          apply hpieces.tiles hparts hwhole hinside
          intro o' inner hmem a' b' p' ts' hscans hpart hp'
          obtain ⟨x, y, rfl, _⟩ := append_of_mem_pieces hending hmem
          exact ih inner.length (by simp; omega) hscans hpart hp' rfl
        refine .template hgapSlice hgap htext (by simp) hopened htemplate hclosed ?_ htiles
        show (q.after ('`' :: u)).offset = _
        rw [hafter, hu]
        simp only [byteLength_cons, byteLength_append, byteLength_nil]
        omega

end Scan

theorem le_of_slice? {text part : String} {start stop : Nat}
    (h : slice? text start stop = some part) : start ≤ stop := by
  rw [slice?] at h
  split at h
  · cases h
  · omega

theorem lt_of_slice? {text part : String} {start stop : Nat}
    (h : slice? text start stop = some part) (hpart : part ≠ "") : start < stop := by
  apply Nat.lt_of_le_of_ne (le_of_slice? h)
  rintro rfl
  apply hpart
  rw [slice?, if_neg (Nat.lt_irrefl start), Nat.sub_self] at h
  obtain ⟨rest, _, h⟩ := Option.bind_eq_some_iff.1 h
  simpa [takeBytes?] using h.symm

theorem Tiles.uncons {source : String} {start stop : Nat} {x : Lexeme} {ts : List Lexeme}
    (h : Tiles source start stop (x :: ts)) :
    x.1.isEof = false ∧ start ≤ x.2.start ∧ x.2.start < x.2.stop ∧ Tiles source x.2.stop stop ts := by
  cases h with
  | token hgap _ htext hne hnotEof _ hrest =>
    exact ⟨hnotEof, le_of_slice? hgap, lt_of_slice? htext hne, hrest⟩
  | template hgap _ htext hne _ _ _ _ hrest =>
    exact ⟨rfl, le_of_slice? hgap, lt_of_slice? htext hne, hrest⟩

/-- Tokens that tile a part of a text stand in order inside it, and none is empty or its end. -/
theorem Tiles.ordered {source : String} {start stop : Nat} {ts : List Lexeme}
    (h : Tiles source start stop ts) :
    start ≤ stop ∧
      (∀ x ∈ ts, x.1.isEof = false ∧ start ≤ x.2.start ∧ x.2.start < x.2.stop ∧ x.2.stop ≤ stop) ∧
      ts.Pairwise (fun x y => x.2.stop ≤ y.2.start) := by
  induction ts generalizing start with
  | nil =>
    cases h with
    | done hgap => exact ⟨le_of_slice? hgap, by simp, .nil⟩
  | cons x ts ih =>
    obtain ⟨hnotEof, hstart, hlt, hrest⟩ := h.uncons
    obtain ⟨hle, hinside, hordered⟩ := ih hrest
    refine ⟨by omega, ?_, List.pairwise_cons.2 ⟨fun y hy => (hinside y hy).2.1, hordered⟩⟩
    intro y hy
    rcases List.mem_cons.1 hy with rfl | hy
    · exact ⟨hnotEof, hstart, hlt, hle⟩
    · obtain ⟨hnotEof', hstart', hlt', hstop'⟩ := hinside y hy
      exact ⟨hnotEof', by omega, hlt', hstop'⟩

theorem utf8_toList (source : String) : utf8 source.toList = source.toUTF8.data.toList := by
  rw [String.toUTF8_eq_toByteArray]
  conv => rhs; rw [← String.ofList_toList (s := source), String.toByteArray_ofList]
  rw [List.utf8Encode, List.toList_data_toByteArray]
  rfl

theorem byteLength_toList (source : String) : byteLength source.toList = source.utf8ByteSize := by
  rw [← length_utf8, utf8_toList]
  simp

/--
Where scanning succeeds, no cut of the scanner by bytes goes through a character. The last token is
the end of the text and no other is. The others are not empty, stand in order, and tile the text,
and so do those of every substitution.
-/
theorem tokens_tile_source {source : String} {ts : List Lexeme} (h : Token.scan source = .ok ts) :
    ByteScan.tokens source.toUTF8.data.toList (Mark.origin 0) = some (ts, []) ∧
    ∃ us e, ts = us ++ [(.eof, e)] ∧ e.start = source.utf8ByteSize ∧ e.stop = source.utf8ByteSize ∧
      (∀ x ∈ us, x.1.isEof = false ∧ x.2.start < x.2.stop) ∧
      us.Pairwise (fun x y => x.2.stop ≤ y.2.start) ∧
      Tiles source 0 source.utf8ByteSize us := by
  have hscans := Token.scan_eq_ok.1 h
  have hbytes : ByteScan.tokens source.toUTF8.data.toList (Mark.origin 0) = some (ts, []) := by
    rw [← utf8_toList, ByteScan.tokens_utf8, hscans.tokens_eq]
  have hwhole : source.toList = [] ++ source.toList ++ [] := by simp
  obtain ⟨us, e, hts, hstart, hstop, _, htiles⟩ := hscans.tiles hwhole rfl
  rw [show (Mark.origin 0).offset = 0 from rfl, Nat.zero_add, byteLength_toList] at hstart hstop htiles
  obtain ⟨_, hinside, hordered⟩ := htiles.ordered
  refine ⟨hbytes, us, e, hts, hstart, hstop, fun x hx => ?_, hordered, htiles⟩
  obtain ⟨hnotEof, _, hlt, _⟩ := hinside x hx
  exact ⟨hnotEof, hlt⟩

/-- A comment, and a template with an escaped wide character and a comment in its substitution. -/
theorem tokens_tile_source_inTemplate :
    let source := "/* é */ `\\é$\x7b a // b\n\x7d`"
    ∃ ts us e, Token.scan source = .ok ts ∧ ts = us ++ [(.eof, e)] ∧
      us.map (fun x => (x.2.start, x.2.stop)) = [(9, 25)] ∧
      ByteScan.tokens source.toUTF8.data.toList (Mark.origin 0) = some (ts, []) ∧
      Tiles source 0 source.utf8ByteSize us := by
  intro source
  have hcheck : (Token.scan source).toOption.map (·.map fun x => (x.2.start, x.2.stop)) =
      some [(9, 25), (25, 25)] := by
    decide +kernel
  cases hscan : Token.scan source with
  | error es =>
    rw [hscan] at hcheck
    cases hcheck
  | ok ts =>
    rw [hscan] at hcheck
    obtain ⟨hbytes, us, e, rfl, _, _, _, _, htiles⟩ := tokens_tile_source hscan
    have hspans : (us ++ [(Token.eof, e)]).map (fun x => (x.2.start, x.2.stop)) =
        [(9, 25)] ++ [(25, 25)] := Option.some.inj hcheck
    rw [List.map_append] at hspans
    exact ⟨_, us, e, rfl, rfl, (List.append_inj hspans (by simpa using congrArg List.length hspans)).1,
      hbytes, htiles⟩

end Typings
