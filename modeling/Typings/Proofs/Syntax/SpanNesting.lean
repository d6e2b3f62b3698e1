import Typings.Proofs.Syntax.ClassText
import Typings.Proofs.Token.Tiling

namespace Typings

/-- One range of bytes lies in another. -/
def Span.Covers (s t : Span) : Prop := s.start ≤ t.start ∧ t.stop ≤ s.stop

section
variable {source : String} {start stop : Nat} {us : List Lexeme}

theorem TilesTemplate.substitution_mem {forms : List TemplatePart}
    (h : TilesTemplate source start stop forms) :
    start ≤ stop ∧ ∀ us, .substitution us ∈ forms →
      ∃ a b, start ≤ a ∧ b ≤ stop ∧ Tiles source a b us := by
  induction forms generalizing start with
  | nil =>
    cases h
    exact ⟨Nat.le_refl _, nofun⟩
  | cons form forms ih =>
    cases h with
    | text hraw _ h =>
      obtain ⟨hle, hforms⟩ := ih h
      have hstart := le_of_slice? hraw
      refine ⟨by omega, fun us hus => ?_⟩
      rcases List.mem_cons.1 hus with hus | hus
      · cases hus
      · obtain ⟨a, b, ha, hb, htiles⟩ := hforms us hus
        exact ⟨a, b, by omega, hb, htiles⟩
    | substitution _ htiles _ h =>
      obtain ⟨hle, hforms⟩ := ih h
      have hmid := htiles.ordered.1
      refine ⟨by omega, fun us hus => ?_⟩
      rcases List.mem_cons.1 hus with hus | hus
      · cases hus
        exact ⟨_, _, by omega, by omega, htiles⟩
      · obtain ⟨a, b, ha, hb, htiles⟩ := hforms us hus
        exact ⟨a, b, by omega, hb, htiles⟩

theorem Tiles.substitution_mem {ts : List Lexeme} (h : Tiles source start stop ts)
    {forms : List TemplatePart} {s : Span} (hmem : (.template forms, s) ∈ ts)
    (hus : .substitution us ∈ forms) : ∃ a b, s.start ≤ a ∧ b ≤ s.stop ∧ Tiles source a b us := by
  induction ts generalizing start with
  | nil => nomatch hmem
  | cons x ts ih =>
    cases h with
    | token _ _ _ _ _ htoken h =>
      rcases List.mem_cons.1 hmem with hmem | hmem
      · cases hmem
        exact absurd rfl (htoken forms)
      · exact ih h hmem
    | template _ _ _ _ _ hforms _ hstop h =>
      rcases List.mem_cons.1 hmem with hmem | hmem
      · cases hmem
        obtain ⟨a, b, ha, hb, htiles⟩ := hforms.substitution_mem.2 us hus
        exact ⟨a, b, by omega, by omega, htiles⟩
      · exact ih h hmem

end

section
variable {source : String} {whole ts us : List Lexeme} {T : Array Lexeme}
variable (hwhole : Scan.Scans source.toList (Mark.origin 0) whole)
include hwhole

theorem Lexeme.Stream.tiles (h : Stream whole ts) :
    ∃ us a b, Tiles source a b us ∧ b ≤ source.utf8ByteSize ∧
      (ts = us ∨ ∃ e, ts = us ++ [(.eof, e)]) := by
  induction h with
  | self =>
    have hsource : source.toList = [] ++ source.toList ++ [] := by simp
    obtain ⟨us, e, rfl, _, _, _, htiles⟩ := hwhole.tiles hsource rfl
    refine ⟨us, _, _, htiles, ?_, .inr ⟨e, rfl⟩⟩
    rw [byteLength_toList]
    exact Nat.le_of_eq (Nat.zero_add _)
  | @part ts us forms s _ hforms hus ih =>
    obtain ⟨vs, a, b, htiles, hb, hvs⟩ := ih
    have hmem : (.template forms, s) ∈ vs := by
      rcases hvs with rfl | ⟨e, rfl⟩
      · exact hforms
      · simpa using hforms
    obtain ⟨a', b', _, hb', htiles'⟩ := htiles.substitution_mem hmem hus
    have hstop : s.stop ≤ b := (htiles.ordered.2.1 _ hmem).2.2.2
    exact ⟨us, a', b', htiles', by omega, .inl rfl⟩

/-- The tokens of a substitution lie in its template. -/
theorem Lexeme.PartOf.covers_substitution (h : PartOf whole ts) {forms : List TemplatePart}
    {s : Span} (hmem : (.template forms, s) ∈ ts) (hus : .substitution us ∈ forms) :
    ∀ x ∈ us, s.Covers x.2 := by
  obtain ⟨full, vs, hfull, hvs, _, hts⟩ := h
  obtain ⟨us', a, b, htiles, _, hfull'⟩ := hfull.tiles hwhole
  have hmem' : (.template forms, s) ∈ us' := by
    have hfull : (.template forms, s) ∈ full := by
      apply hvs.subset
      rcases hts with rfl | ⟨e, rfl⟩
      · exact hmem
      · simpa using hmem
    rcases hfull' with rfl | ⟨e, rfl⟩
    · exact hfull
    · simpa using hfull
  obtain ⟨a', b', ha', hb', htiles'⟩ := htiles.substitution_mem hmem' hus
  intro x hx
  obtain ⟨_, hstart, _, hstop⟩ := htiles'.ordered.2.1 x hx
  exact ⟨by omega, by omega⟩

/-- The tokens before the last belong to a stream, are not empty and stand in order. -/
theorem Lexeme.PartOf.placed (h : PartOf whole T.toList) :
    ∃ us, Stream whole us ∧
      (∀ j x, j + 1 < T.size → T[j]? = some x → x ∈ us ∧ x.1.isEof = false ∧
        x.2.start < x.2.stop ∧ x.2.stop ≤ source.utf8ByteSize) ∧
      ∀ i j x y, i < j → j + 1 < T.size → T[i]? = some x → T[j]? = some y →
        x.2.stop ≤ y.2.start := by
  obtain ⟨full, us, hfull, hus, heof, hT⟩ := h
  obtain ⟨hlong, hordered⟩ := hfull.ordered hwhole
  have hget : ∀ j x, j + 1 < T.size → T[j]? = some x → us[j]? = some x := by
    intro j x hj hx
    rw [← Array.getElem?_toList] at hx
    rcases hT with hT | ⟨e, hT⟩
    · rwa [hT] at hx
    · rw [← Array.length_toList, hT, List.length_append, List.length_singleton] at hj
      rwa [hT, List.getElem?_append_left (by omega)] at hx
  refine ⟨full, hfull, fun j x hj hx => ?_, fun i j x y hij hj hx hy => ?_⟩
  · have hmem := List.mem_of_getElem? (hget j x hj hx)
    refine ⟨hus.subset hmem, heof x hmem, hlong x (hus.subset hmem) (heof x hmem), ?_⟩
    obtain ⟨vs, a, b, htiles, hb, hvs⟩ := hfull.tiles hwhole
    have hmem' : x ∈ vs := by
      have hfull := hus.subset hmem
      rcases hvs with rfl | ⟨e, rfl⟩
      · exact hfull
      · rcases List.mem_append.1 hfull with hx | hx
        · exact hx
        · have := heof x hmem
          rw [List.mem_singleton.1 hx] at this
          cases this
    have := (htiles.ordered.2.1 x hmem').2.2.2
    omega
  · obtain ⟨hi, rfl⟩ := List.getElem?_eq_some_iff.1 (hget i x (by omega) hx)
    obtain ⟨hj, rfl⟩ := List.getElem?_eq_some_iff.1 (hget j y hj hy)
    exact List.pairwise_iff_getElem.1 (hordered.sublist hus.sublist) i j hi hj hij

theorem Lexeme.PartOf.start_le_stop_le (h : PartOf whole T.toList) {i j : Nat} {x y : Lexeme}
    (hij : i ≤ j) (hj : j + 1 < T.size) (hx : T[i]? = some x) (hy : T[j]? = some y) :
    x.2.start ≤ y.2.start ∧ x.2.stop ≤ y.2.stop := by
  obtain ⟨us, _, hplaced, horder⟩ := h.placed hwhole
  rcases Nat.lt_or_eq_of_le hij with hij | rfl
  · have hle := horder i j x y hij hj hx hy
    have hlong := (hplaced i x (by omega) hx).2.2.1
    have hlong' := (hplaced j y hj hy).2.2.1
    omega
  · cases hx.symm.trans hy
    exact ⟨Nat.le_refl _, Nat.le_refl _⟩

end

theorem Cursor.mem_of_terminated {ts : List Lexeme} {j : Nat} {x : Lexeme}
    (hj : j + 1 < (Cursor.terminated ts).toArray.size)
    (hx : (Cursor.terminated ts).toArray[j]? = some x) : x ∈ ts := by
  obtain ⟨added, hadded, hle⟩ := Cursor.exists_terminated_eq ts
  rw [List.size_toArray, hadded, List.length_append] at hj
  rw [List.getElem?_toArray, hadded, List.getElem?_append_left (by omega)] at hx
  exact List.mem_of_getElem? hx

/-- A range of bytes goes from the start of a token to the end of a token. -/
def Span.OnTokens (source : String) (whole : List Lexeme) (s : Span) : Prop :=
  s.start < s.stop ∧ s.stop ≤ source.utf8ByteSize ∧ ∃ us, Lexeme.Stream whole us ∧
    (∃ x ∈ us, x.1.isEof = false ∧ x.2.start = s.start) ∧
    ∃ x ∈ us, x.1.isEof = false ∧ x.2.stop = s.stop

/-- What was read from the tokens between two positions. -/
inductive Part.Ranges (T : Array Lexeme) (i k : Nat) : Part → Prop
  | node {n : Node} {a b : Nat} {x y : Lexeme} (hi : i ≤ a) (hab : a ≤ b) (hk : b < k)
      (hb : b + 1 < T.size) (hx : T[a]? = some x) (hy : T[b]? = some y)
      (hstart : n.span.start = x.2.start) (hstop : n.span.stop = y.2.stop) : Ranges T i k (.node n)
  | body {a b : Nat} (hi : i ≤ a) (hk : b ≤ k) (hb : b < T.size) :
      Ranges T i k (.body (T.extract a b).toList)

inductive Part.Inside (s : Span) : Part → Prop
  | node {n : Node} (h : s.Covers n.span) : Inside s (.node n)
  | body {ts : List Lexeme} (h : ∀ x ∈ ts, s.Covers x.2) : Inside s (.body ts)

/-- A node goes from token to token, and its parts lie in it. -/
def Node.Encloses (source : String) (whole : List Lexeme) (n : Node) : Prop :=
  n.span.OnTokens source whole ∧ ∀ p ∈ n.parts, p.Inside n.span

section
variable {T : Array Lexeme} {i i' k k' : Nat} {p : Part} {s : Span}

theorem Part.Ranges.wider (h : p.Ranges T i k) (hi : i' ≤ i) (hk : k ≤ k') : p.Ranges T i' k' := by
  cases h with
  | node ha hab hb hsize hx hy hstart hstop =>
    exact .node (Nat.le_trans hi ha) hab (Nat.lt_of_lt_of_le hb hk) hsize hx hy hstart hstop
  | body ha hb hsize => exact .body (Nat.le_trans hi ha) (Nat.le_trans hb hk) hsize

theorem Part.Ranges.inside (h : p.Ranges T i k)
    (hs : ∀ j x, i ≤ j → j < k → j + 1 < T.size → T[j]? = some x → s.Covers x.2) : p.Inside s := by
  cases h with
  | @node n a b x y ha hab hb hsize hx hy hstart hstop =>
    have hfirst := hs a x ha (by omega) (by omega) hx
    have hlast := hs b y (by omega) hb hsize hy
    exact .node ⟨hstart ▸ hfirst.1, hstop ▸ hlast.2⟩
  | @body a b ha hb hsize =>
    refine .body fun x hx => ?_
    obtain ⟨j, hj, rfl⟩ := Array.mem_extract_iff_getElem.1 (Array.mem_toList_iff.1 hx)
    exact hs (a + j) _ (by omega) (by omega) (by omega) (Array.getElem?_eq_getElem (by omega))

end

section
variable {source : String} {whole : List Lexeme} {T : Array Lexeme} {i b k : Nat} {x y : Lexeme}
variable (hwhole : Scan.Scans source.toList (Mark.origin 0) whole)

abbrev Part.Nested (source : String) (whole : List Lexeme) : Part → Prop :=
  Part.Deep (Node.Encloses source whole) (Lexeme.PartOf whole)

include hwhole in
theorem Node.nested {n : Node} (hT : Lexeme.PartOf whole T.toList) (hib : i ≤ b) (hk : b < k)
    (hb : b + 1 < T.size) (hx : T[i]? = some x) (hy : T[b]? = some y)
    (hstart : n.span.start = x.2.start) (hstop : n.span.stop = y.2.stop)
    (hparts : ∀ p ∈ n.parts, p.Ranges T i (b + 1) ∧ p.Nested source whole) :
    (Part.node n).Ranges T i k ∧ (Part.node n).Nested source whole := by
  refine ⟨.node (Nat.le_refl _) hib hk hb hx hy hstart hstop,
    .node ⟨⟨?_, ?_, ?_⟩, fun p hp => (hparts p hp).1.inside fun j z hj hjb hsize hz => ?_⟩
      fun p hp => (hparts p hp).2⟩
  all_goals
    obtain ⟨us, hus, hplaced, _⟩ := hT.placed hwhole
    have hfirst := hplaced i x (by omega) hx
    have hlast := hplaced b y hb hy
  · have := (hT.start_le_stop_le hwhole hib hb hx hy).1
    omega
  · omega
  · exact ⟨us, hus, ⟨x, hfirst.1, hfirst.2.1, hstart.symm⟩, y, hlast.1, hlast.2.1, hstop.symm⟩
  · have h₁ := (hT.start_le_stop_le hwhole hj hsize hx hz).1
    have h₂ := (hT.start_le_stop_le hwhole (Nat.le_of_lt_succ hjb) hb hz hy).2
    exact ⟨hstart ▸ h₁, hstop ▸ h₂⟩

theorem spanAt_eq (h : T[i]? = some x) : spanAt T i = x.2 := by
  rw [spanAt, h]
  rfl

theorem exists_getElem? (h : i < T.size) : ∃ x, T[i]? = some x := ⟨_, Array.getElem?_eq_getElem h⟩

/-- Everything that is read nests. -/
def nestingWatch : Watch where
  asks T i k p := Lexeme.PartOf whole T.toList → p.Ranges T i k ∧ p.Nested source whole
  wider hi hk h hT := ⟨(h hT).1.wider hi hk, (h hT).2⟩
  closed {T i k n} hi hk _ hspan hparts hT := by
    obtain ⟨x, hx⟩ := exists_getElem? (T := T) (i := i) (by omega)
    obtain ⟨y, hy⟩ := exists_getElem? (T := T) (i := k - 1) (by omega)
    obtain ⟨hstart, hstop⟩ := hT.start_le_stop_le hwhole (by omega) (by omega) hx hy
    rw [spanAt_eq hx, spanAt_eq hy] at hspan
    refine Node.nested hwhole hT (by omega) (by omega) (by omega) hx hy ?_ ?_ fun p hp => ?_
    · rw [hspan, Span.start_through, Nat.min_eq_left hstart]
    · rw [hspan, Span.stop_through, Nat.max_eq_right hstop]
    · rw [Nat.sub_add_cancel (by omega)]
      exact hparts p hp hT
  ended {T i j k e last} hij hk hspan hlast hparts hT := by
    obtain ⟨hrange, hdeep⟩ := hlast hT
    cases hrange with
    | @node _ a b x' y ha hab hb hsize hx' hy hstart' hstop' =>
      obtain ⟨x, hx⟩ := exists_getElem? (T := T) (i := i) (by omega)
      have hfirst := hT.start_le_stop_le hwhole (by omega) (by omega) hx hx'
      have hboth := hT.start_le_stop_le hwhole (by omega) hsize hx hy
      rw [spanAt_eq hx] at hspan
      refine Node.nested hwhole hT (by omega) hb hsize hx hy ?_ ?_ fun p hp => ?_
      · rw [Node.span, hspan, Span.start_through]
        exact Nat.min_eq_left (hstart' ▸ hfirst.1)
      · rw [Node.span, hspan, Span.stop_through, ← hstop']
        exact Nat.max_eq_right (hstop' ▸ hboth.2)
      · rcases hparts p hp with rfl | hp
        · exact ⟨.node (by omega) hab (by omega) hsize hx' hy hstart' hstop', hdeep⟩
        · exact ⟨(hp hT).1.wider (Nat.le_refl _) (by omega), (hp hT).2⟩
  wrapped {T i k n m} _ hparts hspan hm hT := by
    obtain ⟨hrange, hdeep⟩ := hm hT
    cases hrange with
    | node ha hab hb hsize hx hy hstart hstop =>
      refine ⟨.node ha hab hb hsize hx hy (hspan ▸ hstart) (hspan ▸ hstop), ?_⟩
      cases hdeep with
      | node hencloses hdeep =>
        refine .node ⟨hspan ▸ hencloses.1, ?_⟩ ?_
        · rw [hparts, List.forall_mem_singleton]
          exact .node ⟨Nat.le_of_eq (by rw [hspan]), Nat.le_of_eq (by rw [hspan])⟩
        · rw [hparts, List.forall_mem_singleton]
          exact .node hencloses hdeep
  template {T i elements forms s} hi hform hparts hT := by
    have hmem := mem_toList_of_getElem? hform
    obtain ⟨us, hus, hplaced, _⟩ := hT.placed hwhole
    obtain ⟨hx, heof, hlong, hstop⟩ := hplaced i _ hi hform
    refine ⟨.node (Nat.le_refl _) (Nat.le_refl _) (Nat.lt_succ_self _) hi hform hform rfl rfl,
      .node ⟨⟨hlong, hstop, us, hus, ⟨_, hx, heof, rfl⟩, _, hx, heof, rfl⟩, fun p hp => ?_⟩
        fun p hp => ?_⟩
    all_goals
      obtain ⟨ts, k, hts, hp⟩ := hparts p hp
      obtain ⟨hrange, hdeep⟩ := hp (hT.part hwhole hmem hts).terminated
    · exact hrange.inside fun j x _ _ hj hx =>
        hT.covers_substitution hwhole hmem hts x (Cursor.mem_of_terminated hj hx)
    · exact hdeep
  body ha hab hb hk hT :=
    ⟨.body (Nat.le_of_lt ha) hb (by omega), .body <| hT.infix (toList_extract_part ..)⟩

end

/--
Every node of a module goes from the start of a token to the end of a token, where the tokens of a
substitution count as well, and the nodes directly in it lie between them.
-/
theorem spans_nest {source : String} {ts : List Lexeme} {m : Module} {n : Node}
    (hscan : Token.scan source = .ok ts) (hm : Module.ofTokens ts = .ok m) (hn : m.Has n) :
    n.span.OnTokens source ts ∧ ∀ n' ∈ n.children, n.span.Covers n'.span := by
  have hscans := Token.scan_eq_ok.1 hscan
  have hdeep : (Part.node n).Nested source ts := hn.deep (w := nestingWatch hscans)
    (fun hts hp => (hp hts.terminated).2) (Lexeme.partOf_self hscans) hm
  cases hdeep with
  | node hencloses hparts =>
    refine ⟨hencloses.1, fun n' hn' => ?_⟩
    rcases Node.mem_children hn' with hn' | ⟨us, ss, s, hus, hss, hs, rfl⟩
    · cases hencloses.2 _ hn' with
      | node hcovers => exact hcovers
    -- a body is read from its tokens, which lie in the function
    · cases hencloses.2 _ hus with
      | body hcovers =>
        cases hparts _ hus with
        | body hpart =>
          obtain ⟨k, hk⟩ := (Statement.ofTokens_holds (nestingWatch hscans) us).ok hss
          have hmem : .node (.statement s) ∈ Carrier.parts ss :=
            List.mem_flatMap.2 ⟨s, hs, List.mem_singleton.2 rfl⟩
          cases (hk _ hmem hpart.terminated).1.inside fun j x _ _ hj hx =>
            hcovers x (Cursor.mem_of_terminated hj hx) with
          | node hcovers => exact hcovers

/-- A class in a template in the body of a function, with a member whose value is in parentheses. -/
theorem spans_nest_inTemplate :
    let source := "function f() \x7b return `$\x7bclass A \x7b x = (a); \x7d\x7d`; \x7d"
    ∃ ts m c, Token.scan source = .ok ts ∧ Module.ofTokens ts = .ok m ∧ m.Has (.classOf c) ∧
      (c.span.start, c.span.stop) = (25, 45) ∧
      (Node.classOf c).children.map (fun n => (n.span.start, n.span.stop)) = [(40, 41)] ∧
      c.span.OnTokens source ts ∧ ∀ n ∈ (Node.classOf c).children, c.span.Covers n.span := by
  intro source
  have hcheck : classAt source 5 (fun _ c => (c.span.start, c.span.stop) == (25, 45) &&
      (Node.classOf c).children.map (fun n => (n.span.start, n.span.stop)) == [(40, 41)]) =
        true := by
    decide +kernel
  obtain ⟨ts, m, c, hscan, hm, hc, hcheck⟩ := exists_of_classAt hcheck
  rw [Bool.and_eq_true, beq_iff_eq, beq_iff_eq] at hcheck
  obtain ⟨htokens, hchildren⟩ := spans_nest hscan hm hc
  exact ⟨ts, m, c, hscan, hm, hc, hcheck.1, hcheck.2, htokens, hchildren⟩

end Typings
