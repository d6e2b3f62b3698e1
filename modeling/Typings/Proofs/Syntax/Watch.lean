import Typings.Proofs.Syntax.Reading
import Typings.Proofs.Syntax.Tree

namespace Typings

open Carrier (parts)

/-- Where the token at an index stands. -/
def spanAt (T : Array Lexeme) (i : Nat) : Span := (T[i]?.map (·.2)).getD default

/-- If the node is a class, it was read from these tokens. -/
def Node.ReadIn (T : Array Lexeme) : Node → Prop
  | .classOf c => ∃ (n : Nat) (start stop : Cursor), start.tokens = T ∧ start.rest ≤ n + 1 ∧
      (Grammar.levels n).classDef start = (.ok c, stop)
  | _ => True

structure Watch where
  asks : Array Lexeme → Nat → Nat → Part → Prop
  wider : ∀ {T i i' k k' p}, i' ≤ i → k ≤ k' → asks T i k p → asks T i' k' p
  /-- A node that goes from its first token to its last. -/
  closed : ∀ {T i k n}, i < k → k < T.size → n.ReadIn T →
    n.span = (spanAt T i).through (spanAt T (k - 1)) → (∀ p ∈ n.parts, asks T i k p) →
    asks T i k (.node n)
  /-- An expression that goes from its first token to the end of its last operand. -/
  ended : ∀ {T i j k e last}, i < j → k < T.size → Expr.span e = (spanAt T i).through last.span →
    asks T j k (.node (.expr last)) →
    (∀ p ∈ (Node.expr e).parts, p = .node (.expr last) ∨ asks T i j p) →
    asks T i k (.node (.expr e))
  /-- A node that is nothing but another. -/
  wrapped : ∀ {T i k n m}, n.ReadIn T → n.parts = [.node m] → n.span = m.span →
    asks T i k (.node m) → asks T i k (.node n)
  /-- A template, whose substitutions were read on their own. -/
  template : ∀ {T i elements forms s}, i + 1 < T.size → T[i]? = some (.template forms, s) →
    (∀ p ∈ parts elements, ∃ ts k, .substitution ts ∈ forms ∧
      asks (Cursor.terminated ts).toArray 0 k p) →
    asks T i (i + 1) (.node (.expr (.template elements s)))
  body : ∀ {T i a b k}, i < a → a ≤ b → b ≤ k → k < T.size →
    asks T i k (.body (T.extract a b).toList)

instance : CoeFun Watch fun _ => Array Lexeme → Nat → Nat → Part → Prop := ⟨Watch.asks⟩

/-- Nothing is asked. -/
def Watch.idle : Watch where
  asks _ _ _ _ := True
  wider := by intros; trivial
  closed := by intros; trivial
  ended := by intros; trivial
  wrapped := by intros; trivial
  template := by intros; trivial
  body := by intros; trivial

/-- What the watch asks of everything in something that was read. -/
abbrev Watch.Holds {α : Type} [Carrier α] (w : Watch) (T : Array Lexeme) (i : Nat) (a : α)
    (k : Nat) : Prop := ∀ p ∈ parts a, w T i k p

variable {w : Watch} {T : Array Lexeme} {i j k n : Nat} {ps : List Part}

theorem Watch.token {m : Node} (hi : i < k) (hk : k < T.size)
    (hread : m.ReadIn T) (hspan : m.span = spanAt T i) (hparts : m.parts = []) :
    w T i k (.node m) := by
  refine w.wider (Nat.le_refl i) (Nat.succ_le_of_lt hi)
    (w.closed (Nat.lt_succ_self i) ?_ hread ?_ ?_)
  · omega
  · rw [hspan, Nat.succ_sub_one, Span.through, Nat.min_self, Nat.max_self]
  · simp [hparts]

namespace Cursor

variable {c : Cursor}

theorem span_eq_spanAt (c : Cursor) : c.span = spanAt c.tokens c.pos := by
  rw [spanAt, Array.getElem?_eq_getElem c.pos_lt]
  rfl

theorem previousSpan_eq_spanAt (c : Cursor) : c.previousSpan = spanAt c.tokens (c.pos - 1) := by
  have hlt : c.pos - 1 < c.tokens.size := Nat.lt_of_le_of_lt (Nat.sub_le ..) c.pos_lt
  rw [spanAt, Array.getElem?_eq_getElem hlt]
  rfl

end Cursor

section
variable {α β : Type} [Carrier α] [Carrier β]

theorem parts_getLast?_subset (as : List α) : parts as.getLast? ⊆ parts as := by
  intro p hp
  obtain ⟨a, ha, hp⟩ := List.mem_flatMap.1 hp
  exact List.mem_flatMap.2 ⟨a, List.mem_of_getLast? (Option.mem_toList.1 ha), hp⟩

theorem parts_reverse_subset (as : List α) : parts as.reverse ⊆ parts as := by
  intro p hp
  simpa [parts] using hp

theorem parts_filterMap_subset {f : α → Option β} (hf : ∀ a b, f a = some b → parts b ⊆ parts a)
    (as : List α) : parts (as.filterMap f) ⊆ parts as := by
  intro p hp
  obtain ⟨b, hb, hp⟩ := List.mem_flatMap.1 hp
  obtain ⟨a, ha, hab⟩ := List.mem_filterMap.1 hb
  exact List.mem_flatMap.2 ⟨a, ha, hf a b hab hp⟩

end

namespace Parse

variable {α β σ : Type}

/-- With at most `n` tokens left, a reading passes a token, and its parts are as the watch asks. -/
def Yields [Carrier α] (w : Watch) (n : Nat) (x : Parse α) : Prop :=
  ∀ ⦃c⦄, c.rest ≤ n → Reads c (fun a k => c.pos < k ∧ w.Holds c.tokens c.pos a k) x

/-- The same for a reading that belongs to a production from position `i` on. -/
def Opens [Carrier α] (w : Watch) (T : Array Lexeme) (i n : Nat) (x : Parse α) : Prop :=
  ∀ ⦃c⦄, c.tokens = T → c.rest ≤ n → i ≤ c.pos → Reads c (fun a k => i < k ∧ w.Holds T i a k) x

/-- What follows when a token was passed since then, and the parts `ps` were read. -/
def After (w : Watch) (T : Array Lexeme) (i n : Nat) (ps : List Part) (Q : α → Nat → Prop)
    (x : Parse α) : Prop :=
  ∀ ⦃c⦄, c.tokens = T → c.rest ≤ n → i < c.pos → (∀ p ∈ ps, w T i c.pos p) → Reads c Q x

abbrev Collects [Carrier α] (w : Watch) (T : Array Lexeme) (i n : Nat) (ps : List Part)
    (x : Parse α) : Prop :=
  After w T i n ps (w.Holds T i) x

/-- The same for one step of a loop, which passes a token if it goes on. -/
def Links [Carrier σ] [Carrier β] (w : Watch) (T : Array Lexeme) (i n : Nat) (ps : List Part)
    (x : Parse (σ ⊕ β)) : Prop :=
  ∀ ⦃c⦄, c.tokens = T → c.rest ≤ n → i < c.pos → (∀ p ∈ ps, w T i c.pos p) →
    Reads c (fun r k => (r.isLeft → c.pos < k) ∧ w.Holds T i r k) x

variable {γ : Type} {y : Parse γ} {h : γ → Parse β} {Q : β → Nat → Prop}

theorem After.give {b : β} (hb : ∀ k, i < k → k < T.size → (∀ p ∈ ps, w T i k p) → Q b k) :
    After w T i n ps Q (pure b) := by
  rintro c rfl hc hi hps
  exact .pure (hb _ hi c.pos_lt hps)

theorem After.finish {mk : Span → β} (hmk : ∀ k, i < k → k < T.size → (∀ p ∈ ps, w T i k p) →
      Q (mk (spanAt T (k - 1))) k) :
    After w T i n ps Q (previous >>= fun s => pure (mk s)) := by
  rintro c rfl hc hi hps
  refine .get (.pure ?_)
  rw [c.previousSpan_eq_spanAt]
  exact hmk _ hi c.pos_lt hps

theorem After.fails {e : ParseError} (he : e.fault ≠ .exhausted) :
    After w T i n ps Q (throw e) := fun _ _ _ _ _ => .error he

theorem After.invalid_bind (reason : String) (span : Span) :
    After w T i n ps Q (invalid reason span >>= h) :=
  fun _ _ _ _ _ => (Reads.invalid (Q := fun _ _ => False) ..).bind fun _ _ _ h => h.elim

theorem After.unexpected (expected : List Token) :
    After w T i n ps Q (Parse.unexpected expected) := fun _ _ _ _ _ => .unexpected _

theorem After.sub_one {x : Parse β} (hx : After w T i n ps Q x) : After w T i (n - 1) ps Q x :=
  fun _ hT hc => hx hT (Nat.le_trans hc (Nat.sub_le ..))

end Parse

theorem Reads.opens {β γ : Type} {c : Cursor} {y : Parse γ} {h : γ → Parse β} {Q : β → Nat → Prop}
    (hy : Reads c (fun _ k => c.pos < k) y) (hT : c.tokens = T) (hc : c.rest ≤ n) (hi : i ≤ c.pos)
    (hh : ∀ a, Parse.After w T i (n - 1) [] Q (h a)) :
    Reads c (fun b k => i < k ∧ Q b k) (y >>= h) :=
  hy.bind fun a c' hl hpos => by
    have hrest := hl.rest_add_le
    have hlt : i < c'.pos := Nat.lt_of_le_of_lt hi hpos
    refine (hh a (hl.tokens.trans hT) (by omega) hlt (by simp)).mono fun b k hle hb => ⟨?_, hb⟩
    exact Nat.lt_of_lt_of_le hlt hle

theorem Reads.behind {β : Type} [Carrier β] {c : Cursor} {t : Token} {h : PUnit → Parse β}
    (ht : c.token = t) (hc : c.rest ≤ n) (heof : t.isEof = false)
    (hh : Parse.Collects w c.tokens c.pos (n - 1) [] (h ⟨⟩)) :
    Reads c (fun b k => c.pos < k ∧ w.Holds c.tokens c.pos b k) (Parse.advance >>= h) :=
  (Reads.advance (ht ▸ heof)).opens rfl hc (Nat.le_refl _) fun _ => hh

theorem Reads.and {α : Type} {c : Cursor} {P Q : α → Nat → Prop} {x : Parse α} (hP : Reads c P x)
    (hQ : Reads c Q x) : Reads c (fun a k => P a k ∧ Q a k) x := by
  obtain ⟨hleads, hends⟩ := hP
  refine ⟨hleads, ?_⟩
  cases hout : (x c).1 with
  | error e => exact hends.error hout
  | ok a => exact ⟨hends.ok hout, hQ.ends.ok hout⟩

theorem Reads.run {α : Type} {c : Cursor} {Q : α → Nat → Prop} {x : Parse α} (hx : Reads c Q x) :
    Reads c (fun a _ => ∃ c', x c = (.ok a, c')) x := by
  refine ⟨hx.leads, ?_⟩
  cases hout : (x c).1 with
  | error e => exact hx.ends.error hout
  | ok a => exact ⟨_, Prod.ext hout rfl⟩

namespace Parse

variable {α β σ γ : Type} [Carrier α] {x : Parse α} {f : α → Parse β} {y : Parse γ}
variable {h : γ → Parse β} {Q : β → Nat → Prop}

theorem Yields.passes (hx : Yields w n x) : Passes n x :=
  fun _ hc => (hx hc).mono fun _ _ _ ha => ha.1

theorem Yields.fewer (hx : Yields w (n + 1) x) : Yields w n x :=
  fun _ hc => hx (Nat.le_succ_of_le hc)

theorem Yields.nested (hx : Yields w n x) : Yields w n (Parse.nested x) :=
  fun _ hc => .nested (hx hc)

theorem Opens.yields (hx : ∀ T i, Opens w T i n x) : Yields w n x :=
  fun _ hc => hx _ _ rfl hc (Nat.le_refl _)

theorem yields_here {f : Span → Parse α} (hf : ∀ T i, Opens w T i n (f (spanAt T i))) :
    Yields w n (here >>= f) :=
  fun c hc => .here (c.span_eq_spanAt ▸ hf _ _ rfl hc (Nat.le_refl _))

theorem yields_get {f : Cursor → Parse α} (hf : ∀ c, Opens w c.tokens c.pos n (f c)) :
    Yields w n (get >>= f) :=
  fun c hc => .get (hf c rfl hc (Nat.le_refl _))

theorem Yields.map [Carrier β] {f : α → β} (hx : Yields w n x) (hf : ∀ a, parts (f a) ⊆ parts a) :
    Yields w n (f <$> x) :=
  fun _ hc => (hx hc).map fun a _ ha => ⟨ha.1, fun p hp => ha.2 p (hf a hp)⟩

variable [Carrier β]

theorem Opens.invalid_bind (reason : String) (span : Span) :
    Opens w T i n (invalid reason span >>= h) :=
  fun _ _ _ _ => (Reads.invalid (Q := fun _ _ => False) ..).bind fun _ _ _ h => h.elim

theorem Opens.unexpected_bind (expected : List Token) :
    Opens w T i n (unexpected expected >>= h) :=
  fun _ _ _ _ => (Reads.unexpected (Q := fun _ _ => False) _).bind fun _ _ _ h => h.elim

theorem Within.opens (hy : Within n y) (hh : ∀ a, Opens w T i n (h a)) : Opens w T i n (y >>= h) :=
  fun _ hT hc hi => (hy hc).bind fun a _ hl _ =>
    hh a (hl.tokens.trans hT) (hl.rest_le hc) (Nat.le_trans hi hl.pos_le)

theorem Passes.opens (hy : Passes n y) (hh : ∀ a, Collects w T i (n - 1) [] (h a)) :
    Opens w T i n (y >>= h) :=
  fun _ hT hc hi => (hy hc).opens hT hc hi hh

theorem After.keep {b : β} (hb : parts b ⊆ ps) : Collects w T i n ps (pure b) :=
  .give fun _ _ _ hps p hp => hps p (hb hp)

theorem Links.stop [Carrier σ] {b : β} (hb : parts b ⊆ ps) :
    Links w T i n ps (pure (.inr b) : Parse (σ ⊕ β)) :=
  fun _ _ _ _ hps => .pure ⟨nofun, fun p hp => hps p (hb hp)⟩

theorem After.links [Carrier σ] {x : Parse (σ ⊕ β)} (hx : Collects w T i n ps x)
    (hpasses : Passes n x) : Links w T i n ps x :=
  fun _ hT hc hi hps => ((hpasses hc).and (hx hT hc hi hps)).mono fun _ _ _ hr =>
    ⟨fun _ => hr.1, hr.2⟩

theorem After.loop [Carrier σ] {step : σ → Parse (σ ⊕ β)} {init : σ}
    (hstep : ∀ s, Links w T i n (parts s) (step s)) (hinit : parts init ⊆ ps) :
    Collects w T i n ps (Parse.loop init step) := by
  rintro c rfl hc hi hps
  refine loop_reads (I := fun s k => w.Holds c.tokens i s k) (fun s c' hl hc' hs => ?_) hc
    fun p hp => hps p (hinit hp)
  refine (hstep s hl.tokens hc' (Nat.lt_of_lt_of_le hi hl.pos_le) hs).mono fun r k _ hr => ?_
  cases r with
  | inl s' => exact ⟨hr.1 rfl, hr.2⟩
  | inr b => exact hr.2

section

theorem Yields.opens (hx : Yields w n x) : Opens w T i n x :=
  fun _ hT hc hi => (hx hc).mono fun _ _ _ ha => ⟨Nat.lt_of_le_of_lt hi ha.1,
    fun p hp => w.wider hi (Nat.le_refl _) (hT ▸ ha.2 p hp)⟩

theorem Yields.collects (hx : Yields w n x) : Collects w T i n ps x :=
  fun _ hT hc hi _ => (hx.opens hT hc (Nat.le_of_lt hi)).mono fun _ _ _ ha => ha.2

omit [Carrier β] in
theorem Within.after (hy : Within n y) (hh : ∀ a, After w T i n ps Q (h a)) :
    After w T i n ps Q (y >>= h) :=
  fun _ hT hc hi hps => (hy hc).bind fun a _ hl _ =>
    hh a (hl.tokens.trans hT) (hl.rest_le hc) (Nat.lt_of_lt_of_le hi hl.pos_le)
      fun p hp => w.wider (Nat.le_refl _) hl.pos_le (hps p hp)

omit [Carrier β] in
theorem After.bind (hx : Collects w T i n ps x)
    (hf : ∀ a, After w T i n (ps ++ parts a) Q (f a)) : After w T i n ps Q (x >>= f) :=
  fun _ hT hc hi hps => (hx hT hc hi hps).bind fun a _ hl ha =>
    hf a (hl.tokens.trans hT) (hl.rest_le hc) (Nat.lt_of_lt_of_le hi hl.pos_le) fun p hp =>
      (List.mem_append.1 hp).elim (fun hp => w.wider (Nat.le_refl _) hl.pos_le (hps p hp)) (ha p)

omit [Carrier β] in
theorem Yields.andThen (hx : Yields w n x) (hf : ∀ a, After w T i n (ps ++ parts a) Q (f a)) :
    After w T i n ps Q (x >>= f) := (hx.collects).bind hf

theorem Yields.before (hx : Yields w n x) (hf : ∀ a, Collects w T i (n - 1) (parts a) (f a)) :
    Opens w T i n (x >>= f) :=
  fun _ hT hc hi => (hx hc).bind fun a c' hl ha => by
    have hrest := hl.rest_add_le
    have hlt : i < c'.pos := Nat.lt_of_le_of_lt hi ha.1
    have hparts : ∀ p ∈ parts a, w T i c'.pos p := fun p hp =>
      w.wider hi (Nat.le_refl _) (hT ▸ ha.2 p hp)
    refine (hf a (hl.tokens.trans hT) (by omega) hlt hparts).mono fun b k hle hb => ⟨?_, hb⟩
    exact Nat.lt_of_lt_of_le hlt hle

theorem Yields.followed (hx : Yields w n x) (hy : Within n y) :
    Yields w n (do
      let a ← x
      let _ ← y
      return a) :=
  Opens.yields fun _ _ => hx.before fun _ => (hy.after fun _ =>
    After.keep (List.Subset.refl _)).sub_one

theorem After.close {mk : Span → β} (hmk : ∀ s, ∃ m, parts (mk s) = [.node m] ∧ m.ReadIn T ∧
      m.span = (spanAt T i).through s ∧ m.parts ⊆ ps) :
    Collects w T i n ps (previous >>= fun s => pure (mk s)) := by
  refine .finish fun k hi hk hps p hp => ?_
  obtain ⟨m, hmk, hread, hspan, hparts⟩ := hmk (spanAt T (k - 1))
  rw [hmk, List.mem_singleton] at hp
  rw [hp]
  exact w.closed hi hk hread hspan fun q hq => hps q (hparts hq)

theorem After.leaf {b : β} {m : Node} (hb : parts b = [.node m]) (hread : m.ReadIn T)
    (hspan : m.span = spanAt T i) (hparts : m.parts = []) : Collects w T i n ps (pure b) := by
  refine .give fun k hi hk _ p hp => ?_
  rw [hb, List.mem_singleton] at hp
  exact hp ▸ w.token hi hk hread hspan hparts

omit [Carrier β] in
theorem Yields.last {x : Parse Expr} {f : Expr → Parse β} {m : Expr → Expr} (hx : Yields w n x)
    (hf : ∀ e, After w T i n (parts (m e)) Q (f e))
    (hspan : ∀ e, (m e).span = (spanAt T i).through e.span)
    (hparts : ∀ e, (m e).parts ⊆ ps ++ parts e) : After w T i n ps Q (x >>= f) := by
  rintro c rfl hc hi hps
  refine (hx hc).bind fun e c' hl he => ?_
  refine hf e hl.tokens (hl.rest_le hc) (Nat.lt_of_lt_of_le hi hl.pos_le) fun p hp => ?_
  obtain rfl := List.mem_singleton.1 hp
  refine w.ended hi (hl.tokens ▸ c'.pos_lt) (hspan e) (he.2 _ (List.mem_singleton.2 rfl))
    fun p hp => ?_
  exact (List.mem_append.1 (hparts e hp)).symm.imp List.mem_singleton.1 (hps p)

theorem Yields.wrap {f : α → β} (hx : Yields w n x) (hf : ∀ T a, ∃ m m', parts a = [.node m] ∧
      parts (f a) = [.node m'] ∧ m'.ReadIn T ∧ m'.parts = [.node m] ∧ m'.span = m.span) :
    Yields w n (do return f (← x)) := by
  refine Opens.yields fun T i => hx.before fun a => .give fun k _ _ ha p hp => ?_
  obtain ⟨m, m', hm, hm', hread, hparts, hspan⟩ := hf T a
  rw [hm', List.mem_singleton] at hp
  exact hp ▸ w.wrapped hread hparts hspan (ha _ (by simp [hm]))

section
variable [Carrier σ]

theorem Within.links {h : γ → Parse (σ ⊕ β)} (hy : Within n y) (hh : ∀ a, Links w T i n ps (h a)) :
    Links w T i n ps (y >>= h) :=
  fun _ hT hc hi hps => (hy hc).bind fun a _ hl _ =>
    (hh a (hl.tokens.trans hT) (hl.rest_le hc) (Nat.lt_of_lt_of_le hi hl.pos_le)
      fun p hp => w.wider (Nat.le_refl _) hl.pos_le (hps p hp)).mono fun _ _ _ hr =>
        ⟨fun hleft => Nat.lt_of_le_of_lt hl.pos_le (hr.1 hleft), hr.2⟩

theorem Passes.links {h : γ → Parse (σ ⊕ β)} (hy : Passes n y)
    (hh : ∀ a, Collects w T i n ps (h a)) : Links w T i n ps (y >>= h) :=
  fun _ hT hc hi hps => (hy hc).bind fun a _ hl hpos =>
    (hh a (hl.tokens.trans hT) (hl.rest_le hc) (Nat.lt_of_lt_of_le hi hl.pos_le)
      fun p hp => w.wider (Nat.le_refl _) hl.pos_le (hps p hp)).mono fun _ _ hle hr =>
        ⟨fun _ => Nat.lt_of_lt_of_le hpos hle, hr⟩

theorem Yields.links {f : α → Parse (σ ⊕ β)} (hx : Yields w n x)
    (hf : ∀ a, Collects w T i n (ps ++ parts a) (f a)) : Links w T i n ps (x >>= f) :=
  fun _ hT hc hi hps => (hx hc).bind fun a _ hl ha =>
    (hf a (hl.tokens.trans hT) (hl.rest_le hc) (Nat.lt_of_lt_of_le hi hl.pos_le) fun p hp =>
      (List.mem_append.1 hp).elim (fun hp => w.wider (Nat.le_refl _) hl.pos_le (hps p hp))
        fun hp => w.wider (Nat.le_of_lt hi) (Nat.le_refl _) (hT ▸ ha.2 p hp)).mono
      fun _ _ hle hr => ⟨fun _ => Nat.lt_of_lt_of_le ha.1 hle, hr⟩

end

theorem After.items {x : Parse α} (hx : Yields w n x) (closer : Punct) :
    Collects w T i n ps (itemsUntil closer x) := by
  refine After.bind (.loop (fun acc => ?_) (by simp [parts])) fun items =>
    (passes_expect _).within.after fun _ => After.keep (by simp)
  refine (within_atPunct closer).links fun b => ?_
  split
  · exact .stop (parts_reverse_subset acc)
  · exact hx.links fun a => .keep (by simp [parts])

theorem collects_body : Collects w T i n ps body := by
  rintro c rfl hc hi hps
  refine .get ((braces_reads c).bind fun ts c' hl hts => ?_)
  obtain ⟨a, b, ha, hab, hb, rfl⟩ := hts
  refine Reads.bind (P := fun _ k => k = c'.pos) ⟨⟨rfl, Nat.le_refl _⟩, rfl⟩
    fun _ c'' hl' hpos => ?_
  refine .pure fun p hp => ?_
  obtain rfl := List.mem_singleton.1 hp
  have hlt := c'.pos_lt
  rw [hl.tokens] at hlt
  exact hpos ▸ w.body (Nat.lt_trans hi ha) hab hb hlt

end

end Parse

end Typings
