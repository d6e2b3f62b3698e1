import Typings.Proofs.Outcome
import Typings.Syntax.Statement

namespace Typings

theorem Token.weight_pos (t : Token) : 0 < t.weight := by
  cases t with
  | template parts =>
    simp only [Token.weight]
    omega
  | _ => exact Nat.one_pos

namespace Lexeme

theorem weights_append (ts us : List Lexeme) : weights (ts ++ us) = weights ts + weights us := by
  induction ts with
  | nil => simp [weights]
  | cons t ts ih =>
    simp only [List.cons_append, weights, ih]
    omega

theorem length_le_weights (ts : List Lexeme) : ts.length ≤ weights ts := by
  induction ts with
  | nil => exact Nat.le_refl _
  | cons t ts ih =>
    have := t.1.weight_pos
    simp only [List.length_cons, weights]
    omega

theorem weights_drop_add_le {ts : List Lexeme} {d : Nat} (h : d ≤ ts.length) :
    weights (ts.drop d) + d ≤ weights ts := by
  have hsplit := weights_append (ts.take d) (ts.drop d)
  have hlength := length_le_weights (ts.take d)
  rw [List.take_append_drop] at hsplit
  rw [List.length_take] at hlength
  omega

theorem weights_terminated (ts : List Lexeme) :
    weights (Cursor.terminated ts) ≤ weights ts + 1 := by
  unfold Cursor.terminated
  split
  · omega
  · simp [weights_append, weights, Token.weight]
  · simp [weights, Token.weight]

end Lexeme

namespace Cursor

variable {c c' c'' : Cursor} {n : Nat}

theorem exists_terminated_eq (ts : List Lexeme) :
    ∃ added, terminated ts = ts ++ added ∧ added.length ≤ 1 := by
  unfold terminated
  split
  · exact ⟨[], (List.append_nil ts).symm, Nat.zero_le _⟩
  · exact ⟨_, rfl, Nat.le_refl _⟩
  · next hnone =>
    exact ⟨_, by rw [List.getLast?_eq_none_iff.1 hnone, List.nil_append], Nat.le_refl _⟩

/-- How many tokens are left, those of substitutions included. -/
def rest (c : Cursor) : Nat := Lexeme.weights (c.tokens.toList.drop c.pos)

/-- The same tokens, at the same position or further on. -/
structure Leads (c c' : Cursor) : Prop where
  tokens : c'.tokens = c.tokens
  pos_le : c.pos ≤ c'.pos

theorem Leads.refl : c.Leads c := ⟨rfl, Nat.le_refl _⟩

theorem Leads.trans (h : c.Leads c') (h' : c'.Leads c'') : c.Leads c'' :=
  ⟨h'.tokens.trans h.tokens, Nat.le_trans h.pos_le h'.pos_le⟩

theorem Leads.token_eq (h : c.Leads c') (hpos : c.pos = c'.pos) : c'.token = c.token := by
  obtain ⟨tokens, pos, depth, deepest, bodies, pos_lt, isEof_last⟩ := c
  obtain ⟨tokens', pos', depth', deepest', bodies', pos_lt', isEof_last'⟩ := c'
  obtain rfl : tokens' = tokens := h.tokens
  obtain rfl : pos = pos' := hpos
  rfl

theorem rest_eq (c : Cursor) :
    c.rest = c.token.weight + Lexeme.weights (c.tokens.toList.drop (c.pos + 1)) := by
  have hpos : c.pos < c.tokens.toList.length := c.pos_lt
  rw [rest, List.drop_eq_getElem_cons hpos]
  simp only [Lexeme.weights, Array.getElem_toList]
  rfl

theorem rest_pos (c : Cursor) : 0 < c.rest := by
  have := c.token.weight_pos
  rw [rest_eq]
  omega

theorem Leads.rest_add_le (h : c.Leads c') : c'.rest + (c'.pos - c.pos) ≤ c.rest := by
  have hlt := c'.pos_lt
  have hdrop :
      c.tokens.toList.drop c'.pos = (c.tokens.toList.drop c.pos).drop (c'.pos - c.pos) := by
    rw [List.drop_drop, Nat.add_sub_cancel' h.pos_le]
  rw [rest, rest, h.tokens, hdrop]
  rw [h.tokens] at hlt
  refine Lexeme.weights_drop_add_le ?_
  simp only [List.length_drop, Array.length_toList]
  omega

theorem Leads.rest_le (h : c.Leads c') (hc : c.rest ≤ n) : c'.rest ≤ n := by
  have := h.rest_add_le
  omega

theorem Leads.remaining_lt (h : c.Leads c') (hpos : c.pos < c'.pos) :
    c'.remaining < c.remaining := by
  have hlt := c'.pos_lt
  rw [h.tokens] at hlt
  rw [remaining, remaining, h.tokens]
  omega

theorem succ_pos_lt (h : c.token.isEof = false) : c.pos + 1 < c.tokens.size := by
  have hlt := c.pos_lt
  rcases Nat.lt_or_ge (c.pos + 1) c.tokens.size with hpos | hpos
  · exact hpos
  · have hlast : c.tokens.back? = some c.lexeme := by
      have : c.tokens.size - 1 = c.pos := by omega
      rw [Array.back?, this, Array.getElem?_eq_getElem hlt]
      rfl
    have heof := c.isEof_last c.lexeme hlast
    rw [token] at h
    simp [h] at heof

theorem leads_step (c : Cursor) : c.Leads c.step := by
  unfold step
  split
  · exact ⟨rfl, Nat.le_succ _⟩
  · exact .refl

theorem depth_step (c : Cursor) : c.step.depth = c.depth := by
  unfold step
  split <;> rfl

theorem lt_pos_step (h : c.token.isEof = false) : c.pos < c.step.pos := by
  rw [step, dif_pos (succ_pos_lt h)]
  exact Nat.lt_succ_self _

theorem leads_moveTo {i : Nat} (h : c.pos ≤ i) : c.Leads (c.moveTo i) := by
  have := c.pos_lt
  refine ⟨rfl, ?_⟩
  change c.pos ≤ min i (c.tokens.size - 1)
  omega

theorem rest_ofTokens (ts : List Lexeme) : (ofTokens ts).rest ≤ Lexeme.weights ts + 1 :=
  Lexeme.weights_terminated ts

theorem le_closing (opening closer : Punct) :
    ∀ fuel i opened, (∀ j, c.closing opening closer fuel i opened = .ok j →
        i ≤ j ∧ j + 1 < c.tokens.size) ∧
      ∀ j, c.closing opening closer fuel i opened = .error j → i ≤ j := by
  intro fuel
  induction fuel with
  | zero =>
    intro i opened
    simp [closing]
  | succ fuel ih =>
    intro i opened
    have hnext : ∀ opened, (∀ j, c.closing opening closer fuel (i + 1) opened = .ok j →
          i ≤ j ∧ j + 1 < c.tokens.size) ∧
        ∀ j, c.closing opening closer fuel (i + 1) opened = .error j → i ≤ j :=
      fun opened => ⟨fun j hj => ((ih (i + 1) opened).1 j hj).imp_left Nat.le_of_succ_le,
        fun j hj => Nat.le_of_succ_le ((ih (i + 1) opened).2 j hj)⟩
    simp only [closing]
    split
    · simp
    rename_i hend
    split
    · exact hnext _
    split
    · split
      · have hlt : min i (c.tokens.size - 1) + 1 < c.tokens.size :=
          succ_pos_lt (c := c.moveTo i) (Bool.not_eq_true _ ▸ hend)
        refine ⟨fun j hj => ?_, nofun⟩
        cases hj
        omega
      · exact hnext _
    · exact hnext _

end Cursor

variable {α β σ : Type} {c c' : Cursor} {n : Nat} {P Q : α → Nat → Prop} {R : β → Nat → Prop}
variable {x : Parse α} {f : α → Parse β}

/-- How a reading may end that starts at `c`. `Q` says where its result may leave it. -/
structure Reads (c : Cursor) (Q : α → Nat → Prop) (x : Parse α) : Prop where
  leads : c.Leads (x c).2
  ends : Ends (Q · (x c).2.pos) (·.fault ≠ .exhausted) (x c).1

namespace Reads

theorem pure {a : α} (h : Q a c.pos) : Reads c Q (Pure.pure a) := ⟨.refl, h⟩

theorem error {e : ParseError} (h : e.fault ≠ .exhausted) : Reads c Q (throw e) := ⟨.refl, h⟩

theorem mono (h : Reads c P x) (hPQ : ∀ a k, c.pos ≤ k → P a k → Q a k) : Reads c Q x :=
  ⟨h.leads, h.ends.mono (fun a => hPQ a _ h.leads.pos_le) fun _ => id⟩

theorem bind (hx : Reads c P x) (hf : ∀ a c', c.Leads c' → P a c'.pos → Reads c' R (f a)) :
    Reads c R (x >>= f) := by
  obtain ⟨hleads, hends⟩ := hx
  rcases hout : x c with ⟨e | a, c'⟩
  · rw [hout] at hleads hends
    constructor
    · rwa [bind_error hout]
    · rwa [bind_error hout]
  · rw [hout] at hleads hends
    have h := hf a c' hleads hends
    constructor
    · rw [bind_ok hout]
      exact hleads.trans h.leads
    · rw [bind_ok hout]
      exact h.ends

theorem map {g : α → β} (hx : Reads c P x) (hg : ∀ a k, P a k → R (g a) k) :
    Reads c R (g <$> x) := by
  rw [map_eq_pure_bind]
  exact hx.bind fun a _ _ ha => .pure (hg a _ ha)

theorem get {f : Cursor → Parse α} (h : Reads c Q (f c)) : Reads c Q (MonadState.get >>= f) :=
  ⟨h.leads, h.ends⟩

theorem current {f : Token → Parse α} (h : Reads c Q (f c.token)) :
    Reads c Q (Parse.current >>= f) :=
  ⟨h.leads, h.ends⟩

theorem here {f : Span → Parse α} (h : Reads c Q (f c.span)) : Reads c Q (Parse.here >>= f) :=
  ⟨h.leads, h.ends⟩

theorem atPunct {p : Punct} {f : Bool → Parse α} (h : Reads c Q (f (c.token.isPunct p))) :
    Reads c Q (Parse.atPunct p >>= f) :=
  ⟨h.leads, h.ends⟩

theorem atKeyword {k : Keyword} {f : Bool → Parse α} (h : Reads c Q (f (c.token.isWord k))) :
    Reads c Q (Parse.atKeyword k >>= f) :=
  ⟨h.leads, h.ends⟩

theorem set {f : PUnit → Parse α} (hl : c.Leads c') (h : Reads c' Q (f ⟨⟩)) :
    Reads c Q (MonadState.set c' >>= f) :=
  ⟨hl.trans h.leads, h.ends⟩

theorem tryCatch {handler : ParseError → Parse α} (hx : Reads c Q x)
    (hhandler : ∀ e c', c.Leads c' → e.fault ≠ .exhausted → Reads c' Q (handler e)) :
    Reads c Q (MonadExcept.tryCatch x handler) := by
  obtain ⟨hleads, hends⟩ := hx
  rcases hout : x c with ⟨e | a, c'⟩
  · rw [hout] at hleads hends
    have h := hhandler e c' hleads hends
    constructor
    · rw [tryCatch_error hout]
      exact hleads.trans h.leads
    · rw [tryCatch_error hout]
      exact h.ends
  · rw [hout] at hleads hends
    constructor
    · rwa [tryCatch_ok hout]
    · rwa [tryCatch_ok hout]

theorem invalid (reason : String) (span : Span) : Reads c Q (Parse.invalid reason span) :=
  .error (by simp)

theorem unexpected (expected : List Token) : Reads c Q (Parse.unexpected expected) := by
  refine .get (.error ?_)
  dsimp only
  split <;> simp

theorem advance (h : c.token.isEof = false) : Reads c (fun _ k => c.pos < k) Parse.advance :=
  ⟨c.leads_step, Cursor.lt_pos_step h⟩

end Reads

theorem Token.isEof_of_isPunct {t : Token} {p : Punct} (h : t.isPunct p = true) :
    t.isEof = false := by
  cases t <;> simp_all [Token.isPunct, Token.isEof]

theorem Token.isPunct_of_ne {t : Token} {p q : Punct} (h : t.isPunct p = true) (hne : p ≠ q) :
    t.isPunct q = false := by
  cases t with
  | punct r =>
    obtain rfl : r = p := by simpa [Token.isPunct] using h
    simpa [Token.isPunct] using hne
  | _ => rfl

theorem Token.isEof_of_isWord {t : Token} {k : Keyword} (h : t.isWord k = true) :
    t.isEof = false := by
  cases t <;> simp_all [Token.isWord, Token.isEof]

theorem Token.isEof_of_eq_some {t : Token} {g : Token → Option α} {a : α} (h : g t = some a)
    (hg : g .eof = none) : t.isEof = false := by
  cases t with
  | eof => simp [hg] at h
  | _ => rfl

theorem Reads.eat {p : Punct} {f : Bool → Parse α}
    (htrue : ∀ c', c.Leads c' → c.pos < c'.pos → Reads c' Q (f true))
    (hfalse : Reads c Q (f false)) :
    Reads c Q (Parse.eat p >>= f) := by
  unfold Parse.eat
  simp only [bind_assoc]
  refine .atPunct ?_
  split
  · rename_i hp
    simp only [bind_assoc, pure_bind]
    exact (Reads.advance (Token.isEof_of_isPunct hp)).bind fun _ c' hl hpos => htrue c' hl hpos
  · exact hfalse

theorem Reads.name? {f : Option String → Parse α}
    (hsome : ∀ name c', c.Leads c' → c.pos < c'.pos → Reads c' Q (f (some name)))
    (hnone : Reads c Q (f none)) : Reads c Q (Parse.name? >>= f) := by
  unfold Parse.name?
  simp only [bind_assoc]
  refine .current ?_
  split
  · rename_i name h
    simp only [bind_assoc, pure_bind]
    exact (Reads.advance (by rw [h]; rfl)).bind fun _ c' hl hpos => hsome name c' hl hpos
  · exact hnone

namespace Parse

/-- With at most `n` tokens left, a reading is within its bounds. -/
def Within (n : Nat) (x : Parse α) : Prop := ∀ ⦃c⦄, c.rest ≤ n → Reads c (fun _ _ => True) x

/-- With at most `n` tokens left, a reading is within its bounds and passes a token. -/
def Passes (n : Nat) (x : Parse α) : Prop := ∀ ⦃c⦄, c.rest ≤ n → Reads c (fun _ k => c.pos < k) x

end Parse

theorem Reads.passing (hx : Reads c (fun _ k => c.pos < k) x) (hc : c.rest ≤ n)
    (hf : ∀ a, Parse.Within (n - 1) (f a)) : Reads c (fun _ k => c.pos < k) (x >>= f) :=
  hx.bind fun a c' hl hpos => by
    have hrest := hl.rest_add_le
    have hc' : c'.rest ≤ n - 1 := by omega
    exact (hf a hc').mono fun _ _ hle _ => Nat.lt_of_lt_of_le hpos hle

theorem Reads.past {t : Token} {f : PUnit → Parse β} (ht : c.token = t) (hc : c.rest ≤ n)
    (heof : t.isEof = false) (hf : Parse.Within (n - 1) (f ⟨⟩)) :
    Reads c (fun _ k => c.pos < k) (Parse.advance >>= f) :=
  (Reads.advance (ht ▸ heof)).passing hc fun _ => hf

namespace Parse

theorem Passes.within (h : Passes n x) : Within n x :=
  fun _ hc => (h hc).mono fun _ _ _ _ => trivial

theorem Within.sub_one (h : Within n x) : Within (n - 1) x :=
  fun _ hc => h (Nat.le_trans hc (Nat.sub_le ..))

theorem Within.pure {a : α} : Within n (Pure.pure a : Parse α) := fun _ _ => .pure trivial

theorem Within.bind (hx : Within n x) (hf : ∀ a, Within n (f a)) : Within n (x >>= f) :=
  fun _ hc => (hx hc).bind fun a _ hl _ => hf a (hl.rest_le hc)

theorem Within.invalid_bind (reason : String) (span : Span) :
    Within n (Parse.invalid reason span >>= f) :=
  fun _ _ => (Reads.invalid (Q := fun _ _ => False) ..).bind fun _ _ _ h => h.elim

theorem Within.unexpected_bind (expected : List Token) :
    Within n (Parse.unexpected expected >>= f) :=
  fun _ _ => (Reads.unexpected (Q := fun _ _ => False) _).bind fun _ _ _ h => h.elim

theorem Within.map {g : α → β} (hx : Within n x) : Within n (g <$> x) :=
  fun _ hc => (hx hc).map fun _ _ => id

theorem within_get : Within n (MonadState.get : Parse Cursor) := fun _ _ => ⟨.refl, trivial⟩

theorem Within.get {f : Cursor → Parse α} (hf : ∀ c, Within n (f c)) :
    Within n (MonadState.get >>= f) :=
  fun c hc => .get (hf c hc)

theorem Passes.bind (hx : Passes n x) (hf : ∀ a, Within (n - 1) (f a)) : Passes n (x >>= f) :=
  fun _ hc => (hx hc).passing hc hf

theorem Passes.andThen (hx : Passes n x) (hf : ∀ a, Within n (f a)) : Passes n (x >>= f) :=
  hx.bind fun a => (hf a).sub_one

theorem Within.bind_passes (hx : Within n x) (hf : ∀ a, Passes n (f a)) : Passes n (x >>= f) :=
  fun _ hc => (hx hc).bind fun a _ hl _ =>
    (hf a (hl.rest_le hc)).mono fun _ _ _ hlt => Nat.lt_of_le_of_lt hl.pos_le hlt

theorem Passes.map {g : α → β} (hx : Passes n x) : Passes n (g <$> x) :=
  fun _ hc => (hx hc).map fun _ _ => id

theorem within_current : Within n current := fun _ _ => .current (.pure trivial)

theorem within_here : Within n here := fun _ _ => .get (.pure trivial)

theorem within_previous : Within n previous := fun _ _ => .get (.pure trivial)

theorem within_atPunct (p : Punct) : Within n (atPunct p) := fun _ _ => .get (.pure trivial)

theorem within_atKeyword (k : Keyword) : Within n (atKeyword k) := fun _ _ => .get (.pure trivial)

theorem within_atName (name : String) : Within n (atName name) := fun _ _ => .get (.pure trivial)

theorem within_unexpected (expected : List Token) : Within n (unexpected expected : Parse α) :=
  fun _ _ => .unexpected ..

theorem within_advance : Within n advance := fun c _ => ⟨c.leads_step, trivial⟩

theorem within_eat (p : Punct) : Within n (eat p) := by
  refine (within_atPunct p).bind fun b => ?_
  split
  · exact within_advance.bind fun _ => .pure
  · exact .pure

theorem within_eatKeyword (k : Keyword) : Within n (eatKeyword k) := by
  refine (within_atKeyword k).bind fun b => ?_
  split
  · exact within_advance.bind fun _ => .pure
  · exact .pure

theorem passes_expect (p : Punct) : Passes n (expect p) := by
  intro c _
  refine .eat (fun c' _ hpos => .pure hpos) ?_
  exact .unexpected _

theorem passes_expectKeyword (k : Keyword) : Passes n (expectKeyword k) := by
  intro c _
  unfold expectKeyword eatKeyword
  simp only [bind_assoc]
  refine .atKeyword ?_
  split
  · rename_i hk
    simp only [bind_assoc, pure_bind]
    exact (Reads.advance (Token.isEof_of_isWord hk)).bind fun _ c' _ hpos => .pure hpos
  · exact .unexpected _

theorem passes_name : Passes n name := by
  refine fun c hc => .current ?_
  split
  · rename_i h
    exact .past h hc rfl .pure
  · exact .unexpected _

theorem within_name? : Within n name? := by
  refine within_current.bind fun t => ?_
  split
  · exact within_advance.bind fun _ => .pure
  · exact .pure

theorem passes_propertyName : Passes n propertyName := by
  refine fun c hc => .current ?_
  split
  · rename_i h
    exact .past h hc rfl .pure
  · rename_i h
    exact .past h hc rfl .pure
  · rename_i h
    exact .past h hc rfl (passes_name.within.bind fun _ => .pure)
  · exact .unexpected _

theorem within_semicolon : Within n semicolon := by
  refine (within_eat _).bind fun b => ?_
  split
  · exact .pure
  · refine .get fun c => ?_
    split
    · exact .pure
    · exact fun _ _ => .error (by simp)

theorem within_comma (closer : Punct) : Within n (comma closer) := by
  refine (within_atPunct closer).bind fun b => ?_
  split
  · exact .pure
  · exact (passes_expect _).within

end Parse

theorem Reads.nested (h : Reads c.deeper Q x) :
    Reads c Q (Parse.nested x) := by
  by_cases hlimit : nestingLimit ≤ c.depth
  · constructor
    · rw [Parse.nested, if_pos hlimit]
      exact .refl
    · rw [Parse.nested, if_pos hlimit]
      exact ParseFault.noConfusion
  · constructor
    · rw [Parse.nested, if_neg hlimit]
      exact ⟨h.leads.tokens, h.leads.pos_le⟩
    · rw [Parse.nested, if_neg hlimit]
      exact h.ends

namespace Parse

/-- A group in braces is passed whole, and gives tokens from behind its first. -/
theorem braces_reads (c : Cursor) :
    Reads c (fun ts k => ∃ i j, c.pos < i ∧ i ≤ j ∧ j ≤ k ∧ ts = (c.tokens.extract i j).toList)
      braces := by
  refine .here ((passes_expect _ (Nat.le_refl _)).bind fun _ c' hl hpos => .get ?_)
  have hforward := Cursor.le_closing (c := c') .leftBrace .rightBrace c'.tokens.size c'.pos 1
  split
  · rename_i j hj
    obtain ⟨hle, hlt⟩ := hforward.1 j hj
    refine .set (Cursor.leads_moveTo (Nat.le_succ_of_le hle)) (.pure ⟨c'.pos, j, hpos, hle, ?_, ?_⟩)
    · change j ≤ min (j + 1) (c'.tokens.size - 1)
      omega
    · rw [hl.tokens]
  · rename_i j hj
    exact .set (Cursor.leads_moveTo (hforward.2 j hj)) (.error (by simp))

theorem passes_braces : Passes n braces := fun c _ =>
  (braces_reads c).mono fun _ _ _ ⟨_, _, hi, hj, hk, _⟩ =>
    Nat.lt_of_lt_of_le hi (Nat.le_trans hj hk)

theorem within_skipGroup : Within n skipGroup := by
  refine fun c hc => .get ?_
  split
  · exact .unexpected _
  · rename_i opening closer _
    have hforward := Cursor.le_closing (c := c) opening closer c.tokens.size c.pos 0
    split
    · rename_i i hi
      exact ⟨Cursor.leads_moveTo (Nat.le_succ_of_le (hforward.1 i hi).1), trivial⟩
    · rename_i i hi
      exact .set (Cursor.leads_moveTo (hforward.2 i hi)) (.error (by simp))

/-- A loop keeps what its steps keep, and has gone on at most as often as there were tokens. -/
theorem repeated_reads {first : Cursor} {step : σ → Parse (σ ⊕ β)} {I : σ → Nat → Prop}
    (hstep : ∀ a c, first.Leads c → c.rest ≤ n → I a c.pos →
      Reads c (fun r k => r.elim (fun a' => c.pos < k ∧ I a' k) (R · k)) (step a)) :
    ∀ fuel a c, first.Leads c → c.remaining < fuel → c.rest ≤ n → I a c.pos →
      Reads c R (repeated step fuel a) := by
  intro fuel
  induction fuel with
  | zero =>
    intro a c _ hfuel
    omega
  | succ fuel ih =>
    intro a c hfirst hfuel hc ha
    refine (hstep a c hfirst hc ha).bind fun r c' hl hr => ?_
    cases r with
    | inr b => exact .pure hr
    | inl a' =>
      obtain ⟨hpos, ha'⟩ := hr
      exact ih a' c' (hfirst.trans hl) (by have := hl.remaining_lt hpos; omega) (hl.rest_le hc) ha'

theorem loop_reads {step : σ → Parse (σ ⊕ β)} {I : σ → Nat → Prop} {init : σ}
    (hstep : ∀ a c', c.Leads c' → c'.rest ≤ n → I a c'.pos →
      Reads c' (fun r k => r.elim (fun a' => c'.pos < k ∧ I a' k) (R · k)) (step a))
    (hc : c.rest ≤ n) (hinit : I init c.pos) : Reads c R (loop init step) :=
  .get (repeated_reads hstep _ _ _ .refl (Nat.lt_succ_self _) hc hinit)

theorem within_itemsUntil {item : Parse α} (h : Passes n item) (closer : Punct) :
    Within n (itemsUntil closer item) := by
  refine Within.bind (fun c hc => ?_) fun _ => (passes_expect closer).within.bind fun _ => .pure
  refine loop_reads (I := fun _ _ => True) (fun acc c' _ hc' _ => .atPunct ?_) hc trivial
  split
  · exact .pure trivial
  · exact (h hc').bind fun a _ _ hpos => .pure ⟨hpos, trivial⟩

end Parse

end Typings
