import Typings.Proofs.Syntax.Refusal
import Typings.Proofs.Token.Printing

namespace Typings

open Parse

variable {n x : Node}

theorem ObjectProperty.beside_or_inner {p : ObjectProperty} (h : x ∈ p.nodes) :
    x ∈ p.beside ∨ x ∈ p.inner := by
  cases p with
  | value k e =>
    rcases List.mem_append.1 h with h | h
    · exact .inr (List.mem_append_left _ h)
    · cases hlevel : e.isLevel with
      | false => exact .inl (by simpa [ObjectProperty.beside, hlevel] using h)
      | true => exact .inr (by simp [ObjectProperty.inner, hlevel, List.mem_singleton.1 h])
  | getter k f | setter k f => exact (List.mem_append.1 h).symm
  | spread e => exact .inr h

theorem Expr.beside_or_inner_or_apart {e : Expr} (h : x ∈ e.nodes) :
    x ∈ e.beside ∨ x ∈ e.inner ∨ x ∈ (Node.expr e).apart := by
  cases e with
  | object ps s =>
    obtain ⟨p, hp, hx⟩ := List.mem_flatMap.1 h
    rcases p.beside_or_inner hx with hx | hx
    · exact .inl (List.mem_flatMap.2 ⟨p, hp, hx⟩)
    · exact .inr (.inl (List.mem_flatMap.2 ⟨p, hp, hx⟩))
  | template parts s => exact .inr (.inr h)
  | update op before e s =>
    cases before with
    | false => exact .inl h
    | true => exact .inr (.inl h)
  | _ =>
    simp only [Expr.nodes, Expr.beside, Expr.inner, Node.apart, List.mem_cons, List.not_mem_nil,
      or_false, false_or] at h ⊢ <;> tauto

theorem ClassDef.beside_or_inner {c : ClassDef} (h : x ∈ c.nodes) :
    x ∈ (Node.classOf c).beside ∨ x ∈ (Node.classOf c).inner := by
  rcases List.mem_append.1 h with h | h
  · exact .inl (List.mem_append_left _ h)
  · obtain ⟨m, hm, hx⟩ := List.mem_flatMap.1 h
    cases hkind : m.kind with
    | field init =>
      refine .inr (List.mem_flatMap.2 ⟨m, hm, ?_⟩)
      rwa [hkind] at hx ⊢
    | method f | getter f | setter f =>
      refine .inl (List.mem_append_right _ (List.mem_flatMap.2 ⟨m, hm, ?_⟩))
      rwa [hkind] at hx ⊢

/-- A statement that the tokens of a function body are. -/
def Node.InBody (x : Node) : Prop :=
  ∃ ts ss s, Statement.ofTokens ts = .ok ss ∧ s ∈ ss ∧ x = .statement s

theorem FunctionDef.inner_or_inBody {f : FunctionDef} (h : x ∈ f.nodes) :
    x ∈ (Node.function f).inner ∨ x.InBody := by
  rcases List.mem_append.1 h with h | h
  · exact .inl (List.mem_append_left _ h)
  · cases hbody : f.body with
    | block ts i =>
      rw [hbody] at h
      cases hss : Statement.ofTokens ts with
      | error e => simp [FunctionBody.nodes, hss, Except.toOption] at h
      | ok ss =>
        obtain ⟨s, hs, rfl⟩ : ∃ s ∈ ss, Node.statement s = x := by
          simpa [FunctionBody.nodes, hss, Except.toOption] using h
        exact .inr ⟨ts, ss, s, hss, hs, rfl⟩
    | concise e =>
      refine .inl (List.mem_append_right _ ?_)
      rwa [hbody] at h ⊢

theorem Statement.beside_or_inner {s : Statement} (h : x ∈ s.nodes) : x ∈ s.beside ∨ x ∈ s.inner := by
  cases s with
  | function f | classOf c => exact .inl h
  | _ => exact .inr h

theorem Node.InBody.nests (h : x.InBody) : x.Nests nestingLimit := by
  obtain ⟨ts, ss, s, hss, hs, rfl⟩ := h
  have hg : (Grammar.for ts).Restoring := Grammar.levels_restoring _
  have hread : Restores nestingLimit (fun ss => ∀ s ∈ ss, s.Nests nestingLimit)
      (loop [] (statementStep (Grammar.for ts))) := by
    refine restores_loop (I := fun ss => ∀ s ∈ ss, s.Nests nestingLimit) (fun acc hacc => ?_)
      (by simp)
    refine .get (fun c => ?_) fun _ _ _ _ => rfl
    split
    · exact .pure fun s hs => hacc s (List.mem_reverse.1 hs)
    · exact (Grammar.restores_statementOf hg).bind fun s hs =>
        .pure (List.forall_mem_cons.2 ⟨hs.nests, hacc⟩)
  exact hread.gives (c := Cursor.ofTokens ts) (Nat.zero_add _) hss s hs

theorem Node.Nests.child (h : n.Nests nestingLimit) (hx : x ∈ n.children) :
    x.Nests nestingLimit := by
  obtain ⟨hbeside, hinner, hapart⟩ := Node.nests_iff.1 h
  cases n with
  | expr e =>
    rcases e.beside_or_inner_or_apart hx with hx | hx | hx
    · exact hbeside x hx
    · exact (hinner x hx).nests
    · exact hapart x hx
  | function f =>
    rcases f.inner_or_inBody hx with hx | hx
    · exact (hinner x hx).nests
    · exact hx.nests
  | classOf c =>
    rcases c.beside_or_inner hx with hx | hx
    · exact hbeside x hx
    · exact (hinner x hx).nests
  | statement s =>
    rcases s.beside_or_inner hx with hx | hx
    · exact hbeside x hx
    · exact (hinner x hx).nests

theorem Grammar.ModuleRun.nests {g : Grammar} (hg : g.Restoring) {ts : List Lexeme} {c c' : Cursor}
    {items : List ModuleItem} {errors : List ParseError}
    (h : g.ModuleRun (Cursor.Fresh g ts) c items errors c') : ∀ i ∈ items, i.Nests nestingLimit := by
  induction h with
  | done => simp
  | item _ hc hitem _ ih =>
    have hi := (Grammar.restores_moduleItem hg).gives (b := nestingLimit)
      (by rw [hc.depth, Nat.zero_add]) (congrArg Prod.fst hitem)
    exact List.forall_mem_cons.2 ⟨hi, ih⟩
  | error _ _ _ _ _ ih => exact ih

theorem Module.Has.nests {ts : List Lexeme} {m : Module} (h : Module.ofTokens ts = .ok m)
    (hn : m.Has n) : n.Nests nestingLimit := by
  obtain ⟨items, errors, c', hrun, hmodule⟩ := wholeModule_run ts
  have hitems : m.items = items := by
    rw [Module.ofTokens, hrun] at h
    cases errors with
    | nil =>
      cases h
      rfl
    | cons e errors => cases h
  induction hn with
  | item hi hn => exact hmodule.nests (Grammar.levels_restoring _) _ (hitems ▸ hi) _ hn
  | child _ hx ih => exact ih.child hx

/-- What nests `k` levels deep at one depth is too deep where fewer may be opened. -/
theorem Restores.tooDeep {α : Type} {node : α → Node} {y : Parse α}
    (hy : ∀ b, Restores b (fun a => (node a).NestsBelow b) y) {j k : Nat} {c d : Cursor} {a : α}
    (hcd : c.Deepens j d) (hc : c.depth ≤ nestingLimit) (hd : (y d).1 = .ok a)
    (hp : (node a).Path k n) (hk : nestingLimit ≤ c.depth + k) :
    ∃ e, (y c).1 = .error e ∧ e.TooDeep := by
  have hbudget : c.depth + (nestingLimit - c.depth) = nestingLimit := by omega
  have hgives := (hy (nestingLimit - c.depth)).gives (c := c) (a := a) hbudget
  have hagrees := (hy (nestingLimit - c.depth)).agrees hbudget hcd
  rcases hout : y c with ⟨r, c'⟩
  rcases hout' : y d with ⟨r', d'⟩
  rw [hout, hout'] at hagrees
  rw [hout] at hgives
  rw [hout'] at hd
  cases hagrees with
  | same =>
    obtain ⟨i, hi, hn⟩ := hgives hd
    have hle := hn.path hp
    omega
  | @tooDeep e _ _ _ he => exact ⟨e, rfl, he⟩

/--
No path through a module that was read from a text goes down more levels than the limit allows, and a
text that begins with more openings in a row than the limit allows is refused because of it whatever
follows. Inside a text, an expression or a statement that goes down `k` levels where it can be read
is refused because of the limit wherever no more than `k` are left.
-/
theorem nesting_bounded (source : String) :
    (∀ {m : Module}, Module.ofSource source = .ok m →
      ∀ {n n' : Node} {k : Nat}, m.Has n → n.Path k n' → k ≤ nestingLimit) ∧
    (∀ {us : List Lexeme} {i : Nat} {os rest : List Token}, Token.scan source = .ok us →
      us.map (·.1) = List.replicate i (.punct .leftBrace) ++ os ++ rest →
      (∀ t ∈ os, t.opensOperand = true) → nestingLimit < i + os.length →
      ∃ err : ParseError, err.TooDeep ∧ Module.ofSource source = .error (err.report source)) ∧
    ∀ (i : Nat) {j k : Nat} {c d : Cursor} {n' : Node}, c.Deepens j d → c.depth ≤ nestingLimit →
      nestingLimit ≤ c.depth + k →
      (∀ {e : Expr}, (Grammar.expressionOf (Grammar.levels i) d).1 = .ok e →
        (Node.expr e).Path k n' →
        ∃ err, (Grammar.expressionOf (Grammar.levels i) c).1 = .error err ∧ err.TooDeep) ∧
      ∀ {s : Statement}, (Grammar.statementOf (Grammar.levels i) d).1 = .ok s →
        (Node.statement s).Path k n' →
        ∃ err, (Grammar.statementOf (Grammar.levels i) c).1 = .error err ∧ err.TooDeep := by
  refine ⟨fun h _ _ _ hn hp => ?_, Module.ofSource_tooDeep,
    fun i j k c d n' hcd hc hk => ⟨fun he hp => ?_, fun hs hp => ?_⟩⟩
  · obtain ⟨ts, _, hm⟩ := Module.scans_of_ofSource h
    exact (hn.nests hm).path hp
  · exact Restores.tooDeep (fun b => Grammar.restores_expressionOf (Grammar.levels_restoring i))
      hcd hc he hp hk
  · exact Restores.tooDeep (fun b => Grammar.restores_statementOf (Grammar.levels_restoring i))
      hcd hc hs hp hk

/--
The operand of a statement is two levels down, and refused where two are left; a brace and 96
operators are too many.
-/
theorem nesting_bounded_operands :
    (∃ m n n', Module.ofSource "!a" = .ok m ∧ m.Has n ∧ n.Path 2 n' ∧ 2 ≤ nestingLimit) ∧
    (∃ (c d : Cursor) (s : Statement) (n' : Node), c.Deepens 94 d ∧
      (Grammar.statementOf (Grammar.levels 4) d).1 = .ok s ∧ (Node.statement s).Path 2 n' ∧
      ∃ err, (Grammar.statementOf (Grammar.levels 4) c).1 = .error err ∧ err.TooDeep) ∧
    ∃ (source : String) (us : List Lexeme), Token.scan source = .ok us ∧
      us.map (·.1) = List.replicate 1 (.punct .leftBrace) ++ List.replicate 96 (.punct .bang) ++ [.eof] ∧
      ∃ err : ParseError, err.TooDeep ∧ Module.ofSource source = .error (err.report source) := by
  have hm : Module.ofSource "!a" = .ok ⟨[.statement (.expression (.unary .not
      (.identifier "a" ⟨1, 2, 1, 2⟩) ⟨0, 2, 1, 1⟩) ⟨0, 2, 1, 1⟩)], ⟨0, 2, 1, 1⟩⟩ := by
    have hscan : Token.scan "!a" = .ok [(.punct .bang, ⟨0, 1, 1, 1⟩),
        (.identifier "a", ⟨1, 2, 1, 2⟩), (.eof, ⟨2, 2, 1, 3⟩)] :=
      Token.scan_of_scansTo (by decide +kernel)
    rw [Module.ofSource, hscan]
    rfl
  have hp : ∀ (e : Expr) (s₁ s₂ : Span),
      (Node.statement (.expression (.unary .not e s₁) s₂)).Path 2 (.expr e) := by
    intro e s₁ s₂
    refine .inner (x := .expr (.unary .not e s₁)) List.mem_cons_self ?_
    exact .inner List.mem_cons_self (.refl _)
  have hn : ∀ st s, Module.Has ⟨[.statement st], s⟩ (.statement st) :=
    fun _ _ => .item List.mem_cons_self List.mem_cons_self
  refine ⟨⟨_, _, _, hm, hn _ _, hp _ _ _, (nesting_bounded _).1 hm (hn _ _) (hp _ _ _)⟩, ?_, ?_⟩
  · let d := Cursor.ofTokens [(.punct .bang, ⟨0, 1, 1, 1⟩), (.identifier "a", ⟨1, 2, 1, 2⟩)]
    let c : Cursor := { d with depth := 94 }
    have hcd : c.Deepens 94 d := ⟨⟨rfl, rfl⟩, rfl⟩
    have hs : (Grammar.statementOf (Grammar.levels 4) d).1 = .ok (.expression (.unary .not
        (.identifier "a" ⟨1, 2, 1, 2⟩) ⟨0, 2, 1, 1⟩) ⟨0, 2, 1, 1⟩) := rfl
    exact ⟨c, d, _, _, hcd, hs, hp _ _ _,
      ((nesting_bounded "!a").2.2 4 hcd (by decide) (by decide)).2 hs (hp _ _ _)⟩
  · have hspelled : ∀ t ∈ List.replicate 1 (.punct .leftBrace) ++ List.replicate 96 (.punct .bang),
        Token.isSpelled t = true := by decide
    obtain ⟨us, hscans, hus⟩ := Scan.scans_print hspelled (Mark.origin 0)
    have hscan := Token.scan_eq_ok.2 hscans
    exact ⟨_, us, hscan, hus, (nesting_bounded _).2.1 hscan hus (by decide) (by decide)⟩

end Typings
