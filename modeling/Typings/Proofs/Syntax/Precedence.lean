import Mathlib.Data.List.Induction
import Typings.Proofs.Syntax.Uncounted

namespace Typings

open Parse

namespace InfixOp

variable {op o : InfixOp} {t : Token}

/-- The token that the operator is written as. -/
def token : InfixOp → Token
  | logical .nullish => .punct .questionQuestion
  | logical .or => .punct .pipePipe
  | logical .and => .punct .ampAmp
  | binary .bitOr => .punct .pipe
  | binary .bitXor => .punct .caret
  | binary .bitAnd => .punct .amp
  | binary .equal => .punct .equalEqual
  | binary .notEqual => .punct .bangEqual
  | binary .strictEqual => .punct .equalEqualEqual
  | binary .strictNotEqual => .punct .bangEqualEqual
  | binary .less => .punct .less
  | binary .lessEqual => .punct .lessEqual
  | binary .greater => .punct .greater
  | binary .greaterEqual => .punct .greaterEqual
  | binary .instanceOf => .keyword .kwInstanceof
  | binary .isIn => .keyword .kwIn
  | binary .shiftLeft => .punct .lessLess
  | binary .shiftRight => .punct .greaterGreater
  | binary .unsignedShiftRight => .punct .greaterGreaterGreater
  | binary .add => .punct .plus
  | binary .subtract => .punct .minus
  | binary .multiply => .punct .star
  | binary .divide => .punct .slash
  | binary .modulo => .punct .percent
  | binary .exponent => .punct .starStar

@[simp] theorem ofToken?_token (op : InfixOp) : ofToken? op.token = some op := by
  rcases op with op | op
  · cases op <;> rfl
  · cases op <;> rfl

theorem ofToken?_eq_some_iff : ofToken? t = some op ↔ t = op.token := by
  constructor
  · intro h
    unfold ofToken? at h
    split at h
    · split at h <;> cases h <;> rfl
    · cases h
      rfl
    · cases h
      rfl
    · cases h
  · rintro rfl
    exact ofToken?_token op

theorem isRightAssociative_iff : op.isRightAssociative = true ↔ 14 ≤ op.precedence := by
  rcases op with op | op
  · cases op <;> decide
  · cases op <;> decide

theorem precedence_le (op : InfixOp) : op.precedence ≤ 14 := by
  rcases op with op | op
  · cases op <;> decide
  · cases op <;> decide

theorem precedence_pos (op : InfixOp) : 0 < op.precedence := by
  rcases op with op | op
  · cases op <;> decide
  · cases op <;> decide

/-- The least precedence of an operator in the left operand: its own, but more for `**`. -/
def leftBound (op : InfixOp) : Nat :=
  if op.isRightAssociative then op.precedence + 1 else op.precedence

/-- The least precedence of an operator in the right operand: more, but its own for `**`. -/
def rightBound (op : InfixOp) : Nat :=
  if op.isRightAssociative then op.precedence else op.precedence + 1

theorem precedence_le_leftBound (op : InfixOp) : op.precedence ≤ op.leftBound := by
  unfold leftBound
  split
  · exact Nat.le_succ _
  · exact Nat.le_refl _

theorem precedence_le_rightBound (op : InfixOp) : op.precedence ≤ op.rightBound := by
  unfold rightBound
  split
  · exact Nat.le_refl _
  · exact Nat.le_succ _

theorem leftBound_le_iff : op.leftBound ≤ o.precedence ↔ op.precedence < o.rightBound := by
  have hop := op.precedence_le
  have ho := o.precedence_le
  unfold leftBound rightBound
  simp only [isRightAssociative_iff]
  split
  · split
    · omega
    · omega
  · split
    · omega
    · omega

end InfixOp

/-- A name or number. -/
def Token.isOperand : Token → Bool
  | identifier _ | number _ => true
  | _ => false

theorem Token.isOperand_iff {t : Token} :
    t.isOperand = true ↔ (∃ n, t = .identifier n) ∨ ∃ x, t = .number x := by
  cases t <;> simp [isOperand]

/-- Operands with operators between them. -/
inductive InfixTree
  | operand (t : Token)
  | node (op : InfixOp) (left right : InfixTree)

namespace InfixTree

variable {tree : InfixTree} {op : InfixOp} {n : Nat}

def op? : InfixTree → Option InfixOp
  | operand _ => none
  | node op _ _ => some op

/-- The tokens of the tree from left to right. -/
def inorder : InfixTree → List Token
  | operand t => [t]
  | node op left right => left.inorder ++ op.token :: right.inorder

/-- The operator of the tree, if there is one, has a precedence of `n` or more. -/
def AtLeast (n : Nat) (tree : InfixTree) : Prop := ∀ op ∈ tree.op?, n ≤ op.precedence

/-- Operands bind tighter than the operators they are operands of, or group as they should. -/
def Grouped : InfixTree → Prop
  | operand _ => True
  | node op left right =>
    left.AtLeast op.leftBound ∧ right.AtLeast op.rightBound ∧ left.Grouped ∧ right.Grouped

instance (n : Nat) (tree : InfixTree) : Decidable (tree.AtLeast n) :=
  inferInstanceAs (Decidable (∀ op ∈ tree.op?, n ≤ op.precedence))

instance decidableGrouped : (tree : InfixTree) → Decidable tree.Grouped
  | operand _ => isTrue trivial
  | node op left right =>
    have := decidableGrouped left
    have := decidableGrouped right
    inferInstanceAs (Decidable
      (left.AtLeast op.leftBound ∧ right.AtLeast op.rightBound ∧ left.Grouped ∧ right.Grouped))

/-- The operators of a sequence, each with the operand behind it, as tokens. -/
def flatten (steps : List (InfixOp × Token)) : List Token :=
  steps.flatMap fun step => [step.1.token, step.2]

/-- The leftmost operand. -/
def first : InfixTree → Token
  | operand t => t
  | node _ left _ => left.first

/-- The operators from left to right, each with the operand behind it. -/
def steps : InfixTree → List (InfixOp × Token)
  | operand _ => []
  | node op left right => left.steps ++ (op, right.first) :: right.steps

theorem inorder_eq (tree : InfixTree) : tree.inorder = tree.first :: flatten tree.steps := by
  induction tree with
  | operand t => rfl
  | node op left right ihl ihr => simp [inorder, ihl, ihr, first, steps, flatten]

theorem length_flatten (xs : List (InfixOp × Token)) : (flatten xs).length = 2 * xs.length := by
  induction xs with
  | nil => rfl
  | cons x xs ih =>
    have hcons : flatten (x :: xs) = x.1.token :: x.2 :: flatten xs := rfl
    rw [hcons, List.length_cons, List.length_cons, ih, List.length_cons]
    omega

theorem flatten_injective {xs ys : List (InfixOp × Token)} (h : flatten xs = flatten ys) :
    xs = ys := by
  induction xs generalizing ys with
  | nil =>
    cases ys with
    | nil => rfl
    | cons y ys => simp [flatten] at h
  | cons x xs ih =>
    cases ys with
    | nil => simp [flatten] at h
    | cons y ys =>
      obtain ⟨hop, hoperand, hrest⟩ :
          x.1.token = y.1.token ∧ x.2 = y.2 ∧ flatten xs = flatten ys := by
        simpa [flatten] using h
      have hsome : some x.1 = some y.1 := by
        rw [← InfixOp.ofToken?_token, hop, InfixOp.ofToken?_token]
      rw [Prod.ext (Option.some.inj hsome) hoperand, ih hrest]

/-- The tree with one more operator and operand at its right end. -/
def grow (op : InfixOp) (t : Token) : InfixTree → InfixTree
  | operand s => node op (operand s) (operand t)
  | node o left right =>
    if o.rightBound ≤ op.precedence then node o left (right.grow op t)
    else node op (node o left right) (operand t)

theorem first_grow (op : InfixOp) (t : Token) (tree : InfixTree) :
    (tree.grow op t).first = tree.first := by
  induction tree with
  | operand s => rfl
  | node o left right _ _ =>
    unfold grow
    split
    · rfl
    · rfl

theorem steps_grow (op : InfixOp) (t : Token) (tree : InfixTree) :
    (tree.grow op t).steps = tree.steps ++ [(op, t)] := by
  induction tree with
  | operand s => rfl
  | node o left right _ ih =>
    unfold grow
    split
    · simp [steps, ih, first_grow]
    · simp [steps, first]

theorem atLeast_operand (n : Nat) (t : Token) : (operand t).AtLeast n := by
  rintro _ ⟨⟩

theorem atLeast_node {left right : InfixTree} (h : n ≤ op.precedence) :
    (node op left right).AtLeast n := by
  rintro _ ⟨⟩
  exact h

theorem AtLeast.grow (h : tree.AtLeast n) (hop : n ≤ op.precedence) (t : Token) :
    (tree.grow op t).AtLeast n := by
  cases tree with
  | operand s => exact atLeast_node hop
  | node o left right =>
    unfold InfixTree.grow
    split
    · exact atLeast_node (h o rfl)
    · exact atLeast_node hop

theorem Grouped.grow (h : tree.Grouped) (op : InfixOp) (t : Token) : (tree.grow op t).Grouped := by
  induction tree with
  | operand s => exact ⟨atLeast_operand _ s, atLeast_operand _ t, trivial, trivial⟩
  | node o left right _ ih =>
    obtain ⟨hleft, hright, hl, hr⟩ := h
    unfold InfixTree.grow
    split
    · rename_i hop
      exact ⟨hleft, hright.grow hop t, hl, ih hr⟩
    · rename_i hop
      -- the whole tree becomes the left operand
      have ho : op.leftBound ≤ o.precedence := InfixOp.leftBound_le_iff.2 (Nat.lt_of_not_le hop)
      exact ⟨atLeast_node ho, atLeast_operand _ t, ⟨hleft, hright, hl, hr⟩, trivial⟩

theorem exists_grouped (a : Token) (xs : List (InfixOp × Token)) :
    ∃ tree : InfixTree, tree.Grouped ∧ tree.first = a ∧ tree.steps = xs := by
  induction xs using List.reverseRecOn with
  | nil => exact ⟨.operand a, trivial, rfl, rfl⟩
  | append_singleton xs x ih =>
    obtain ⟨tree, hgrouped, hfirst, hsteps⟩ := ih
    refine ⟨tree.grow x.1 x.2, hgrouped.grow x.1 x.2, ?_, ?_⟩
    · rw [first_grow, hfirst]
    · rw [steps_grow, hsteps]

end InfixTree

/-- The tree of an expression that has names, numbers and infix operators only. -/
def Expr.infixTree? : Expr → Option InfixTree
  | .identifier n _ => some (.operand (.identifier n))
  | .number x _ => some (.operand (.number x))
  | .binary op left right _ => return .node (.binary op) (← left.infixTree?) (← right.infixTree?)
  | .logical op left right _ => return .node (.logical op) (← left.infixTree?) (← right.infixTree?)
  | _ => none

theorem Expr.infixTree?_join {left right : Expr} {l r : InfixTree} {op : InfixOp} {s : Span}
    (hl : left.infixTree? = some l) (hr : right.infixTree? = some r) :
    (Grammar.join op left right s).infixTree? = some (.node op l r) := by
  cases op with
  | binary op => simp [Grammar.join, infixTree?, hl, hr]
  | logical op => simp [Grammar.join, infixTree?, hl, hr]

theorem Cursor.remaining_eq_length (c : Cursor) : c.remaining = c.upcoming.length := by
  simp [remaining, upcoming, ahead]

section

variable {σ β : Type} {d fuel : Nat} {ts us l : List Token} {step : σ → Parse (σ ⊕ β)} {s : σ}
  {I : σ → Prop} {Q : β → Prop}

theorem takes_repeated_next (hstep : Takes d ts us (fun r => ∃ s, r = .inl s ∧ I s) (step s))
    (hrest : ∀ s, I s → Takes d us l Q (repeated step fuel s)) :
    Takes d ts l Q (repeated step (fuel + 1) s) := by
  refine hstep.bind fun r hr => ?_
  obtain ⟨s, rfl, hs⟩ := hr
  exact hrest s hs

theorem takes_repeated_end (hstep : Takes d ts l (fun r => ∃ b, r = .inr b ∧ Q b) (step s)) :
    Takes d ts l Q (repeated step (fuel + 1) s) := by
  refine hstep.bind fun r hr => ?_
  obtain ⟨b, rfl, hb⟩ := hr
  exact .pure hb

end

namespace Grammar

variable {d m n : Nat} {a u : Token} {l : List Token} {g : Grammar} {P : Expr → Prop}
  {tree : InfixTree}

def FollowsOperand (t : Token) : Prop := t = .eof ∨ ∃ op : InfixOp, t = op.token

theorem takes_chainLink_end {start : Span} {e : Expr} (hu : FollowsOperand u) (he : P e) :
    Takes d (u :: l) (u :: l) (fun r => ∃ e, r = .inr e ∧ P e) (chainLink g start e) := by
  refine takes_current.bind fun t ht => ?_
  rw [ht]
  rcases hu with rfl | ⟨op | op, rfl⟩
  · exact .pure ⟨e, rfl, he⟩
  · cases op <;> exact .pure ⟨e, rfl, he⟩
  · cases op <;> exact .pure ⟨e, rfl, he⟩

theorem FollowsOperand.updateOp (hu : FollowsOperand u) : UpdateOp.ofToken? u = none := by
  rcases hu with rfl | ⟨op | op, rfl⟩
  · rfl
  · cases op <;> rfl
  · cases op <;> rfl

theorem FollowsOperand.not_arrow (hu : FollowsOperand u) : u.isPunct .arrow = false := by
  rcases hu with rfl | ⟨op | op, rfl⟩
  · rfl
  · cases op <;> rfl
  · cases op <;> rfl

theorem takes_primary_operand (ha : a.isOperand = true) :
    Takes d (a :: u :: l) (u :: l) (fun e => e.infixTree? = some (.operand a)) (primary g) := by
  refine takes_here.bind fun span _ => takes_current.bind fun t ht => ?_
  rw [ht]
  rcases Token.isOperand_iff.1 ha with ⟨n, rfl⟩ | ⟨x, rfl⟩
  · exact takes_advance.bind fun _ _ => .pure rfl
  · exact takes_advance.bind fun _ _ => .pure rfl

theorem takes_unaryOf_operand (ha : a.isOperand = true) (hu : FollowsOperand u) :
    Takes d (a :: u :: l) (u :: l) (fun e => e.infixTree? = some (.operand a)) (unaryOf g) := by
  obtain ⟨hnew, hunary, hupdate⟩ : a.isWord .kwNew = false ∧ UnaryOp.ofToken? a = none ∧
      UpdateOp.ofToken? a = none := by
    rcases Token.isOperand_iff.1 ha with ⟨n, rfl⟩ | ⟨x, rfl⟩
    · exact ⟨rfl, rfl, rfl⟩
    · exact ⟨rfl, rfl, rfl⟩
  refine takes_unaryOf hunary hupdate hu.updateOp ?_
  refine takes_here.bind fun start _ => ?_
  refine (takes_chainHead hnew (takes_primary_operand ha)).bind fun e he => ?_
  exact takes_loop (takes_chainLink_end hu he)

/-- No operator of the precedence or more begins with the token. -/
def Below (u : Token) (n : Nat) : Prop := ∀ op, InfixOp.ofToken? u = some op → op.precedence < n

theorem takes_infixLink_below {start : Span} {e : Expr} {min : Nat} (hu : Below u (min + 1))
    (he : P e) :
    Takes d (u :: l) (u :: l) (fun r => ∃ e, r = .inr e ∧ P e) (infixLink g start min e) := by
  refine takes_current.bind fun t ht => ?_
  rw [ht]
  cases hop : InfixOp.ofToken? u with
  | none => exact .pure ⟨e, rfl, he⟩
  | some op =>
    show Takes d _ _ _ (if _ then _ else _)
    rw [if_pos (Nat.le_of_lt_succ (hu op hop))]
    exact .pure ⟨e, rfl, he⟩

/-- An operator that binds tighter joins what was read with the operand behind it. -/
theorem takes_infixLink_operator {start : Span} {e : Expr} {min : Nat} {op : InfixOp}
    {left right : InfixTree} {ts : List Token} (hop : min < op.precedence)
    (he : e.infixTree? = some left)
    (hright : Takes d (a :: ts) l (fun e => e.infixTree? = some right)
      (g.infixes (op.rightBound - 1))) :
    Takes d (op.token :: a :: ts) l
      (fun r => ∃ e, r = .inl e ∧ e.infixTree? = some (.node op left right))
      (infixLink g start min e) := by
  have hbound : (if op.isRightAssociative then op.precedence - 1 else op.precedence) =
      op.rightBound - 1 := by
    unfold InfixOp.rightBound
    split
    · rfl
    · rfl
  refine takes_current.bind fun t ht => ?_
  rw [ht, InfixOp.ofToken?_token]
  show Takes d _ _ _ (if _ then _ else _)
  rw [if_neg (Nat.not_le.2 hop)]
  refine takes_advance.bind fun _ _ => ?_
  rw [hbound]
  exact hright.bind fun e' he' => .pure ⟨_, rfl, Expr.infixTree?_join he he'⟩

/--
From its first operand on, the loop goes over the operators of a tree, if what follows does not
belong to the right operand of the last one.
-/
def Climbs (tree : InfixTree) : Prop :=
  ∀ {d m least k : Nat} {start : Span} {u : Token} {l l' : List Token} {P : Expr → Prop},
    tree.steps.length ≤ m → tree.AtLeast (least + 1) → FollowsOperand u →
    (∀ op, tree.op? = some op → Below u op.rightBound) →
    (∀ fuel e, k ≤ fuel → e.infixTree? = some tree →
      Takes d (u :: l) l' P (repeated (infixLink (levels m) start least) fuel e)) →
    ∀ fuel e, k + tree.steps.length ≤ fuel → e.infixTree? = some (.operand tree.first) →
      Takes d (InfixTree.flatten tree.steps ++ u :: l) l' P
        (repeated (infixLink (levels m) start least) fuel e)

theorem exists_follows (tree : InfixTree) (hu : FollowsOperand u) (l : List Token) :
    ∃ v vs, InfixTree.flatten tree.steps ++ u :: l = v :: vs ∧ FollowsOperand v := by
  cases tree.steps with
  | nil => exact ⟨u, l, rfl, hu⟩
  | cons step steps => exact ⟨step.1.token, _, rfl, .inr ⟨step.1, rfl⟩⟩

theorem takes_infixesOf_tree {least : Nat} (h : Climbs tree) (hfirst : tree.first.isOperand = true)
    (hm : tree.steps.length ≤ m) (hleast : tree.AtLeast (least + 1)) (hu : FollowsOperand u)
    (hbelow : Below u (least + 1)) :
    Takes d (tree.inorder ++ u :: l) (u :: l) (fun e => e.infixTree? = some tree)
      (infixesOf (levels m) least) := by
  have hbound : ∀ op, tree.op? = some op → Below u op.rightBound := by
    intro op hop op' hop'
    have hle := Nat.le_trans (hleast op hop) op.precedence_le_rightBound
    exact Nat.lt_of_lt_of_le (hbelow op' hop') hle
  obtain ⟨v, vs, hvs, hv⟩ := exists_follows tree hu l
  rw [InfixTree.inorder_eq, List.cons_append, hvs]
  refine takes_here.bind fun start _ => (takes_unaryOf_operand hfirst hv).bind fun e he => ?_
  refine .get fun c hc => ?_
  rw [← hvs] at hc ⊢
  refine h (k := 1) hm hleast hu hbound (fun fuel e hfuel he => ?_) _ e ?_ he
  · obtain ⟨fuel, rfl⟩ := Nat.exists_eq_add_of_le' hfuel
    exact takes_repeated_end (takes_infixLink_below hbelow he)
  · have hlength := InfixTree.length_flatten tree.steps
    have hremaining := c.remaining_eq_length
    rw [hc, List.length_append, List.length_cons] at hremaining
    omega

theorem climbs (htree : tree.Grouped) (hfirst : tree.first.isOperand = true)
    (hsteps : ∀ step ∈ tree.steps, step.2.isOperand = true) : Climbs tree := by
  induction tree with
  | operand t =>
    intro d m least k start u l l' P _ _ _ _ hnext fuel e hfuel he
    exact hnext fuel e hfuel he
  | node op left right ihl ihr =>
    intro d m least k start u l l' P hm hleast hu hbelow hnext fuel e hfuel he
    obtain ⟨hleft, hright, hl, hr⟩ := htree
    obtain ⟨hstepsl, hfirstr, hstepsr⟩ : (∀ step ∈ left.steps, step.2.isOperand = true) ∧
        right.first.isOperand = true ∧ ∀ step ∈ right.steps, step.2.isOperand = true := by
      simpa [InfixTree.steps, or_imp, forall_and] using hsteps
    have hlength : (InfixTree.node op left right).steps.length =
        left.steps.length + (right.steps.length + 1) := by
      simp [InfixTree.steps]
    rw [hlength] at hm hfuel
    obtain ⟨m, rfl⟩ : ∃ m', m = m' + 1 := ⟨m - 1, by omega⟩
    have hop : least < op.precedence := hleast op rfl
    -- the right operand is read on the next level, up to `u`
    have hpos : op.rightBound - 1 + 1 = op.rightBound :=
      Nat.sub_add_cancel (Nat.lt_of_lt_of_le op.precedence_pos op.precedence_le_rightBound)
    have hoperand : Takes d (right.inorder ++ u :: l) (u :: l) (fun e => e.infixTree? = some right)
        ((levels (m + 1)).infixes (op.rightBound - 1)) :=
      takes_infixesOf_tree (ihr hr hfirstr hstepsr) hfirstr (by omega) (hpos ▸ hright) hu
        (hpos ▸ hbelow op rfl)
    rw [InfixTree.inorder_eq, List.cons_append] at hoperand
    have htokens : InfixTree.flatten (InfixTree.node op left right).steps ++ u :: l =
        InfixTree.flatten left.steps ++
          op.token :: right.first :: (InfixTree.flatten right.steps ++ u :: l) := by
      simp [InfixTree.steps, InfixTree.flatten]
    rw [htokens]
    -- the operators of the left operand come first, then this one
    refine ihl hl hfirst hstepsl (k := k + 1) (by omega) (fun o ho => ?_) (.inr ⟨op, rfl⟩)
      (fun o ho => ?_) (fun fuel e hfuel he => ?_) fuel e (by omega) he
    · exact Nat.le_trans (Nat.le_trans hop op.precedence_le_leftBound) (hleft o ho)
    · intro op' hop'
      cases (InfixOp.ofToken?_token op).symm.trans hop'
      exact InfixOp.leftBound_le_iff.1 (hleft o ho)
    · obtain ⟨fuel, rfl⟩ : ∃ fuel', fuel = fuel' + 1 := ⟨fuel - 1, by omega⟩
      exact takes_repeated_next (takes_infixLink_operator hop he hoperand) fun e he =>
        hnext fuel e (by omega) he

theorem not_atArrow {v : Token} {vs : List Token} {c : Cursor} (ha : a.isOperand = true)
    (hv : FollowsOperand v) (hc : c.upcoming = a :: v :: vs) : atArrow c = false := by
  rcases Token.isOperand_iff.1 ha with ⟨n, rfl⟩ | ⟨x, rfl⟩
  · exact atArrow_of_upcoming hc hv.not_arrow
  · rw [atArrow, Cursor.token_of_upcoming hc]

end Grammar

theorem Expr.ofTokens_tree {tree : InfixTree} {ts : List Lexeme} (htree : tree.Grouped)
    (hfirst : tree.first.isOperand = true)
    (hsteps : ∀ step ∈ tree.steps, step.2.isOperand = true)
    (hts : ts.map (·.1) = tree.inorder ++ [.eof]) :
    ∃ e, Expr.ofTokens ts = .ok e ∧ e.infixTree? = some tree := by
  have hlevels : tree.steps.length ≤ Lexeme.weights ts + 1 := by
    have hweights := Lexeme.length_le_weights ts
    have hlength := congrArg List.length hts
    have hflatten := InfixTree.length_flatten tree.steps
    rw [InfixTree.inorder_eq] at hlength
    simp only [List.length_map, List.length_append, List.length_cons] at hlength
    omega
  have heof : Grammar.FollowsOperand .eof := .inl rfl
  have hinfixes : Takes 1 (tree.inorder ++ [.eof]) [.eof] (fun e => e.infixTree? = some tree)
      (Grammar.infixesOf (Grammar.for ts) 0) := by
    refine Grammar.takes_infixesOf_tree (Grammar.climbs htree hfirst hsteps) hfirst hlevels
      (fun op _ => op.precedence_pos) heof ?_
    rintro _ ⟨⟩
  have harrow : ∀ c : Cursor, c.upcoming = tree.inorder ++ [.eof] → Grammar.atArrow c = false := by
    intro c hc
    obtain ⟨v, vs, hvs, hv⟩ := Grammar.exists_follows tree heof []
    rw [InfixTree.inorder_eq, List.cons_append, hvs] at hc
    exact Grammar.not_atArrow hfirst hv hc
  have hread : Takes 0 (tree.inorder ++ [.eof]) [.eof] (fun e => e.infixTree? = some tree) (do
      let e ← Grammar.expressionOf (Grammar.for ts)
      unless (← get).atEnd do unexpected [.eof]
      return e) := by
    refine (Grammar.takes_expressionOf (by decide) (.inr rfl) harrow hinfixes).bind fun e he => ?_
    refine .get fun c hc => ?_
    rw [Cursor.atEnd, Cursor.token_of_upcoming hc]
    exact .pure he
  obtain ⟨e, c', hrun, he, _⟩ := hread _ rfl (Cursor.upcoming_ofTokens_of_eof hts)
  exact ⟨e, congrArg Prod.fst hrun, he⟩

theorem exists_steps {rest : List (Token × Token)}
    (h : ∀ p ∈ rest, (InfixOp.ofToken? p.1).isSome = true) :
    ∃ xs : List (InfixOp × Token), rest = xs.map fun x => (x.1.token, x.2) := by
  induction rest with
  | nil => exact ⟨[], rfl⟩
  | cons p rest ih =>
    obtain ⟨hp, hrest⟩ := List.forall_mem_cons.1 h
    obtain ⟨op, hop⟩ := Option.isSome_iff_exists.1 hp
    obtain ⟨xs, rfl⟩ := ih hrest
    refine ⟨(op, p.2) :: xs, ?_⟩
    rw [List.map_cons, ← InfixOp.ofToken?_eq_some_iff.1 hop]

/--
Names and numbers with operators between them are read, and the expression is a tree of them from
left to right. In the tree an operator in the left operand of another binds at least as tightly, and
tighter than `**`; one in the right operand binds tighter, and at least as tightly as `**`. No other
tree of the sequence is like that.
-/
theorem infix_sequence_reads_grouped {a : Token} {rest : List (Token × Token)} {ts : List Lexeme}
    (ha : a.isOperand = true)
    (hrest : ∀ p ∈ rest, (InfixOp.ofToken? p.1).isSome = true ∧ p.2.isOperand = true)
    (hts : ts.map (·.1) = a :: rest.flatMap (fun p => [p.1, p.2]) ++ [.eof]) :
    ∃ e tree, Expr.ofTokens ts = .ok e ∧ e.infixTree? = some tree ∧
      tree.inorder = a :: rest.flatMap (fun p => [p.1, p.2]) ∧ tree.Grouped ∧
      ∀ other : InfixTree, other.inorder = a :: rest.flatMap (fun p => [p.1, p.2]) →
        other.Grouped → other = tree := by
  obtain ⟨xs, rfl⟩ := exists_steps fun p hp => (hrest p hp).1
  have hflatten : (xs.map fun x => (x.1.token, x.2)).flatMap (fun p => [p.1, p.2]) =
      InfixTree.flatten xs := by
    rw [List.flatMap_map]
    rfl
  have hoperands : ∀ step ∈ xs, step.2.isOperand = true := by
    intro step hstep
    exact (hrest _ (List.mem_map_of_mem hstep)).2
  rw [hflatten] at hts ⊢
  obtain ⟨tree, hgrouped, rfl, rfl⟩ := InfixTree.exists_grouped a xs
  rw [← InfixTree.inorder_eq] at hts ⊢
  obtain ⟨e, he, htree⟩ := Expr.ofTokens_tree hgrouped ha hoperands hts
  refine ⟨e, tree, he, htree, rfl, hgrouped, fun other hother hgrouped' => ?_⟩
  -- the other tree has the same operands, so it would be read as well
  have hsame : other.first = tree.first ∧ other.steps = tree.steps := by
    rw [InfixTree.inorder_eq, InfixTree.inorder_eq, List.cons.injEq] at hother
    exact ⟨hother.1, InfixTree.flatten_injective hother.2⟩
  obtain ⟨e', he', htree'⟩ := Expr.ofTokens_tree hgrouped' (hsame.1 ▸ ha) (hsame.2 ▸ hoperands)
    (hother ▸ hts)
  cases he.symm.trans he'
  exact Option.some.inj (htree'.symm.trans htree)

def InfixTree.powers : InfixTree :=
  .node (.binary .subtract)
    (.node (.binary .subtract) (.operand (.identifier "a"))
      (.node (.binary .exponent) (.operand (.identifier "b"))
        (.node (.binary .exponent) (.operand (.number 2)) (.operand (.identifier "c")))))
    (.operand (.identifier "d"))

theorem infix_sequence_reads_grouped_powers :
    InfixTree.powers.Grouped ∧
      ∃ e, Expr.ofTokens ((InfixTree.powers.inorder ++ [Token.eof]).map (·, default)) = .ok e ∧
        e.infixTree? = some .powers := by
  have hgrouped : InfixTree.powers.Grouped := by decide
  obtain ⟨e, tree, he, htree, _, _, hunique⟩ := @infix_sequence_reads_grouped (.identifier "a")
    [(.punct .minus, .identifier "b"), (.punct .starStar, .number 2),
      (.punct .starStar, .identifier "c"), (.punct .minus, .identifier "d")]
    ((InfixTree.powers.inorder ++ [Token.eof]).map (·, default)) rfl
    (by simp [InfixOp.ofToken?, Token.isOperand]) rfl
  rw [← hunique .powers rfl hgrouped] at htree
  exact ⟨hgrouped, e, he, htree⟩

end Typings
