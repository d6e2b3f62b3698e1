import Typings.Eval.Program
import Typings.Proofs.Outcome

namespace Typings

namespace Expr

/-- What a link stands on: the object of a member or an index, the callee of a call. -/
def base? : Expr → Option Expr
  | member o _ _ _ => some o
  | index o _ _ _ => some o
  | call f _ _ _ => some f
  | _ => none

/-- Whether a link ends its chain where it stands on nothing. -/
def isOptional : Expr → Bool
  | member _ _ optional _ => optional
  | index _ _ optional _ => optional
  | call _ _ optional _ => optional
  | _ => false

/-- The chain with no link optional. What stands between brackets or parentheses is no link of it. -/
def demanding : Expr → Expr
  | member o key _ span => member o.demanding key false span
  | index o key _ span => index o.demanding key false span
  | call f args _ span => call f.demanding args false span
  | e => e

/-- A chain goes on from `p`, link by link. -/
inductive Starts (p : Expr) : Expr → Prop
  | here : Starts p p
  | link {e base : Expr} (h : e.base? = some base) (hp : Starts p base) : Starts p e

variable {e base : Expr}

theorem base?_demanding (h : e.base? = some base) : e.demanding.base? = some base.demanding := by
  cases e with
  | member | index | call =>
    cases h
    rw [demanding]
    rfl
  | _ => cases h

theorem label_demanding (e : Expr) : e.demanding.label = e.label := by
  fun_induction demanding e with
  | case1 object key _ _ ih => rw [label, label, ih]
  | case2 => rfl
  | case3 callee args _ _ ih => rw [label, label, ih]
  | case4 => rfl

end Expr

/-- The link `p` is optional, and what it stands on has come to nothing; then the store is `s'`. -/
def Machine.MeetsNothing (m : Machine) (scope : Nat) (p : Expr) (s s' : Store) : Prop :=
  p.isOptional = true ∧ ∃ base receiver v, p.base? = some base ∧
    EvalM.link m scope none base s = (.ok (.found receiver v), s') ∧ v.isNullish = true

namespace EvalM

variable {m : Machine} {scope : Nat} {given : Option String} {e base p : Expr} {s s' : Store}
  {receiver v : Value}

/-- What a link makes of what it stands on. -/
def linkOn (m : Machine) (scope : Nat) : Expr → Link → EvalM Link
  | .member _ key optional _ => memberLink m optional (pure key)
  | .index _ key optional _ =>
    memberLink m optional do textOf (← valueOf (link m scope none key))
  | .call callee args optional _ =>
    callLink m callee.label optional (argumentValues m scope args)
  | _ => pure

theorem link_of_base (h : e.base? = some base) :
    link m scope given e = link m scope none base >>= linkOn m scope e := by
  cases e with
  | member | index | call =>
    cases h
    rw [link]
    rfl
  | _ => cases h

theorem memberLink_found (optional : Bool) (key : EvalM String) (receiver v : Value) :
    memberLink m optional key (.found receiver v) =
      if optional && v.isNullish then pure .skipped else memberLink m false key (.found receiver v) := by
  cases h : optional && v.isNullish <;> simp [memberLink, h]

theorem callLink_found (label : String) (optional : Bool) (args : EvalM (List Value))
    (receiver v : Value) :
    callLink m label optional args (.found receiver v) =
      if optional && v.isNullish then pure .skipped
      else callLink m label false args (.found receiver v) := by
  cases h : optional && v.isNullish <;> simp [callLink, h]

theorem linkOn_skipped (e : Expr) : linkOn m scope e .skipped = pure .skipped := by
  cases e <;> rfl

theorem linkOn_found (h : e.base? = some base) :
    linkOn m scope e (.found receiver v) =
      if e.isOptional && v.isNullish then pure .skipped
      else linkOn m scope e.demanding (.found receiver v) := by
  cases e with
  | member object key optional span =>
    rw [Expr.demanding]
    exact memberLink_found optional (pure key) receiver v
  | index object key optional span =>
    rw [Expr.demanding]
    exact memberLink_found optional _ receiver v
  | call callee args optional span =>
    rw [Expr.demanding]
    simp only [linkOn, Expr.label_demanding]
    exact callLink_found _ optional _ receiver v
  | _ => cases h

theorem link_skipped (hp : p.Starts e) (h : m.MeetsNothing scope p s s') :
    link m scope given e s = (.ok .skipped, s') := by
  induction hp generalizing given with
  | here =>
    obtain ⟨hoptional, base, receiver, v, hbase, hrun, hv⟩ := h
    rw [link_of_base hbase, bind_ok hrun, linkOn_found hbase, hoptional, hv]
    rfl
  | link hbase _ ih =>
    rw [link_of_base hbase, bind_ok ih, linkOn_skipped]
    rfl

theorem link_demanding_of_base (hbase : e.base? = some base)
    (hrun : link m scope none base s = link m scope none base.demanding s)
    (hmet : ∀ s', ¬ m.MeetsNothing scope e s s') :
    link m scope given e s = link m scope given e.demanding s := by
  rw [link_of_base hbase, link_of_base (Expr.base?_demanding hbase)]
  refine bind_run_congr hrun fun found s' hout => ?_
  cases found with
  | skipped => rw [linkOn_skipped, linkOn_skipped]
  | found receiver v =>
    rw [linkOn_found hbase, if_neg]
    intro h
    rw [Bool.and_eq_true] at h
    exact hmet s' ⟨h.1, base, receiver, v, hbase, hout, h.2⟩

theorem link_demanding (h : ∀ p s', p.Starts e → ¬ m.MeetsNothing scope p s s') :
    link m scope given e s = link m scope given e.demanding s := by
  fun_induction Expr.demanding e generalizing given with
  | case1 object key optional span ih | case2 object key optional span ih
  | case3 object key optional span ih =>
    -- the part before the link is a chain of its own, with fewer links
    have hrest : link m scope none object s = _ := ih fun p s' hp => h p s' (.link rfl hp)
    exact link_demanding_of_base rfl hrest fun s' => h _ s' .here
  | case4 => rfl

end EvalM

/--
An optional link that comes to stand on nothing makes the whole chain undefined, in the store in which
it came to stand there. A chain in which no optional link does so is evaluated as if no link of it
were optional.
-/
theorem chain_ends_on_nothing (m : Machine) (scope : Nat) (e : Expr) (s : Store) :
    (∀ p s', p.Starts e → m.MeetsNothing scope p s s' →
      EvalM.eval m scope e s = (.ok .undefined, s')) ∧
    ((∀ p s', p.Starts e → ¬ m.MeetsNothing scope p s s') →
      EvalM.eval m scope e s = EvalM.eval m scope e.demanding s) := by
  refine ⟨fun p s' hp h => ?_, fun h => ?_⟩
  · rw [EvalM.eval, EvalM.valueOf, bind_ok (EvalM.link_skipped hp h)]
    rfl
  · have hrun : EvalM.link m scope none e s = _ := EvalM.link_demanding h
    rw [EvalM.eval, EvalM.eval, EvalM.valueOf, EvalM.valueOf]
    exact bind_run_congr hrun fun _ _ _ => rfl

def Store.withNull : Store := (({} : Store).addScope {}).2.declareConstant Store.globalScope "o" .null

/-- The chain `o?.a[n = 1].b()`, and a chain whose only link stands on a text. -/
theorem chain_ends_on_nothing_at_first_link :
    let o : Expr := .member (.identifier "o" default) "a" true default
    let key : Expr := .assign .assign (.identifier "n" default) (.number 1.0 default) default
    let chain : Expr := .call (.member (.index o key false default) "b" false default) [] false default
    let text : Expr := .member (.string "o" default) "length" true default
    (o.Starts chain ∧ Machine.full.MeetsNothing 0 o .withNull .withNull ∧
      EvalM.eval .full 0 chain .withNull = (.ok .undefined, .withNull)) ∧
    ((∀ p s', p.Starts text → ¬ Machine.full.MeetsNothing 0 p .withNull s') ∧
      EvalM.eval .full 0 text .withNull = EvalM.eval .full 0 text.demanding .withNull) := by
  intro o key chain text
  have hstarts : o.Starts chain := .link rfl (.link rfl (.link rfl .here))
  have hmeets : Machine.full.MeetsNothing 0 o .withNull .withNull :=
    ⟨rfl, _, _, _, rfl, rfl, rfl⟩
  have hno : ∀ p s', p.Starts text → ¬ Machine.full.MeetsNothing 0 p .withNull s' := by
    rintro p s' hp ⟨hoptional, base, receiver, v, hbase, hrun, hv⟩
    cases hp with
    | here =>
      cases hbase
      cases hrun
      cases hv
    | link h hp =>
      cases h
      cases hp with
      | here => cases hoptional
      | link h _ => cases h
  exact ⟨⟨hstarts, hmeets, (chain_ends_on_nothing .full 0 chain .withNull).1 o _ hstarts hmeets⟩,
    hno, (chain_ends_on_nothing .full 0 text .withNull).2 hno⟩

end Typings
