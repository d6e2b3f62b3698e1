import Typings.Proofs.Syntax.Parts

namespace Typings

/-- Whether the value of a property has a level of its own: a method and a name alone have none. -/
def Expr.isLevel : Expr → Bool
  | .function _ | .identifier .. => false
  | _ => true

def ObjectProperty.beside : ObjectProperty → List Node
  | .value _ e => if e.isLevel then [] else [.expr e]
  | .getter _ f | .setter _ f => [.function f]
  | .spread _ => []

def MemberForm.beside : MemberForm → List Node
  | .method f | .getter f | .setter f => [.function f]
  | .field _ => []

def ClassDef.beside (c : ClassDef) : List Node :=
  c.superclass.toList.map .expr ++ c.constructor?.toList.map .function ++
    c.members.flatMap (·.kind.beside)

def Expr.beside : Expr → List Node
  | .object ps _ => ps.flatMap ObjectProperty.beside
  | .function f => [.function f]
  | .classOf c => [.classOf c]
  | .member o _ _ _ | .index o _ _ _ => [.expr o]
  | .call f _ _ _ | .new f _ _ => [.expr f]
  | .update _ false e _ => [.expr e]
  | .binary _ l r _ | .logical _ l r _ => [.expr l, .expr r]
  | .conditional t _ _ _ | .assign _ t _ _ => [.expr t]
  | .sequence es _ => es.map .expr
  | _ => []

def Statement.beside : Statement → List Node
  | .function f => [.function f]
  | .classOf c => [.classOf c]
  | _ => []

def Node.beside : Node → List Node
  | .expr e => e.beside
  | .function _ => []
  | .classOf c => c.beside
  | .statement s => s.beside

def ObjectProperty.inner : ObjectProperty → List Node
  | .value k e => k.nodes ++ if e.isLevel then [.expr e] else []
  | .getter k _ | .setter k _ => k.nodes
  | .spread e => [.expr e]

/-- A body in braces is not read with its function. -/
def FunctionBody.inner : FunctionBody → List Node
  | .block .. => []
  | .concise e => [.expr e]

def FunctionDef.inner (f : FunctionDef) : List Node := f.params.flatMap Param.nodes ++ f.body.inner

def MemberForm.inner : MemberForm → List Node
  | .field init => init.toList.map .expr
  | _ => []

def Expr.inner : Expr → List Node
  | .array es _ => es.flatMap ArrayElement.nodes
  | .object ps _ => ps.flatMap ObjectProperty.inner
  | .index _ i _ _ => [.expr i]
  | .call _ as _ _ | .new _ as _ | .superCall as _ => as.flatMap Argument.nodes
  | .unary _ e _ | .update _ true e _ => [.expr e]
  | .conditional _ c a _ => [.expr c, .expr a]
  | .assign _ _ v _ => [.expr v]
  | _ => []

def Statement.inner : Statement → List Node
  | .function _ | .classOf _ => []
  | s => s.nodes

def Node.inner : Node → List Node
  | .expr e => e.inner
  | .function f => f.inner
  | .classOf c => c.members.flatMap (·.kind.inner)
  | .statement s => s.inner

/-- The nodes directly in another that are read on their own, from level zero on. -/
def Node.apart : Node → List Node
  | .expr (.template parts _) => parts.flatMap TemplateElement.nodes
  | _ => []

namespace Node

variable {n n' m x : Node} {b k : Nat}

/-- A way from a node to one inside it, and how many levels it goes down. -/
inductive Path : Node → Nat → Node → Prop
  | refl (n : Node) : Path n 0 n
  | beside {n x m : Node} {k : Nat} (hx : x ∈ n.beside) (h : Path x k m) : Path n k m
  | inner {n x m : Node} {k : Nat} (hx : x ∈ n.inner) (h : Path x k m) : Path n (k + 1) m

/-- Somewhere inside a node, a node is read on its own. -/
inductive Apart : Node → Node → Prop
  | here {n x : Node} (hx : x ∈ n.apart) : Apart n x
  | apart {n x m : Node} (hx : x ∈ n.apart) (h : Apart x m) : Apart n m
  | beside {n x m : Node} (hx : x ∈ n.beside) (h : Apart x m) : Apart n m
  | inner {n x m : Node} (hx : x ∈ n.inner) (h : Apart x m) : Apart n m

/-- No path from the node goes down more than `b` levels; what is read on its own keeps the limit. -/
structure Nests (b : Nat) (n : Node) : Prop where
  path : ∀ {k m}, n.Path k m → k ≤ b
  apart : ∀ {x k m}, n.Apart x → x.Path k m → k ≤ nestingLimit

/-- The same where the node itself is one of the levels. -/
def NestsBelow (b : Nat) (n : Node) : Prop := ∃ j, b = j + 1 ∧ n.Nests j

theorem NestsBelow.nests (h : n.NestsBelow b) : n.Nests b := by
  obtain ⟨j, rfl, hn⟩ := h
  exact ⟨fun hp => Nat.le_succ_of_le (hn.path hp), hn.apart⟩

theorem nests_iff : n.Nests b ↔ (∀ x ∈ n.beside, x.Nests b) ∧ (∀ x ∈ n.inner, x.NestsBelow b) ∧
    ∀ x ∈ n.apart, x.Nests nestingLimit := by
  constructor
  · intro h
    refine ⟨fun x hx => ?_, fun x hx => ?_, fun x hx => ?_⟩
    · exact ⟨fun hp => h.path (.beside hx hp), fun ha => h.apart (.beside hx ha)⟩
    · have hb : 1 ≤ b := h.path (.inner hx (.refl x))
      refine ⟨b - 1, by omega, fun hp => ?_, fun ha => h.apart (.inner hx ha)⟩
      have := h.path (.inner hx hp)
      omega
    · exact ⟨fun hp => h.apart (.here hx) hp, fun ha => h.apart (.apart hx ha)⟩
  · rintro ⟨hbeside, hinner, hapart⟩
    constructor
    · intro k m hp
      cases hp with
      | refl => exact Nat.zero_le _
      | beside hx hp => exact (hbeside _ hx).path hp
      | inner hx hp =>
        obtain ⟨j, rfl, hn⟩ := hinner _ hx
        exact Nat.succ_le_succ (hn.path hp)
    · intro x k m ha hp
      cases ha with
      | here hx => exact (hapart _ hx).path hp
      | apart hx ha => exact (hapart _ hx).apart ha hp
      | beside hx ha => exact (hbeside _ hx).apart ha hp
      | inner hx ha => exact (hinner _ hx).nests.apart ha hp

end Node

abbrev Expr.Nests (b : Nat) (e : Expr) : Prop := (Node.expr e).Nests b

abbrev Expr.NestsBelow (b : Nat) (e : Expr) : Prop := (Node.expr e).NestsBelow b

abbrev FunctionDef.Nests (b : Nat) (f : FunctionDef) : Prop := (Node.function f).Nests b

abbrev ClassDef.Nests (b : Nat) (c : ClassDef) : Prop := (Node.classOf c).Nests b

abbrev Statement.Nests (b : Nat) (s : Statement) : Prop := (Node.statement s).Nests b

abbrev Statement.NestsBelow (b : Nat) (s : Statement) : Prop := (Node.statement s).NestsBelow b

def Argument.NestsBelow (b : Nat) (a : Argument) : Prop := ∀ n ∈ a.nodes, n.NestsBelow b

def ArrayElement.NestsBelow (b : Nat) (a : ArrayElement) : Prop := ∀ n ∈ a.nodes, n.NestsBelow b

def PropertyKey.NestsBelow (b : Nat) (k : PropertyKey) : Prop := ∀ n ∈ k.nodes, n.NestsBelow b

def Param.NestsBelow (b : Nat) (p : Param) : Prop := ∀ e ∈ p.default?, e.NestsBelow b

def FunctionBody.NestsBelow (b : Nat) (x : FunctionBody) : Prop := ∀ n ∈ x.inner, n.NestsBelow b

structure ObjectProperty.Nests (b : Nat) (p : ObjectProperty) : Prop where
  beside : ∀ n ∈ p.beside, n.Nests b
  inner : ∀ n ∈ p.inner, n.NestsBelow b

structure MemberForm.Nests (b : Nat) (x : MemberForm) : Prop where
  beside : ∀ n ∈ x.beside, n.Nests b
  inner : ∀ n ∈ x.inner, n.NestsBelow b

theorem forall_mem_flatMap {α : Type} {P : Node → Prop} {nodes : α → List Node} {as : List α} :
    (∀ n ∈ as.flatMap nodes, P n) ↔ ∀ a ∈ as, ∀ n ∈ nodes a, P n := by
  constructor
  · exact fun h a ha n hn => h n (List.mem_flatMap.2 ⟨a, ha, hn⟩)
  · intro h n hn
    obtain ⟨a, ha, hn⟩ := List.mem_flatMap.1 hn
    exact h a ha n hn

section
variable {b : Nat} {e e' e'' : Expr} {as : List Argument} {s : Span} {optional : Bool}

namespace Expr

theorem nests_of_parts (xs ys : List Node) (hbeside : e.beside = xs) (hinner : e.inner = ys)
    (hapart : (Node.expr e).apart = []) (hxs : ∀ n ∈ xs, n.Nests b) (hys : ∀ n ∈ ys, n.NestsBelow b) :
    e.Nests b := by
  subst hbeside hinner
  exact Node.nests_iff.2 ⟨hxs, hys, by simp [hapart]⟩

theorem nests_leaf (hbeside : e.beside = []) (hinner : e.inner = [])
    (hapart : (Node.expr e).apart = []) : e.Nests b :=
  nests_of_parts [] [] hbeside hinner hapart (List.forall_mem_nil _) (List.forall_mem_nil _)

theorem nests_template {parts : List TemplateElement}
    (h : ∀ p ∈ parts, ∀ n ∈ p.nodes, n.Nests nestingLimit) : (Expr.template parts s).Nests b :=
  Node.nests_iff.2 ⟨List.forall_mem_nil _, List.forall_mem_nil _, forall_mem_flatMap.2 h⟩

theorem nests_array {es : List ArrayElement} (h : ∀ a ∈ es, a.NestsBelow b) :
    (Expr.array es s).Nests b :=
  nests_of_parts [] (es.flatMap ArrayElement.nodes) rfl rfl rfl (List.forall_mem_nil _)
    (forall_mem_flatMap.2 h)

theorem nests_object {ps : List ObjectProperty} (h : ∀ p ∈ ps, p.Nests b) :
    (Expr.object ps s).Nests b :=
  nests_of_parts (ps.flatMap ObjectProperty.beside) (ps.flatMap ObjectProperty.inner) rfl rfl rfl
    (forall_mem_flatMap.2 fun p hp => (h p hp).beside)
    (forall_mem_flatMap.2 fun p hp => (h p hp).inner)

theorem nests_of_beside {n : Node} (hbeside : e.beside = [n]) (hinner : e.inner = [])
    (hapart : (Node.expr e).apart = []) (h : n.Nests b) : e.Nests b :=
  nests_of_parts [n] [] hbeside hinner hapart (List.forall_mem_singleton.2 h) (List.forall_mem_nil _)

theorem nests_function {f : FunctionDef} (h : f.Nests b) : (Expr.function f).Nests b :=
  nests_of_beside rfl rfl rfl h

theorem nests_classOf {c : ClassDef} (h : c.Nests b) : (Expr.classOf c).Nests b :=
  nests_of_beside rfl rfl rfl h

theorem nests_member {name : String} (h : e.Nests b) : (Expr.member e name optional s).Nests b :=
  nests_of_beside rfl rfl rfl h

theorem nests_index (h : e.Nests b) (h' : e'.NestsBelow b) : (Expr.index e e' optional s).Nests b :=
  nests_of_parts [.expr e] [.expr e'] rfl rfl rfl (List.forall_mem_singleton.2 h)
    (List.forall_mem_singleton.2 h')

theorem nests_call (h : e.Nests b) (has : ∀ a ∈ as, a.NestsBelow b) :
    (Expr.call e as optional s).Nests b :=
  nests_of_parts [.expr e] (as.flatMap Argument.nodes) rfl rfl rfl (List.forall_mem_singleton.2 h)
    (forall_mem_flatMap.2 has)

theorem nests_new (h : e.Nests b) (has : ∀ a ∈ as, a.NestsBelow b) : (Expr.new e as s).Nests b :=
  nests_of_parts [.expr e] (as.flatMap Argument.nodes) rfl rfl rfl (List.forall_mem_singleton.2 h)
    (forall_mem_flatMap.2 has)

theorem nests_superCall (has : ∀ a ∈ as, a.NestsBelow b) : (Expr.superCall as s).Nests b :=
  nests_of_parts [] (as.flatMap Argument.nodes) rfl rfl rfl (List.forall_mem_nil _)
    (forall_mem_flatMap.2 has)

theorem nests_unary {op : UnaryOp} (h : e.NestsBelow b) : (Expr.unary op e s).Nests b :=
  nests_of_parts [] [.expr e] rfl rfl rfl (List.forall_mem_nil _) (List.forall_mem_singleton.2 h)

theorem nests_update {op : UpdateOp} {before : Bool} (h : if before then e.NestsBelow b else e.Nests b) :
    (Expr.update op before e s).Nests b := by
  cases before with
  | false => exact nests_of_beside rfl rfl rfl h
  | true =>
    exact nests_of_parts [] [.expr e] rfl rfl rfl (List.forall_mem_nil _)
      (List.forall_mem_singleton.2 h)

theorem nests_join {op : InfixOp} (h : e.Nests b) (h' : e'.Nests b) :
    (Grammar.join op e e' s).Nests b := by
  have hxs : ∀ n ∈ [Node.expr e, .expr e'], n.Nests b :=
    List.forall_mem_cons.2 ⟨h, List.forall_mem_singleton.2 h'⟩
  cases op with
  | binary op => exact nests_of_parts _ [] rfl rfl rfl hxs (List.forall_mem_nil _)
  | logical op => exact nests_of_parts _ [] rfl rfl rfl hxs (List.forall_mem_nil _)

theorem nests_conditional (h : e.Nests b) (h' : e'.NestsBelow b) (h'' : e''.NestsBelow b) :
    (Expr.conditional e e' e'' s).Nests b :=
  nests_of_parts [.expr e] [.expr e', .expr e''] rfl rfl rfl (List.forall_mem_singleton.2 h)
    (List.forall_mem_cons.2 ⟨h', List.forall_mem_singleton.2 h''⟩)

theorem nests_assign {op : AssignOp} (h : e.Nests b) (h' : e'.NestsBelow b) :
    (Expr.assign op e e' s).Nests b :=
  nests_of_parts [.expr e] [.expr e'] rfl rfl rfl (List.forall_mem_singleton.2 h)
    (List.forall_mem_singleton.2 h')

theorem nestsBelow_sequence {es : List Expr} (hb : 0 < b) (h : ∀ e ∈ es, e.NestsBelow b) :
    (Expr.sequence es s).NestsBelow b := by
  obtain ⟨j, rfl⟩ : ∃ j, b = j + 1 := ⟨b - 1, by omega⟩
  refine ⟨j, rfl, ?_⟩
  rw [Node.nests_iff]
  refine ⟨?_, List.forall_mem_nil _, List.forall_mem_nil _⟩
  intro x hx
  obtain ⟨e, he, rfl⟩ := List.mem_map.1 hx
  obtain ⟨i, hi, hn⟩ := h e he
  cases hi
  exact hn

end Expr

theorem ObjectProperty.nests_beside {k : PropertyKey} (hk : k.NestsBelow b) (hlevel : e.isLevel = false)
    (h : e.Nests b) : (ObjectProperty.value k e).Nests b :=
  ⟨by simpa [ObjectProperty.beside, hlevel] using h,
    by simpa [ObjectProperty.inner, hlevel, PropertyKey.NestsBelow] using hk⟩

theorem ObjectProperty.nests_value {k : PropertyKey} (hk : k.NestsBelow b) (h : e.NestsBelow b) :
    (ObjectProperty.value k e).Nests b := by
  cases hlevel : e.isLevel with
  | false => exact nests_beside hk hlevel h.nests
  | true =>
    refine ⟨by simp [ObjectProperty.beside, hlevel], fun n hn => ?_⟩
    rcases List.mem_append.1 hn with hn | hn
    · exact hk n hn
    · obtain rfl : n = .expr e := by simpa [hlevel] using hn
      exact h

theorem FunctionDef.nests_of_parts {f : FunctionDef} (hparams : ∀ p ∈ f.params, p.NestsBelow b)
    (hbody : f.body.NestsBelow b) : f.Nests b := by
  rw [FunctionDef.Nests, Node.nests_iff]
  refine ⟨List.forall_mem_nil _, ?_, List.forall_mem_nil _⟩
  intro n hn
  rcases List.mem_append.1 hn with hn | hn
  · obtain ⟨p, hp, hn⟩ := List.mem_flatMap.1 hn
    obtain ⟨e, he, rfl⟩ := List.mem_map.1 hn
    exact hparams p hp e (Option.mem_toList.1 he)
  · exact hbody n hn

theorem ClassDef.nests_of_parts {c : ClassDef} (hsuper : ∀ e ∈ c.superclass, e.Nests b)
    (hconstructor : ∀ f ∈ c.constructor?, f.Nests b) (hmembers : ∀ m ∈ c.members, m.kind.Nests b) :
    c.Nests b := by
  rw [ClassDef.Nests, Node.nests_iff]
  refine ⟨?_, forall_mem_flatMap.2 fun m hm => (hmembers m hm).inner, List.forall_mem_nil _⟩
  intro n hn
  rcases List.mem_append.1 hn with hn | hn
  · rcases List.mem_append.1 hn with hn | hn
    · obtain ⟨e, he, rfl⟩ := List.mem_map.1 hn
      exact hsuper e (Option.mem_toList.1 he)
    · obtain ⟨f, hf, rfl⟩ := List.mem_map.1 hn
      exact hconstructor f (Option.mem_toList.1 hf)
  · exact forall_mem_flatMap.2 (fun m hm => (hmembers m hm).beside) n hn

theorem Statement.nests_of_parts {s : Statement} (hbeside : ∀ n ∈ s.beside, n.Nests b)
    (hinner : ∀ n ∈ s.inner, n.NestsBelow b) : s.Nests b :=
  Node.nests_iff.2 ⟨hbeside, hinner, List.forall_mem_nil _⟩

end

end Typings
