import Typings.Syntax.Statement

namespace Typings

inductive Node
  | expr (e : Expr)
  | function (f : FunctionDef)
  | classOf (c : ClassDef)
  | statement (s : Statement)

def TemplateElement.nodes : TemplateElement → List Node
  | .text _ => []
  | .value e => [.expr e]

def ArrayElement.nodes : ArrayElement → List Node
  | .value e | .spread e => [.expr e]
  | .hole => []

def PropertyKey.nodes : PropertyKey → List Node
  | .named _ => []
  | .computed e => [.expr e]

def ObjectProperty.nodes : ObjectProperty → List Node
  | .value k e => k.nodes ++ [.expr e]
  | .getter k f | .setter k f => k.nodes ++ [.function f]
  | .spread e => [.expr e]

def Argument.nodes : Argument → List Node
  | .value e | .spread e => [.expr e]

def Param.nodes (p : Param) : List Node := p.default?.toList.map .expr

/-- A body in braces is read when its nodes are asked for; one that cannot be read has none. -/
def FunctionBody.nodes : FunctionBody → List Node
  | .block ts _ => ((Statement.ofTokens ts).toOption.getD []).map .statement
  | .concise e => [.expr e]

def FunctionDef.nodes (f : FunctionDef) : List Node := f.params.flatMap Param.nodes ++ f.body.nodes

def MemberForm.nodes : MemberForm → List Node
  | .method f | .getter f | .setter f => [.function f]
  | .field init => init.toList.map .expr

def ClassDef.nodes (c : ClassDef) : List Node :=
  c.superclass.toList.map .expr ++ c.constructor?.toList.map .function ++
    c.members.flatMap (·.kind.nodes)

def Expr.nodes : Expr → List Node
  | .number .. | .string .. | .boolean .. | .null .. | .identifier .. | .this .. | .superMember .. => []
  | .template parts _ => parts.flatMap TemplateElement.nodes
  | .array es _ => es.flatMap ArrayElement.nodes
  | .object ps _ => ps.flatMap ObjectProperty.nodes
  | .function f => [.function f]
  | .classOf c => [.classOf c]
  | .member o _ _ _ => [.expr o]
  | .index o i _ _ => [.expr o, .expr i]
  | .call f as _ _ | .new f as _ => .expr f :: as.flatMap Argument.nodes
  | .superCall as _ => as.flatMap Argument.nodes
  | .unary _ e _ | .update _ _ e _ => [.expr e]
  | .binary _ l r _ | .logical _ l r _ => [.expr l, .expr r]
  | .conditional t c a _ => [.expr t, .expr c, .expr a]
  | .assign _ t v _ => [.expr t, .expr v]
  | .sequence es _ => es.map .expr

def Statement.nodes : Statement → List Node
  | .declaration _ ds _ => ds.flatMap fun d => d.2.toList.map .expr
  | .function f => [.function f]
  | .classOf c => [.classOf c]
  | .expression e _ | .throws e _ => [.expr e]
  | .returns v _ => v.toList.map .expr
  | .branch e a b _ => [.expr e, .statement a] ++ b.toList.map .statement
  | .block ss _ => ss.map .statement
  | .empty _ | .unsupported .. => []

def Node.children : Node → List Node
  | .expr e => e.nodes
  | .function f => f.nodes
  | .classOf c => c.nodes
  | .statement s => s.nodes

def Node.Each (P : Node → Prop) (ns : List Node) : Prop := ∀ n ∈ ns, P n

namespace Node

variable {P : Node → Prop} {n : Node} {ns ns' : List Node}

theorem Each.head (h : Each P (n :: ns)) : P n := (List.forall_mem_cons.1 h).1

theorem Each.tail (h : Each P (n :: ns)) : Each P ns := (List.forall_mem_cons.1 h).2

theorem each_append : Each P (ns ++ ns') ↔ Each P ns ∧ Each P ns' := List.forall_mem_append

theorem each_flatMap_cons {α : Type} {nodes : α → List Node} {a : α} {l : List α} :
    Each P ((a :: l).flatMap nodes) ↔ Each P (nodes a) ∧ Each P (l.flatMap nodes) := by
  rw [List.flatMap_cons, each_append]

theorem Each.of_mem {α : Type} {nodes : α → List Node} {a : α} {l : List α}
    (h : Each P (l.flatMap nodes)) (ha : a ∈ l) : Each P (nodes a) :=
  fun n hn => h n (List.mem_flatMap.2 ⟨a, ha, hn⟩)

end Node

def DefaultExport.nodes : DefaultExport → List Node
  | .classOf c => [.classOf c]
  | .function f => [.function f]
  | .expression e => [.expr e]

def ModuleItem.nodes : ModuleItem → List Node
  | .exportDefault v _ => v.nodes
  | .exportDeclaration s | .statement s => [.statement s]
  | .importDecl _ | .exportNamed .. => []

inductive Module.Has (m : Module) : Node → Prop
  | item {i : ModuleItem} {n : Node} (hi : i ∈ m.items) (hn : n ∈ i.nodes) : m.Has n
  | child {n n' : Node} (hn : m.Has n) (hn' : n' ∈ n.children) : m.Has n'

def Module.nodesAt (m : Module) : Nat → List Node
  | 0 => m.items.flatMap ModuleItem.nodes
  | k + 1 => (m.nodesAt k).flatMap Node.children

theorem Module.has_iff_nodesAt {m : Module} {n : Node} : m.Has n ↔ ∃ k, n ∈ m.nodesAt k := by
  constructor
  · intro h
    induction h with
    | item hi hn => exact ⟨0, List.mem_flatMap.2 ⟨_, hi, hn⟩⟩
    | child _ hn' ih =>
      obtain ⟨k, hk⟩ := ih
      exact ⟨k + 1, List.mem_flatMap.2 ⟨_, hk, hn'⟩⟩
  · rintro ⟨k, hk⟩
    induction k generalizing n with
    | zero =>
      obtain ⟨i, hi, hn⟩ := List.mem_flatMap.1 hk
      exact .item hi hn
    | succ k ih =>
      obtain ⟨n', hn', hn⟩ := List.mem_flatMap.1 hk
      exact .child (ih hn') hn

def Node.span : Node → Span
  | .expr e => e.span
  | .function f => f.span
  | .classOf c => c.span
  | .statement s => s.span

inductive Part
  | node (n : Node)
  | body (ts : List Lexeme)

/-- What is read and has parts. -/
class Carrier (α : Type) where
  parts : α → List Part

open Carrier

instance : Carrier Expr := ⟨fun e => [.node (.expr e)]⟩
instance : Carrier FunctionDef := ⟨fun f => [.node (.function f)]⟩
instance : Carrier ClassDef := ⟨fun c => [.node (.classOf c)]⟩
instance : Carrier Statement := ⟨fun s => [.node (.statement s)]⟩
instance {α : Type} [Carrier α] : Carrier (Option α) := ⟨fun a => a.toList.flatMap parts⟩
instance {α : Type} [Carrier α] : Carrier (List α) := ⟨fun as => as.flatMap parts⟩
instance {α β : Type} [Carrier α] [Carrier β] : Carrier (α ⊕ β) := ⟨Sum.elim parts parts⟩
instance : Carrier (String × Option Expr) := ⟨fun d => parts d.2⟩
instance : Carrier TemplateElement := ⟨fun e => e.nodes.map .node⟩
instance : Carrier ArrayElement := ⟨fun e => e.nodes.map .node⟩
instance : Carrier PropertyKey := ⟨fun k => k.nodes.map .node⟩
instance : Carrier ObjectProperty := ⟨fun p => p.nodes.map .node⟩
instance : Carrier Argument := ⟨fun a => a.nodes.map .node⟩
instance : Carrier Param := ⟨fun p => parts p.default?⟩
instance : Carrier ClassMember := ⟨fun m => m.kind.nodes.map .node⟩
instance : Carrier DefaultExport := ⟨fun v => v.nodes.map .node⟩
instance : Carrier ModuleItem := ⟨fun i => i.nodes.map .node⟩

instance : Carrier FunctionBody := ⟨fun
  | .block ts _ => [.body ts]
  | .concise e => parts e⟩

instance : Carrier Grammar.ClassItem := ⟨fun
  | .separator => []
  | .constructor f => parts f
  | .member m => parts m⟩

/-- The parts directly in an expression, in the order in which they are read. -/
def Expr.parts : Expr → List Part
  | .number .. | .string .. | .boolean .. | .null .. | .identifier .. | .this ..
  | .superMember .. => []
  | .template es _ => Carrier.parts es
  | .array es _ => Carrier.parts es
  | .object ps _ => Carrier.parts ps
  | .function f => Carrier.parts f
  | .classOf c => Carrier.parts c
  | .member o _ _ _ => Carrier.parts o
  | .index o i _ _ => Carrier.parts o ++ Carrier.parts i
  | .call f as _ _ | .new f as _ => Carrier.parts f ++ Carrier.parts as
  | .superCall as _ => Carrier.parts as
  | .unary _ e _ | .update _ _ e _ => Carrier.parts e
  | .binary _ l r _ | .logical _ l r _ => Carrier.parts l ++ Carrier.parts r
  | .conditional t c a _ => Carrier.parts t ++ Carrier.parts c ++ Carrier.parts a
  | .assign _ t v _ => Carrier.parts t ++ Carrier.parts v
  | .sequence es _ => Carrier.parts es

def Statement.parts : Statement → List Part
  | .declaration _ ds _ => Carrier.parts ds
  | .function f => Carrier.parts f
  | .classOf c => Carrier.parts c
  | .expression e _ | .throws e _ => Carrier.parts e
  | .returns v _ => Carrier.parts v
  | .branch e a b _ => Carrier.parts e ++ Carrier.parts a ++ Carrier.parts b
  | .block ss _ => Carrier.parts ss
  | .empty _ | .unsupported .. => []

def Node.parts : Node → List Part
  | .expr e => e.parts
  | .function f => Carrier.parts f.params ++ Carrier.parts f.body
  | .classOf c =>
    Carrier.parts c.superclass ++ Carrier.parts c.constructor? ++ Carrier.parts c.members
  | .statement s => s.parts

/-- The children of a node are among its parts, or they are statements of a body among them. -/
theorem Node.mem_children {n m : Node} (h : m ∈ n.children) : .node m ∈ n.parts ∨
    ∃ ts ss s, .body ts ∈ n.parts ∧ Statement.ofTokens ts = .ok ss ∧ s ∈ ss ∧ m = .statement s := by
  have hcomm : ∀ {n : Node}, n = m ↔ m = n := eq_comm
  cases n with
  | expr e =>
    left
    cases e <;> simp_all [Node.children, Node.parts, Expr.nodes, Expr.parts, Carrier.parts]
  | statement s =>
    left
    cases s <;>
      simp_all [Node.children, Node.parts, Statement.nodes, Statement.parts, Carrier.parts]
  | classOf c =>
    left
    simp_all [Node.children, Node.parts, ClassDef.nodes, Carrier.parts]
  | function f =>
    obtain ⟨name, params, body, isArrow, span⟩ := f
    rcases List.mem_append.1 h with h | h
    · left
      simp_all [Node.parts, Param.nodes, Carrier.parts]
    · cases body with
      | concise e => 
        left
        simp_all [Node.parts, FunctionBody.nodes, Carrier.parts]
      | block ts i =>
        cases hss : Statement.ofTokens ts with
        | error e => simp [FunctionBody.nodes, hss, Except.toOption] at h
        | ok ss =>
          obtain ⟨s, hs, rfl⟩ : ∃ s ∈ ss, Node.statement s = m := by
            simpa [FunctionBody.nodes, hss, Except.toOption] using h
          exact .inr ⟨ts, ss, s, by simp [Node.parts, Carrier.parts], hss, hs, rfl⟩

end Typings
