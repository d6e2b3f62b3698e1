import Typings.Proofs.Eval.ComposedValues
import Typings.Proofs.Syntax.Tree

namespace Typings

/-- The parts that running code is put together from, where `B r` is about the steps in the scope
`r` and `Has` about the code. What runs in a new scope may rely on that scope. -/
structure CodeRules (m : Machine) (Has : Node → Prop) (B : Nat → StepProperty) : Prop where
  values : ∀ r, ValueParts m (B r)
  superCall : ∀ r scope args, B r _ (m.superCall scope args)
  children : ∀ {n}, Has n → Node.Each Has n.children
  script : ∀ {body}, Has (.function body) → ∀ r name home,
    B r _ (EvalM.make (·.addFunction { name, code := .script body r home }))
  frame : ∀ r {f}, f.pending = none → B r _ (EvalM.make (·.addFrame f))
  setShared : ∀ r c (f : PropertyMap → PropertyMap),
    B r Unit (modify (·.setClass c fun cell => { cell with shared := f cell.shared }))
  inside : ∀ {α : Type} {f : Nat → EvalM α} r frame, (∀ inner, Composed (B inner) (f inner)) →
    Composed (B r) (EvalM.make (fun s => s.addScope { s.inside r with frame }) >>= f)
  newClass : ∀ {α : Type} {body} {f : Nat → Nat → EvalM α}, Has (.classOf body) →
    ∀ r superclass name, (∀ c env, Composed (B env) (f c env)) → Composed (B r) (do
      let s ← get
      let env ← EvalM.make (·.addScope (s.inside r))
      let c ← EvalM.make (·.addClass { name, superclass, body, env, source := s.sourceOf? r })
      f c env)

namespace EvalM

variable {B : Nat → StepProperty} {Has : Node → Prop} {m : Machine}

section
variable (w : CodeRules m Has B)
include w

theorem declareConstant_composed (r scope : Nat) (name : String) (v : Value) :
    Composed (B r) (modify (·.declareConstant scope name v) : EvalM Unit) :=
  (w.values r).modified fun _ => .setBinding scope name _

theorem gather_composed (r : Nat) (items : Array Value) : Composed (B r) (make (·.gather items)) :=
  (w.values r).made fun _ => .gather items

theorem newFunction_composed {body : FunctionDef} (h : Has (.function body)) (scope : Nat)
    (given : Option String) : Composed (B scope) (newFunction body scope given) :=
  .given (w.script h scope _ none)

theorem putMember_composed (r c : Nat) (isStatic : Bool) (f : PropertyMap → PropertyMap) :
    Composed (B r) (modify (·.setClass c fun cell =>
      if isStatic then { cell with statics := f cell.statics }
      else { cell with shared := f cell.shared }) : EvalM Unit) := by
  cases isStatic with
  | true => exact (w.values r).modified fun _ => .setStatics c f
  | false => exact .given (w.setShared r c f)

theorem addMember_composed (c env : Nat) {member : ClassMember}
    (h : Node.Each Has member.kind.nodes) : Composed (B env) (addMember c env member) := by
  have hput := fun f => putMember_composed w env c member.isStatic f
  have hscript := fun body (h : Has (.function body)) =>
    Composed.given (w.script h env member.name (some c))
  unfold addMember
  cases hkind : member.kind with
  | method body =>
    exact (hscript body (hkind ▸ h).head).bind fun v => hput (·.insert member.name (.hidden v))
  | getter body =>
    exact (hscript body (hkind ▸ h).head).bind fun v =>
      hput (·.insertAccessor member.name (some v) none false)
  | setter body =>
    exact (hscript body (hkind ▸ h).head).bind fun v =>
      hput (·.insertAccessor member.name none (some v) false)
  | field init => exact .pure _

/-- What runs after a class is made may rely on the scope around its members. -/
theorem newClass_composed {α : Type} {f : Nat × Nat → EvalM α} {body : ClassDef}
    (h : Has (.classOf body)) (superclass : Value) (scope : Nat) (given : Option String)
    (hf : ∀ c env, Composed (B env) (f (c, env))) :
    Composed (B scope) (newClass body superclass scope given >>= f) := by
  have hmembers : Node.Each Has (body.members.flatMap (·.kind.nodes)) :=
    (Node.each_append.1 (w.children h)).2
  simp only [newClass, bind_assoc]
  refine w.newClass h scope superclass _ fun c env => ?_
  refine Composed.bind (.forM fun member hmember => ?_) fun _ => ?_
  · exact addMember_composed w c env (hmembers.of_mem hmember)
  · split
    · rw [bind_assoc]
      exact (declareConstant_composed w env env _ _).bind fun _ => hf c env
    · exact hf c env

theorem frameScope_composed {α : Type} {f : Nat × Nat → EvalM α} (env : Nat) {frame : Frame}
    (hframe : frame.pending = none) (hf : ∀ r inner, Composed (B inner) (f (r, inner))) :
    Composed (B env) (frameScope env frame >>= f) := by
  simp only [frameScope, bind_assoc, pure_bind]
  exact Composed.bind (.given (w.frame env hframe)) fun r => w.inside env _ (hf r)

theorem staticScope_composed {α : Type} {f : Nat → EvalM α} (c env : Nat)
    (hf : ∀ inner, Composed (B inner) (f inner)) : Composed (B env) (staticScope c env >>= f) := by
  rw [staticScope, bind_assoc]
  exact Composed.bind (.given (w.frame env rfl)) fun _ => w.inside env _ hf

end

section
variable {B : StepProperty} {x : EvalM Link} {rest : EvalM (List Value)}
variable (hx : Composed B x) (hrest : Composed B rest)
include hx hrest

theorem value_composed :
    Composed B (do
      let v ← valueOf x
      return v :: (← holding [v] rest)) :=
  (valueOf_composed hx).bind fun _ => (hrest.holding _).bind fun _ => .pure _

theorem spread_composed :
    Composed B (do
      let items ← spreadItems (← valueOf x)
      return items ++ (← holding items rest)) :=
  (valueOf_composed hx).bind fun v => (spreadItems_composed v).bind fun _ =>
    (hrest.holding _).bind fun _ => .pure _

end

mutual

theorem link_composed (w : CodeRules m Has B) (scope : Nat) (given : Option String) :
    ∀ e : Expr, Has (.expr e) → Composed (B scope) (link m scope given e)
  | .number .., _ | .string .., _ | .boolean .., _ | .null _, _ => by
    rw [link]
    exact .pure _
  | .template parts _, h => by
    rw [link]
    exact (templateText_composed w scope parts (w.children h)).bind fun _ => .pure _
  | .identifier name _, _ => by
    rw [link]
    exact plain_composed (nameValue_composed scope name)
  | .this _, _ => by
    rw [link]
    exact plain_composed (receiver_composed scope)
  | .array elements _, h => by
    rw [link]
    exact (elementValues_composed w scope elements (w.children h)).bind fun _ =>
      plain_composed (gather_composed w scope _)
  | .object properties _, h => by
    rw [link]
    refine Composed.bind ((w.values scope).made fun _ => .addObject) fun object => ?_
    exact ((addProperties_composed w scope object properties (w.children h)).holding _).bind
      fun _ => .pure _
  | .function body, h => by
    rw [link]
    exact plain_composed (newFunction_composed w (w.children h).head scope given)
  | .classOf body, h => by
    rw [link]
    exact (classValue_composed w scope given body (w.children h).head).bind fun _ => .pure _
  | .member object key optional _, h => by
    rw [link]
    exact (link_composed w scope none object (w.children h).head).bind fun l =>
      memberLink_composed (w.values scope) (.pure key) optional l
  | .index object index optional _, h => by
    rw [link]
    have hkey := keyOf_composed (link_composed w scope none index (w.children h).tail.head)
    exact (link_composed w scope none object (w.children h).head).bind fun l =>
      memberLink_composed (w.values scope) hkey optional l
  | .call callee args optional _, h => by
    rw [link]
    have hargs := argumentValues_composed w scope args (w.children h).tail
    exact (link_composed w scope none callee (w.children h).head).bind fun l =>
      callLink_composed (w.values scope) hargs _ optional l
  | .superMember key _, _ => by
    rw [link]
    exact superGet_composed (w.values scope) scope key
  | .new callee args _, h => by
    rw [link]
    exact newLink_composed (w.values scope) (link_composed w scope none callee (w.children h).head)
      (argumentValues_composed w scope args (w.children h).tail) _
  | .superCall args _, h => by
    rw [link]
    exact (argumentValues_composed w scope args (w.children h)).bind fun args =>
      (Composed.given (w.superCall scope scope args)).bind fun _ => .pure _
  | .unary op operand _, h => by
    have hoperand := link_composed w scope none operand (w.children h).head
    cases op with
    | typeof =>
      rw [link]
      exact typeofLink_composed hoperand scope _
    | delete =>
      rw [link]
      exact (deleteAt_composed w scope operand (w.children h).head).bind fun _ => .pure _
    | _ =>
      simp only [link]
      exact operatorLink_composed hoperand _
  | .update op before target _, h => by
    rw [link]
    exact (placeOf_composed w scope target (w.children h).head).bind fun place =>
      updateLink_composed (w.values scope) scope op before place
  | .binary op left right _, h => by
    rw [link]
    exact binaryLink_composed (link_composed w scope none left (w.children h).head)
      (link_composed w scope none right (w.children h).tail.head) op
  | .logical op left right _, h => by
    rw [link]
    exact logicalLink_composed (link_composed w scope none left (w.children h).head)
      (link_composed w scope none right (w.children h).tail.head) op
  | .conditional test consequent alternate _, h => by
    rw [link]
    exact conditionalLink_composed (link_composed w scope none test (w.children h).head)
      (link_composed w scope none consequent (w.children h).tail.head)
      (link_composed w scope none alternate (w.children h).tail.tail.head)
  | .assign op target value _, h => by
    rw [link]
    have hvalue := fun given => link_composed w scope given value (w.children h).tail.head
    exact (placeOf_composed w scope target (w.children h).head).bind fun place =>
      assignLink_composed (w.values scope) hvalue scope op _ place
  | .sequence expressions _, h => by
    rw [link]
    exact plain_composed (lastValue_composed w scope _ expressions (w.children h))

theorem templateText_composed (w : CodeRules m Has B) (scope : Nat) :
    ∀ parts : List TemplateElement, Node.Each Has (parts.flatMap TemplateElement.nodes) →
      Composed (B scope) (templateText m scope parts)
  | [], _ => by
    rw [templateText]
    exact .pure _
  | .text t :: parts, h => by
    rw [templateText]
    exact (templateText_composed w scope parts h).bind fun _ => .pure _
  | .value e :: parts, h => by
    rw [templateText]
    exact (valueOf_composed (link_composed w scope none e h.head)).bind fun v =>
      (textOf_composed v).bind fun _ =>
        (templateText_composed w scope parts h.tail).bind fun _ => .pure _

theorem elementValues_composed (w : CodeRules m Has B) (scope : Nat) :
    ∀ elements : List ArrayElement, Node.Each Has (elements.flatMap ArrayElement.nodes) →
      Composed (B scope) (elementValues m scope elements)
  | [], _ => by
    rw [elementValues]
    exact .pure _
  | .value e :: rest, h => by
    rw [elementValues]
    exact value_composed (link_composed w scope none e h.head)
      (elementValues_composed w scope rest h.tail)
  | .spread e :: rest, h => by
    rw [elementValues]
    exact spread_composed (link_composed w scope none e h.head)
      (elementValues_composed w scope rest h.tail)
  | .hole :: rest, h => by
    rw [elementValues]
    exact (elementValues_composed w scope rest h).bind fun _ => .pure _

theorem argumentValues_composed (w : CodeRules m Has B) (scope : Nat) :
    ∀ args : List Argument, Node.Each Has (args.flatMap Argument.nodes) →
      Composed (B scope) (argumentValues m scope args)
  | [], _ => by
    rw [argumentValues]
    exact .pure _
  | .value e :: rest, h => by
    rw [argumentValues]
    exact value_composed (link_composed w scope none e h.head)
      (argumentValues_composed w scope rest h.tail)
  | .spread e :: rest, h => by
    rw [argumentValues]
    exact spread_composed (link_composed w scope none e h.head)
      (argumentValues_composed w scope rest h.tail)

theorem lastValue_composed (w : CodeRules m Has B) (scope : Nat) (last : Value) :
    ∀ es : List Expr, Node.Each Has (es.map .expr) → Composed (B scope) (lastValue m scope last es)
  | [], _ => by
    rw [lastValue]
    exact .pure last
  | e :: rest, h => by
    rw [lastValue]
    exact ((valueOf_composed (link_composed w scope none e h.head)).holding _).bind fun v =>
      lastValue_composed w scope v rest h.tail

theorem keyText_composed (w : CodeRules m Has B) (scope : Nat) :
    ∀ key : PropertyKey, Node.Each Has key.nodes → Composed (B scope) (keyText m scope key)
  | .named name, _ => by
    rw [keyText]
    exact .pure name
  | .computed e, h => by
    rw [keyText]
    exact keyOf_composed (link_composed w scope none e h.head)

theorem addProperties_composed (w : CodeRules m Has B) (scope : Nat) (object : Value) :
    ∀ ps : List ObjectProperty, Node.Each Has (ps.flatMap ObjectProperty.nodes) →
      Composed (B scope) (addProperties m scope object ps)
  | [], _ => by
    rw [addProperties]
    exact .pure _
  | .value k e :: rest, h => by
    rw [addProperties]
    obtain ⟨hp, hrest⟩ := Node.each_flatMap_cons.1 h
    obtain ⟨hk, he⟩ := Node.each_append.1 hp
    exact (keyText_composed w scope k hk).bind fun key =>
      (valueOf_composed (link_composed w scope (some key) e he.head)).bind fun v =>
        (setOwn_composed (w.values scope) object _).bind fun _ =>
          addProperties_composed w scope object rest hrest
  | .getter k body :: rest, h | .setter k body :: rest, h => by
    rw [addProperties]
    obtain ⟨hp, hrest⟩ := Node.each_flatMap_cons.1 h
    obtain ⟨hk, hbody⟩ := Node.each_append.1 hp
    exact (keyText_composed w scope k hk).bind fun key =>
      (newFunction_composed w hbody.head scope (some key)).bind fun f =>
        (setOwn_composed (w.values scope) object _).bind fun _ =>
          addProperties_composed w scope object rest hrest
  | .spread e :: rest, h => by
    rw [addProperties]
    exact (valueOf_composed (link_composed w scope none e h.head)).bind fun source => .read fun s =>
      (copyProperties_composed (w.values scope) object source _).bind fun _ =>
        addProperties_composed w scope object rest h.tail

theorem placeOf_composed (w : CodeRules m Has B) (scope : Nat) :
    ∀ e : Expr, Has (.expr e) → Composed (B scope) (placeOf m scope e)
  | .identifier name _, _ => by
    rw [placeOf]
    exact .pure _
  | .member object key _ _, h => by
    rw [placeOf]
    exact (valueOf_composed (link_composed w scope none object (w.children h).head)).bind fun _ =>
      .pure _
  | .index object index _ _, h => by
    rw [placeOf]
    have hindex := valueOf_composed (link_composed w scope none index (w.children h).tail.head)
    exact (valueOf_composed (link_composed w scope none object (w.children h).head)).bind
      fun base => (hindex.holding _).bind fun v => (textOf_composed v).bind fun _ => .pure _
  | .superMember key _, _ => by
    rw [placeOf]
    exact .pure _
  | .number .., _ | .string .., _ | .boolean .., _ | .null .., _ | .template .., _ | .this .., _
  | .array .., _ | .object .., _ | .function .., _ | .classOf .., _ | .call .., _ | .new .., _
  | .superCall .., _ | .unary .., _ | .update .., _ | .binary .., _ | .logical .., _
  | .conditional .., _ | .assign .., _ | .sequence .., _ => by
    simp only [placeOf]
    exact .fail _

theorem deleteAt_composed (w : CodeRules m Has B) (scope : Nat) :
    ∀ e : Expr, Has (.expr e) → Composed (B scope) (deleteAt m scope e)
  | .member object key _ _, h => by
    rw [deleteAt]
    exact (valueOf_composed (link_composed w scope none object (w.children h).head)).bind
      fun base => deleteProperty_composed (w.values scope) base key
  | .index object index _ _, h => by
    rw [deleteAt]
    have hindex := valueOf_composed (link_composed w scope none index (w.children h).tail.head)
    exact (valueOf_composed (link_composed w scope none object (w.children h).head)).bind
      fun base => (hindex.holding _).bind fun v => (textOf_composed v).bind fun key =>
        deleteProperty_composed (w.values scope) base key
  | .number .., _ | .string .., _ | .boolean .., _ | .null .., _ | .template .., _
  | .identifier .., _ | .this .., _ | .array .., _ | .object .., _ | .function .., _
  | .classOf .., _ | .call .., _ | .superMember .., _ | .new .., _ | .superCall .., _
  | .unary .., _ | .update .., _ | .binary .., _ | .logical .., _ | .conditional .., _
  | .assign .., _ | .sequence .., _ => by
    simp only [deleteAt]
    exact .pure _

theorem classValue_composed (w : CodeRules m Has B) (scope : Nat) (given : Option String) :
    ∀ body : ClassDef, Has (.classOf body) → Composed (B scope) (classValue m scope given body)
  | ⟨name, superclass, constructor?, members, span⟩, h => by
    rw [classValue]
    obtain ⟨hhead, hmembers⟩ := Node.each_append.1 (w.children h)
    have hsuper := (Node.each_append.1 hhead).1
    refine (superclassValue_composed w scope superclass hsuper).bind fun parent => ?_
    refine newClass_composed w h parent scope given fun c env => ?_
    refine staticScope_composed w c env fun inner => ?_
    exact ((staticFields_composed w c inner members hmembers).inScope inner).bind fun _ => .pure c

theorem superclassValue_composed (w : CodeRules m Has B) (scope : Nat) :
    ∀ superclass : Option Expr, Node.Each Has (superclass.toList.map .expr) →
      Composed (B scope) (superclassValue m scope superclass)
  | none, _ => by
    rw [superclassValue]
    exact .pure _
  | some e, h => by
    rw [superclassValue]
    exact (valueOf_composed (link_composed w scope none e h.head)).bind fun v =>
      checkSuperclass_composed v

theorem staticFields_composed (w : CodeRules m Has B) (c scope : Nat) :
    ∀ members : List ClassMember, Node.Each Has (members.flatMap (·.kind.nodes)) →
      Composed (B scope) (staticFields m c scope members)
  | [], _ => by
    rw [staticFields]
    exact .pure _
  | ⟨name, true, .field init⟩ :: rest, h => by
    rw [staticFields]
    obtain ⟨hinit, hrest⟩ := Node.each_flatMap_cons.1 h
    exact (fieldValue_composed w scope name init hinit).bind fun v =>
      (putMember_composed w scope c true (·.insert name (.data v))).bind fun _ =>
        staticFields_composed w c scope rest hrest
  | ⟨_, false, .field _⟩ :: rest, h | ⟨_, _, .method _⟩ :: rest, h | ⟨_, _, .getter _⟩ :: rest, h
  | ⟨_, _, .setter _⟩ :: rest, h => by
    simp only [staticFields]
    exact staticFields_composed w c scope rest (Node.each_flatMap_cons.1 h).2

theorem fieldValue_composed (w : CodeRules m Has B) (scope : Nat) (name : String) :
    ∀ init : Option Expr, Node.Each Has (init.toList.map .expr) →
      Composed (B scope) (fieldValue m scope name init)
  | none, _ => by
    rw [fieldValue]
    exact .pure _
  | some e, h => by
    rw [fieldValue]
    exact valueOf_composed (link_composed w scope (some name) e h.head)

end

section
variable (w : CodeRules m Has B) (scope : Nat)
include w

theorem declareVar_composed (name : String) : Composed (B scope) (declareVar scope name) := by
  let declared (s : Store) : EvalM Unit :=
    if s.binds name scope then return () else modify (·.declare scope name .undefined)
  refine .choose declared (fun s => ?_) fun s => ?_
  · unfold declared
    split
    · exact .pure _
    · exact declare_composed (w.values scope) scope name .undefined
  · by_cases hbinds : s.binds name scope
    · simp only [declared, if_pos hbinds]
      exact congrArg (Except.ok (), ·) (if_pos hbinds)
    · simp only [declared, if_neg hbinds]
      exact congrArg (Except.ok (), ·) (if_neg hbinds)

theorem writeVar_composed (name : String) (v : Value) :
    Composed (B scope) (writeVar scope name v) := by
  refine .read fun s => ?_
  cases s.assignmentScope scope name with
  | ok r => exact declare_composed (w.values scope) r name v
  | error e => exact declare_composed (w.values scope) scope name v

theorem bindVariable_composed (kind : VariableKind) (name : String) (initialized : Bool)
    (v : Value) : Composed (B scope) (bindVariable scope kind name initialized v) := by
  cases kind with
  | lexical => exact declare_composed (w.values scope) scope name v
  | constant => exact declareConstant_composed w scope scope name v
  | var =>
    unfold bindVariable
    dsimp only
    split
    · exact writeVar_composed w scope name v
    · refine (lookup_composed scope name).bind fun found => ?_
      split
      · exact writeVar_composed w scope name v
      · exact .pure _

theorem hoistStatement_composed (vars : Bool) (st : Statement) (h : Has (.statement st)) :
    Composed (B scope) (hoistStatement scope vars st) := by
  cases st with
  | function body =>
    unfold hoistStatement
    dsimp only
    split
    · exact (newFunction_composed w (w.children h).head scope none).bind fun f =>
        declare_composed (w.values scope) scope _ f
    · exact .pure _
  | _ =>
    simp only [hoistStatement]
    split
    · exact .forM fun name _ => declareVar_composed w scope name
    · exact .pure _

theorem hoist_composed (vars : Bool) (ss : List Statement)
    (h : Node.Each Has (ss.map .statement)) : Composed (B scope) (hoist scope vars ss) :=
  .forM fun st hst => hoistStatement_composed w scope vars st (h _ (List.mem_map_of_mem hst))

theorem declarations_composed (kind : VariableKind) (ds : List (String × Option Expr))
    (h : Node.Each Has (ds.flatMap fun d => d.2.toList.map .expr)) :
    Composed (B scope) (declarations m scope kind ds) := by
  induction ds with
  | nil => exact .pure _
  | cons d ds ih =>
    obtain ⟨hd, hds⟩ := Node.each_flatMap_cons.1 h
    exact (fieldValue_composed w scope d.1 d.2 hd).bind fun v =>
      (bindVariable_composed w scope kind d.1 d.2.isSome v).bind fun _ => ih hds

theorem eval_composed {e : Expr} (h : Has (.expr e)) : Composed (B scope) (eval m scope e) :=
  valueOf_composed (link_composed w scope none e h)

theorem evalNamed_composed {e : Expr} (h : Has (.expr e)) (name : String) :
    Composed (B scope) (evalNamed m scope name e) :=
  valueOf_composed (link_composed w scope (some name) e h)

end

mutual

theorem exec_composed (w : CodeRules m Has B) (scope : Nat) :
    ∀ st : Statement, Has (.statement st) → Composed (B scope) (exec m scope st)
  | .declaration kind ds _, h => by
    rw [exec]
    exact (declarations_composed w scope kind ds (w.children h)).bind fun _ => .pure _
  | .function _, _ | .empty _, _ | .returns none _, _ => by
    rw [exec]
    exact .pure _
  | .classOf body, h => by
    rw [exec]
    refine (classValue_composed w scope none body (w.children h).head).bind fun c => ?_
    exact Composed.bind ((w.values scope).modified fun _ => .setBinding scope _ _) fun _ => .pure _
  | .expression e _, h => by
    rw [exec]
    exact (eval_composed w scope (w.children h).head).discard.bind fun _ => .pure _
  | .returns (some e) _, h => by
    rw [exec]
    exact (eval_composed w scope (w.children h).head).bind fun _ => .pure _
  | .branch condition consequent alternate _, h => by
    rw [exec]
    refine (eval_composed w scope (w.children h).head).bind fun v => ?_
    split
    · exact exec_composed w scope consequent (w.children h).tail.head
    · exact execElse_composed w scope alternate (w.children h).tail.tail
  | .block ss _, h => by
    rw [exec]
    refine w.inside scope none fun inner => Composed.inScope ?_ inner
    exact (hoist_composed w inner false ss (w.children h)).bind fun _ =>
      execAll_composed w inner ss (w.children h)
  | .throws e _, h => by
    rw [exec]
    exact (eval_composed w scope (w.children h).head).bind fun _ => .throw _
  | .unsupported construct _, _ => by
    rw [exec]
    exact .fail _

theorem execAll_composed (w : CodeRules m Has B) (scope : Nat) :
    ∀ ss : List Statement, Node.Each Has (ss.map .statement) →
      Composed (B scope) (execAll m scope ss)
  | [], _ => by
    rw [execAll]
    exact .pure _
  | st :: ss, h => by
    rw [execAll]
    refine (exec_composed w scope st h.head).bind fun done => ?_
    cases done with
    | returned v => exact .pure _
    | normal => exact execAll_composed w scope ss h.tail

theorem execElse_composed (w : CodeRules m Has B) (scope : Nat) :
    ∀ st : Option Statement, Node.Each Has (st.toList.map .statement) →
      Composed (B scope) (execElse m scope st)
  | none, _ => by
    rw [execElse]
    exact .pure _
  | some st, h => by
    rw [execElse]
    exact exec_composed w scope st h.head

end

section
variable (w : CodeRules m Has B) (scope : Nat)
include w

theorem parameterValue_composed {p : Param} (h : Node.Each Has p.nodes) (args : List Value) :
    Composed (B scope) (parameterValue m scope p args) := by
  unfold parameterValue
  split
  · exact gather_composed w scope _
  split
  · rename_i e _ hdefault
    rw [Param.nodes, hdefault] at h
    exact evalNamed_composed w scope h.head p.name
  · exact .pure _

theorem bindParams_composed (ps : List Param) (args : List Value)
    (h : Node.Each Has (ps.flatMap Param.nodes)) :
    Composed (B scope) (bindParams m scope ps args) := by
  induction ps generalizing args with
  | nil => exact .pure _
  | cons p ps ih =>
    obtain ⟨hp, hps⟩ := Node.each_flatMap_cons.1 h
    exact (parameterValue_composed w scope hp args).bind fun v =>
      (declare_composed (w.values scope) scope p.name v).bind fun _ => ih args.tail hps

/-- The statements of a body are read from its tokens, and are nodes of the same code. -/
theorem runBody_composed (name : String) {body : FunctionBody} (h : Node.Each Has body.nodes) :
    Composed (B scope) (runBody m name scope body) := by
  cases body with
  | concise e => exact eval_composed w scope h.head
  | block tokens opening =>
    rw [runBody]
    cases hread : Statement.ofTokens tokens with
    | error e => exact .throw _
    | ok ss =>
      have hss : Node.Each Has (ss.map .statement) := by
        simpa [FunctionBody.nodes, hread, Except.toOption] using h
      refine (hoist_composed w scope true ss hss).bind fun _ =>
        (execAll_composed w scope ss hss).bind fun done => ?_
      cases done with
      | returned v => exact .pure v
      | normal => exact .pure _

theorem runFunction_composed {body : FunctionDef} (h : Has (.function body)) (name : String)
    (args : List Value) : Composed (B scope) (runFunction m body name scope args) := by
  obtain ⟨hparams, hbody⟩ := Node.each_append.1 (w.children h)
  have hrun := runBody_composed w scope name hbody
  refine ((bindParams_composed w scope body.params args hparams).holding args).bind fun _ => ?_
  split
  · exact hrun.holding args
  · exact (gather_composed w scope _).bind fun v =>
      (declare_composed (w.values scope) scope _ v).bind fun _ => hrun

theorem callScope_composed {α : Type} {f : Nat → EvalM α} (body : FunctionDef) (home : Option Nat)
    (this : Value) (hf : ∀ inner, Composed (B inner) (f inner)) :
    Composed (B scope) (callScope body scope home this >>= f) := by
  unfold callScope
  split
  · exact w.inside scope none hf
  · rw [bind_assoc]
    exact frameScope_composed w scope rfl fun _ inner => hf inner

theorem addFields_composed (object : Value) (fields : List (String × Option Expr))
    (h : ∀ field ∈ fields, Node.Each Has (field.2.toList.map .expr)) :
    Composed (B scope) (addFields m scope object fields) := by
  induction fields with
  | nil => exact .pure _
  | cons field fields ih =>
    exact (fieldValue_composed w scope field.1 field.2 (h field (by simp))).bind fun v =>
      (setOwn_composed (w.values scope) object _).bind fun _ =>
        ih fun field' hfield' => h field' (by simp [hfield'])

theorem bindName_composed (name? : Option String) (v : Value) :
    Composed (B scope) (bindName scope name? v) := by
  cases name? with
  | some name => exact (declare_composed (w.values scope) scope name v).bind fun _ => .pure v
  | none => exact .pure v

theorem defaultValue_composed {value : DefaultExport} (h : Node.Each Has value.nodes) :
    Composed (B scope) (defaultValue m scope value) := by
  cases value with
  | classOf body =>
    exact (classValue_composed w scope _ body h.head).bind fun c => bindName_composed w scope _ _
  | function body =>
    exact (newFunction_composed w h.head scope _).bind fun f => bindName_composed w scope _ f
  | expression e => exact evalNamed_composed w scope h.head _

theorem runItem_composed {item : ModuleItem} (h : Node.Each Has item.nodes) :
    Composed (B scope) (runItem m scope item) := by
  cases item with
  | importDecl d => exact .pure _
  | exportNamed specifiers span => exact .pure _
  | exportDefault value span =>
    exact (defaultValue_composed w scope h).bind fun v =>
      declareConstant_composed w scope scope _ v
  | exportDeclaration st => exact (exec_composed w scope st h.head).discard
  | statement st => exact (exec_composed w scope st h.head).discard

end

theorem runModule_composed (w : CodeRules .full Has B) (scope : Nat) {body : Module}
    (h : ∀ item ∈ body.items, Node.Each Has item.nodes) :
    Composed (B scope) (runModule scope body) := by
  have hstatements : Node.Each Has (body.statements.map .statement) := by
    intro n hn
    obtain ⟨st, hst, rfl⟩ := List.mem_map.1 hn
    obtain ⟨item, hitem, heq⟩ := List.mem_filterMap.1 hst
    split at heq
    · cases heq
      exact h _ hitem _ List.mem_cons_self
    · cases heq
      exact h _ hitem _ List.mem_cons_self
    · cases heq
  exact (hoist_composed w scope true _ hstatements).bind fun _ =>
    .forM fun item hitem => runItem_composed w scope (h item hitem)

end EvalM

theorem CodeParts.rules {m : Machine} {B : StepProperty} (hB : CodeParts m B) :
    CodeRules m (fun _ => True) fun _ => B where
  values _ := hB.toValueParts
  superCall _ := hB.superCall
  children _ _ _ := trivial
  script _ _ _ _ := hB.edit fun _ => .addFunction _
  frame _ _ hf := hB.edit fun _ => .addFrame _ hf
  setShared _ c f := hB.edit fun _ => .setShared c f
  inside _ _ hf := Composed.bind (hB.created fun _ => .addScope _) hf
  newClass _ _ _ _ hf := .read fun _ => Composed.bind (hB.created fun _ => .addScope _) fun _ =>
    Composed.bind (hB.created fun _ => .addClass _) fun _ => hf _ _

end Typings
