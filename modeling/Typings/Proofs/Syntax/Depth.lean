import Typings.Proofs.Syntax.Nesting

namespace Typings

open Parse

variable {b : Nat} {g : Grammar}

/-- Every production that nests restores the nesting. -/
structure Grammar.Restoring (g : Grammar) : Prop where
  expression : ∀ b, Restores b (·.NestsBelow b) g.expression
  assignment : ∀ b, Restores b (·.NestsBelow b) g.assignment
  infixes : ∀ b least, Restores b (·.Nests b) (g.infixes least)
  unary : ∀ b, Restores b (·.Nests b) g.unary
  instantiation : ∀ b, Restores b (·.Nests b) g.instantiation
  leftHandSide : ∀ b, Restores b (·.Nests b) g.leftHandSide
  statement : ∀ b, Restores b (·.NestsBelow b) g.statement
  whole : ∀ ts e, g.whole ts = .ok e → e.Nests nestingLimit

theorem Restores.nestsBelow {α : Type} {node : α → Node} {x : Parse α}
    (h : ∀ j, Restores j (fun a => (node a).Nests j) x) :
    Restores b (fun a => (node a).NestsBelow b) (Parse.nested x) :=
  .nested fun j hj => (h j).mono fun _ ha => ⟨j, hj, ha⟩

namespace Grammar

section
variable (hg : g.Restoring)
include hg

theorem restores_initializer :
    Restores b (fun init => ∀ e ∈ init, e.NestsBelow b) (initializer g) := by
  refine (neutral_eat _).bind fun found => ?_
  split
  · exact (hg.assignment b).some
  · exact .pure (by simp)

theorem restores_param : Restores b (·.NestsBelow b) (param g) := by
  refine (neutral_eat _).bind fun rest => .get (fun c => ?_) fun _ _ _ _ => rfl
  dsimp only
  split
  · exact .invalid_bind ..
  refine neutral_name.bind fun name => ?_
  split
  · exact (neutral_comma _).bind fun _ => .pure (by simp [Param.NestsBelow])
  · exact (restores_initializer hg).bind fun init hinit => (neutral_comma _).bind fun _ => .pure hinit

theorem restores_params : Restores b (fun ps => ∀ p ∈ ps, p.NestsBelow b) (params g) :=
  (neutral_expect _).bind fun _ => restores_itemsUntil (restores_param hg) _

theorem restores_functionTail (name : Option String) (start : Span) :
    Restores b (·.Nests b) (functionTail g name start) :=
  (restores_params hg).bind fun _ hps => restores_body.bind fun _ hbody =>
    neutral_previous.bind fun _ => .pure (FunctionDef.nests_of_parts hps hbody)

theorem restores_function : Restores b (·.Nests b) (function g) := by
  refine neutral_here.bind fun start => (neutral_expectKeyword _).bind fun _ => ?_
  refine (neutral_atPunct _).bind fun found => ?_
  dsimp only
  split
  · exact neutral_here.bind fun _ => .invalid_bind ..
  · exact neutral_name?.bind fun name => restores_functionTail hg name start

theorem restores_arrowParams : Restores b (fun ps => ∀ p ∈ ps, p.NestsBelow b) (arrowParams g) := by
  refine neutral_name?.bind fun name => ?_
  split
  · exact .pure (by simp [Param.NestsBelow])
  · exact restores_params hg

theorem restores_arrowBody : Restores b (·.NestsBelow b) (arrowBody g) := by
  refine (neutral_atPunct _).bind fun found => ?_
  split
  · exact restores_body
  · exact (hg.assignment b).map fun e he => by simpa [FunctionBody.NestsBelow, FunctionBody.inner]

theorem restores_arrow : Restores b (·.Nests b) (arrow g) := by
  refine neutral_here.bind fun start => (restores_arrowParams hg).bind fun ps hps => ?_
  refine (neutral_expect _).bind fun _ => (restores_arrowBody hg).bind fun body hbody => ?_
  exact neutral_previous.bind fun _ =>
    .pure (Expr.nests_function (FunctionDef.nests_of_parts hps hbody))

theorem restores_listed {α : Type} {P : α → Prop} {spread value : Expr → α}
    (hspread : ∀ e, e.NestsBelow b → P (spread e)) (hvalue : ∀ e, e.NestsBelow b → P (value e)) :
    Restores b P (listed g spread value) := by
  refine (neutral_eat _).bind fun found => ?_
  split
  · exact (hg.assignment b).map hspread
  · exact (hg.assignment b).map hvalue

theorem restores_arguments : Restores b (fun as => ∀ a ∈ as, a.NestsBelow b) (arguments g) := by
  have hlisted : Restores b (·.NestsBelow b) (listed g Argument.spread .value) :=
    restores_listed hg (fun e he => by simpa [Argument.NestsBelow, Argument.nodes])
      fun e he => by simpa [Argument.NestsBelow, Argument.nodes]
  have hargument : Restores b (·.NestsBelow b) (argument g) :=
    hlisted.bind fun a ha => (neutral_comma _).bind fun _ => .pure ha
  exact (neutral_expect _).bind fun _ => restores_itemsUntil hargument _

theorem restores_element : Restores b (·.NestsBelow b) (element g) := by
  refine (neutral_eat _).bind fun found => ?_
  split
  · exact .pure (by simp [ArrayElement.NestsBelow, ArrayElement.nodes])
  have hlisted : Restores b (·.NestsBelow b) (listed g ArrayElement.spread .value) :=
    restores_listed hg (fun e he => by simpa [ArrayElement.NestsBelow, ArrayElement.nodes])
      fun e he => by simpa [ArrayElement.NestsBelow, ArrayElement.nodes]
  exact hlisted.bind fun a ha => (neutral_comma _).bind fun _ => .pure ha

theorem restores_array : Restores b (·.Nests b) (array g) := by
  refine neutral_here.bind fun start => (neutral_expect _).bind fun _ => ?_
  exact (restores_itemsUntil (restores_element hg) _).bind fun es hes =>
    neutral_previous.bind fun _ => .pure (Expr.nests_array hes)

theorem restores_propertyKey : Restores b (·.NestsBelow b) (propertyKey g) := by
  have hnamed : ∀ n, (PropertyKey.named n).NestsBelow b := by
    simp [PropertyKey.NestsBelow, PropertyKey.nodes]
  refine neutral_current.bind fun t => ?_
  split
  · exact neutral_advance.bind fun _ => .pure (hnamed _)
  · exact neutral_advance.bind fun _ => .pure (hnamed _)
  · refine neutral_advance.bind fun _ => (hg.assignment b).bind fun e he => ?_
    exact (neutral_expect _).bind fun _ => .pure (by simpa [PropertyKey.NestsBelow, PropertyKey.nodes])
  · exact neutral_propertyName.bind fun _ => .pure (hnamed _)

theorem restores_propertyValue (c : Cursor) {key : PropertyKey} (hkey : key.NestsBelow b) :
    Restores b (·.Nests b) (propertyValue g c key) := by
  refine .get (fun after => ?_) fun _ _ _ _ => rfl
  split
  · exact (restores_functionTail hg _ _).bind fun f hf => .pure
      (ObjectProperty.nests_beside hkey rfl (Expr.nests_function hf))
  refine (neutral_eat _).bind fun found => ?_
  split
  · exact (hg.assignment b).bind fun e he => .pure (ObjectProperty.nests_value hkey he)
  split
  · split
    · exact .pure (ObjectProperty.nests_beside hkey rfl (Expr.nests_leaf rfl rfl rfl))
    · exact .unexpected _
  · exact .unexpected _

theorem restores_propertyForm : Restores b (·.Nests b) (propertyForm g) := by
  refine .get (fun c => (neutral_eat _).bind fun found => ?_) fun _ _ _ _ => rfl
  split
  · exact (hg.assignment b).bind fun e he => .pure
      ⟨by simp [ObjectProperty.beside], by simpa [ObjectProperty.inner]⟩
  split
  · rename_i isGetter _
    refine neutral_advance.bind fun _ => (restores_propertyKey hg).bind fun key hkey => ?_
    refine (restores_functionTail hg _ _).bind fun f hf => .pure ?_
    cases isGetter with
    | true => exact ⟨by simpa [ObjectProperty.beside], hkey⟩
    | false => exact ⟨by simpa [ObjectProperty.beside], hkey⟩
  · exact (restores_propertyKey hg).bind fun key hkey => restores_propertyValue hg c hkey

theorem restores_object : Restores b (·.Nests b) (object g) := by
  have hproperty : Restores b (·.Nests b) (property g) :=
    (restores_propertyForm hg).bind fun p hp => (neutral_comma _).bind fun _ => .pure hp
  refine neutral_here.bind fun start => (neutral_expect _).bind fun _ => ?_
  exact (restores_itemsUntil hproperty _).bind fun ps hps =>
    neutral_previous.bind fun _ => .pure (Expr.nests_object hps)

omit hg in
theorem neutral_staticMark : Neutral b staticMark := by
  refine .get (fun c => ?_) fun _ _ _ _ => rfl
  dsimp only
  split
  · refine neutral_advance.bind fun _ => (neutral_atPunct _).bind fun found => ?_
    split
    · exact neutral_here.bind fun _ => .invalid_bind ..
    · exact .pure trivial
  · exact .pure trivial

omit hg in
theorem neutral_accessorMark : Neutral b accessorMark := by
  refine .get (fun c => ?_) fun _ _ _ _ => rfl
  dsimp only
  split
  · exact neutral_advance.bind fun _ => .pure trivial
  · exact .pure trivial

omit hg in
/-- What stands in a class body nests within a bound. -/
def ClassItem.Nests (b : Nat) : ClassItem → Prop
  | .separator => True
  | .constructor f => f.Nests b
  | .member m => m.kind.Nests b

theorem restores_classMember (start : Span) (isStatic : Bool) (accessor : Option Bool)
    (name : String) :
    Restores b (ClassItem.Nests b) (classMember g start isStatic accessor name) := by
  have hmethod : ∀ {f : FunctionDef}, f.Nests b → ∀ n ∈ [Node.function f], n.Nests b := by simp
  unfold classMember
  split
  · rename_i isGetter
    refine (restores_functionTail hg _ _).bind fun f hf => .pure ?_
    cases isGetter with
    | true => exact ⟨hmethod hf, List.forall_mem_nil _⟩
    | false => exact ⟨hmethod hf, List.forall_mem_nil _⟩
  refine (neutral_atPunct _).bind fun found => ?_
  split
  · refine (restores_functionTail hg _ _).bind fun f hf => .pure ?_
    split
    · exact hf
    · exact ⟨hmethod hf, List.forall_mem_nil _⟩
  · refine (restores_initializer hg).bind fun init hinit => neutral_semicolon.bind fun _ => .pure ?_
    refine ⟨by simp [MemberForm.beside], fun n hn => ?_⟩
    obtain ⟨e, he, rfl⟩ := List.mem_map.1 hn
    exact hinit e (Option.mem_toList.1 he)

theorem restores_classItem : Restores b (ClassItem.Nests b) (classItem g) := by
  refine .get (fun c => ?_) fun _ _ _ _ => rfl
  dsimp only
  split
  · exact .unexpected_bind _
  refine (neutral_eat _).bind fun found => ?_
  split
  · exact .pure trivial
  refine neutral_here.bind fun start => neutral_staticMark.bind fun isStatic => ?_
  refine neutral_accessorMark.bind fun accessor => (restores_propertyKey hg).bind fun key _ => ?_
  split
  · exact .invalid ..
  · exact restores_classMember hg ..

theorem restores_heritage : Restores b (fun e => ∀ e' ∈ e, e'.Nests b) (heritage g) := by
  refine (neutral_eatKeyword _).bind fun found => ?_
  split
  · exact (hg.leftHandSide b).some
  · exact .pure (by simp)

theorem restores_classDef : Restores b (·.Nests b) (classDef g) := by
  refine neutral_here.bind fun start => (neutral_expectKeyword _).bind fun _ => ?_
  refine neutral_name?.bind fun name => (restores_heritage hg).bind fun superclass hsuper => ?_
  refine (neutral_expect _).bind fun _ => (restores_itemsUntil (restores_classItem hg) _).bind
    fun items hitems => neutral_previous.bind fun _ => .pure ?_
  refine ClassDef.nests_of_parts hsuper ?_ ?_
  · intro f hf
    obtain ⟨item, hitem, heq⟩ := List.mem_filterMap.1 (List.mem_of_getLast? hf)
    split at heq
    · obtain rfl := Option.some.inj heq
      exact hitems _ hitem
    · cases heq
  · intro m hm
    obtain ⟨item, hitem, heq⟩ := List.mem_filterMap.1 hm
    split at heq
    · obtain rfl := Option.some.inj heq
      exact hitems _ hitem
    · cases heq

theorem templateElements_nest {parts : List TemplatePart} {es : List TemplateElement}
    (h : templateElements g parts = .ok es) : ∀ p ∈ es, ∀ n ∈ p.nodes, n.Nests nestingLimit := by
  induction parts generalizing es with
  | nil =>
    cases h
    simp
  | cons part parts ih =>
    cases part with
    | text s =>
      obtain ⟨rest, hrest, heq⟩ := bind_eq_ok h
      cases heq
      simpa [TemplateElement.nodes] using ih hrest
    | substitution ts =>
      obtain ⟨e, he, h⟩ := bind_eq_ok h
      obtain ⟨rest, hrest, heq⟩ := bind_eq_ok h
      cases heq
      simpa [TemplateElement.nodes] using ⟨hg.whole ts e he, ih hrest⟩

theorem restores_superTail (span : Span) : Restores b (·.Nests b) (superTail g span) := by
  refine neutral_current.bind fun t => ?_
  split
  · exact (restores_arguments hg).bind fun as has => neutral_previous.bind fun _ =>
      .pure (Expr.nests_superCall has)
  · exact neutral_advance.bind fun _ => neutral_propertyName.bind fun _ =>
      neutral_previous.bind fun _ => .pure (Expr.nests_leaf rfl rfl rfl)
  · exact .unexpected _

theorem restores_primary : Restores b (·.Nests b) (primary g) := by
  have hleaf : ∀ {e : Expr}, e.beside = [] → e.inner = [] → (Node.expr e).apart = [] →
      Restores b (·.Nests b) (do advance; return e) :=
    fun h h' h'' => neutral_advance.bind fun _ => .pure (Expr.nests_leaf h h' h'')
  refine neutral_here.bind fun span => neutral_current.bind fun t => ?_
  split
  · exact hleaf rfl rfl rfl
  · exact hleaf rfl rfl rfl
  · refine neutral_advance.bind fun _ => ?_
    split
    · rename_i hes
      exact .pure (Expr.nests_template (templateElements_nest hg hes))
    · exact .throw
  · exact hleaf rfl rfl rfl
  · exact hleaf rfl rfl rfl
  · exact hleaf rfl rfl rfl
  · exact hleaf rfl rfl rfl
  · exact hleaf rfl rfl rfl
  · exact (restores_function hg).bind fun f hf => .pure (Expr.nests_function hf)
  · exact (restores_classDef hg).bind fun c hc => .pure (Expr.nests_classOf hc)
  · exact neutral_advance.bind fun _ => restores_superTail hg span
  · exact neutral_advance.bind fun _ => (hg.expression b).bind fun e he =>
      (neutral_expect _).bind fun _ => .pure he.nests
  · exact restores_array hg
  · exact restores_object hg
  · exact .invalid ..
  · exact .invalid ..
  · exact .throw
  · exact .invalid ..

theorem restores_bracketed : Restores b (·.NestsBelow b) (bracketed g) :=
  neutral_advance.bind fun _ => (hg.expression b).bind fun _ hi => (neutral_expect _).bind fun _ =>
    .pure hi

omit hg in
theorem restores_link {α : Type} {P : α → Prop} {x : Parse α} {f : α → Span → Expr}
    (hx : Restores b P x) (hf : ∀ a s, P a → (f a s).Nests b) :
    Restores b (Sum.elim (Expr.Nests b) (Expr.Nests b)) (do
      let a ← x
      return .inl (f a (← previous))) :=
  hx.bind fun a ha => neutral_previous.bind fun s => .pure (hf a s ha)

section
variable {e : Expr} (he : e.Nests b)
include he

theorem restores_calleeLink (start : Span) :
    Restores b (Sum.elim (Expr.Nests b) (Expr.Nests b)) (calleeLink g start e) := by
  refine neutral_current.bind fun t => ?_
  split
  · exact neutral_advance.bind fun _ => restores_link neutral_propertyName fun _ _ _ =>
      Expr.nests_member he
  · exact restores_link (restores_bracketed hg) fun _ _ hi => Expr.nests_index he hi
  · exact .pure he

theorem restores_chainLink (start : Span) :
    Restores b (Sum.elim (Expr.Nests b) (Expr.Nests b)) (chainLink g start e) := by
  refine neutral_current.bind fun t => ?_
  split
  · exact neutral_advance.bind fun _ => restores_link neutral_propertyName fun _ _ _ =>
      Expr.nests_member he
  · refine neutral_advance.bind fun _ => neutral_current.bind fun t => ?_
    split
    · exact restores_link (restores_arguments hg) fun _ _ has => Expr.nests_call he has
    · exact restores_link (restores_bracketed hg) fun _ _ hi => Expr.nests_index he hi
    · exact restores_link neutral_propertyName fun _ _ _ => Expr.nests_member he
  · exact restores_link (restores_bracketed hg) fun _ _ hi => Expr.nests_index he hi
  · exact restores_link (restores_arguments hg) fun _ _ has => Expr.nests_call he has
  · refine .get (fun c => ?_) fun _ _ _ _ => rfl
    split
    · exact .pure he
    · exact .invalid ..
  · exact .pure he

end

theorem restores_calleeHead : Restores b (·.Nests b) (calleeHead g) := by
  refine (neutral_atKeyword _).bind fun found => ?_
  split
  · exact hg.instantiation b
  · exact restores_primary hg

theorem restores_arguments? : Restores b (fun as => ∀ a ∈ as, a.NestsBelow b) (arguments? g) := by
  refine (neutral_atPunct _).bind fun found => ?_
  split
  · exact restores_arguments hg
  · exact .pure (by simp)

theorem restores_instantiationOf : Restores b (·.Nests b) (instantiationOf g) := by
  refine neutral_here.bind fun start => (neutral_expectKeyword _).bind fun _ => ?_
  refine (neutral_atPunct _).bind fun found => ?_
  dsimp only
  split
  · exact neutral_here.bind fun _ => .invalid_bind ..
  refine (restores_calleeHead hg).bind fun head hhead => ?_
  refine (restores_loop (fun e he => restores_calleeLink hg he start) hhead).bind fun callee hcallee => ?_
  exact (restores_arguments? hg).bind fun as has => neutral_previous.bind fun _ =>
    .pure (Expr.nests_new hcallee has)

theorem restores_chainHead : Restores b (·.Nests b) (chainHead g) := by
  refine (neutral_atKeyword _).bind fun found => ?_
  split
  · exact restores_instantiationOf hg
  · exact restores_primary hg

theorem restores_leftHandSideOf : Restores b (·.Nests b) (leftHandSideOf g) :=
  neutral_here.bind fun start => (restores_chainHead hg).bind fun _ he =>
    restores_loop (fun _ he => restores_chainLink hg he start) he

theorem restores_postfixOf : Restores b (·.Nests b) (postfixOf g) := by
  refine neutral_here.bind fun start => (restores_leftHandSideOf hg).bind fun e he =>
    .get (fun c => ?_) fun _ _ _ _ => rfl
  split
  · exact .pure he
  split
  · exact .pure he
  · exact neutral_advance.bind fun _ => neutral_previous.bind fun _ => .pure (Expr.nests_update he)

theorem restores_unaryOf : Restores b (·.Nests b) (unaryOf g) := by
  have hoperand : Restores b (·.NestsBelow b) (nested g.unary) := .nestsBelow hg.unary
  refine neutral_here.bind fun start => neutral_current.bind fun t => ?_
  split
  · exact neutral_advance.bind fun _ => hoperand.bind fun e he => .pure (Expr.nests_unary he)
  split
  · refine neutral_advance.bind fun _ => hoperand.bind fun e he => ?_
    dsimp only
    split
    · exact .pure (Expr.nests_update he)
    · exact .invalid_bind ..
  · exact restores_postfixOf hg

theorem restores_infixLink (start : Span) (least : Nat) {left : Expr} (hleft : left.Nests b) :
    Restores b (Sum.elim (Expr.Nests b) (Expr.Nests b)) (infixLink g start least left) := by
  refine neutral_current.bind fun t => ?_
  split
  · exact .pure hleft
  split
  · exact .pure hleft
  · exact neutral_advance.bind fun _ => (hg.infixes b _).bind fun right hright =>
      .pure (Expr.nests_join hleft hright)

theorem restores_infixesOf (least : Nat) : Restores b (·.Nests b) (infixesOf g least) :=
  neutral_here.bind fun start => (restores_unaryOf hg).bind fun _ hleft =>
    restores_loop (fun _ hleft => restores_infixLink hg start least hleft) hleft

theorem restores_conditionalOf : Restores b (·.Nests b) (conditionalOf g) := by
  refine neutral_here.bind fun start => (restores_infixesOf hg 0).bind fun test htest => ?_
  refine (neutral_eat _).bind fun found => ?_
  split
  · refine (hg.assignment b).bind fun e he => (neutral_expect _).bind fun _ => ?_
    exact (hg.assignment b).bind fun e' he' => .pure (Expr.nests_conditional htest he he')
  · exact .pure htest

theorem restores_assignmentOf : Restores b (·.NestsBelow b) (assignmentOf g) := by
  refine .nestsBelow fun j => .get (fun c => ?_) fun c depth deepest bodies => ?_
  · split
    · exact restores_arrow hg
    refine (restores_conditionalOf hg).bind fun target htarget => neutral_current.bind fun t => ?_
    split
    · exact .pure htarget
    split
    · exact neutral_advance.bind fun _ => (hg.assignment j).bind fun value hvalue =>
        .pure (Expr.nests_assign htarget hvalue)
    · exact .invalid_bind ..
  · have hplace : c.Abreast { c with depth := depth, deepest := deepest, bodies := bodies } :=
      ⟨rfl, rfl⟩
    rw [hplace.atArrow]
    rfl

theorem restores_commaLink {acc : List Expr} (hacc : ∀ e ∈ acc, e.NestsBelow b) :
    Restores b (Sum.elim (fun es => ∀ e ∈ es, e.NestsBelow b) fun es => ∀ e ∈ es, e.NestsBelow b)
      (commaLink g acc) := by
  refine (neutral_eat _).bind fun found => ?_
  split
  · exact (hg.assignment b).bind fun e he => .pure (List.forall_mem_cons.2 ⟨he, hacc⟩)
  · exact .pure fun e he => hacc e (List.mem_reverse.1 he)

theorem restores_expressionOf : Restores b (·.NestsBelow b) (expressionOf g) := by
  refine neutral_here.bind fun start => (restores_assignmentOf hg).bind fun first hfirst => ?_
  refine (neutral_atPunct _).bind fun found => ?_
  split
  · refine (restores_loop (fun _ hacc => restores_commaLink hg hacc)
      (List.forall_mem_singleton.2 hfirst)).bind fun es hes => neutral_previous.bind fun _ => ?_
    obtain ⟨j, rfl, _⟩ := hfirst
    exact .pure (Expr.nestsBelow_sequence (Nat.succ_pos j) hes)
  · exact .pure hfirst

theorem wholeOf_nests {ts : List Lexeme} {e : Expr} (h : wholeOf g ts = .ok e) :
    e.Nests nestingLimit := by
  refine Restores.gives (b := nestingLimit) (Q := (·.Nests nestingLimit)) (c := Cursor.ofTokens ts)
    ?_ (Nat.zero_add _) h
  refine (restores_expressionOf hg).bind fun e he => .get (fun c => ?_) fun _ _ _ _ => rfl
  split
  · exact .pure he.nests
  · exact .unexpected_bind _

theorem restores_declarator (kind : VariableKind) :
    Restores b (fun d => ∀ e ∈ d.2, e.NestsBelow b) (declarator g kind) := by
  refine .get (fun c => ?_) fun _ _ _ _ => rfl
  dsimp only
  split
  · exact .invalid_bind ..
  refine neutral_name.bind fun name => (restores_initializer hg).bind fun init hinit => ?_
  split
  · exact neutral_previous.bind fun _ => .invalid_bind ..
  · exact .pure hinit

theorem restores_declaration (kind : VariableKind) :
    Restores b (·.Nests b) (declaration g kind) := by
  refine neutral_here.bind fun start => neutral_advance.bind fun _ => ?_
  refine (restores_loop (I := fun ds => ∀ d ∈ ds, ∀ e ∈ d.2, e.NestsBelow b)
    (R := fun ds => ∀ d ∈ ds, ∀ e ∈ d.2, e.NestsBelow b) (fun acc hacc => ?_) (by simp)).bind
    fun ds hds => neutral_semicolon.bind fun _ => neutral_previous.bind fun _ => .pure ?_
  · refine (restores_declarator hg kind).bind fun d hd => (neutral_eat _).bind fun found => ?_
    have hall : ∀ d' ∈ d :: acc, ∀ e ∈ d'.2, e.NestsBelow b := List.forall_mem_cons.2 ⟨hd, hacc⟩
    split
    · exact .pure hall
    · exact .pure fun d' hd' => hall d' (List.mem_reverse.1 hd')
  · refine Statement.nests_of_parts (List.forall_mem_nil _) (forall_mem_flatMap.2 ?_)
    intro d hd n hn
    obtain ⟨e, he, rfl⟩ := List.mem_map.1 hn
    exact hds d hd e (Option.mem_toList.1 he)

theorem restores_alternative : Restores b (fun s => ∀ s' ∈ s, s'.NestsBelow b) (alternative g) := by
  refine (neutral_eatKeyword _).bind fun found => ?_
  split
  · exact (hg.statement b).some
  · exact .pure (by simp)

theorem restores_branch : Restores b (·.Nests b) (branch g) := by
  refine neutral_here.bind fun start => neutral_advance.bind fun _ => ?_
  refine (neutral_expect _).bind fun _ => (hg.expression b).bind fun condition hcondition => ?_
  refine (neutral_expect _).bind fun _ => (hg.statement b).bind fun consequent hconsequent => ?_
  refine (restores_alternative hg).bind fun alternate halternate => neutral_previous.bind fun _ =>
    .pure (Statement.nests_of_parts (List.forall_mem_nil _) ?_)
  intro n hn
  rcases List.mem_append.1 hn with hn | hn
  · obtain rfl | rfl : n = .expr condition ∨ n = .statement consequent := by simpa using hn
    · exact hcondition
    · exact hconsequent
  · obtain ⟨s, hs, rfl⟩ := List.mem_map.1 hn
    exact halternate s (Option.mem_toList.1 hs)

theorem restores_blockItem : Restores b (·.NestsBelow b) (blockItem g) := by
  refine .get (fun c => ?_) fun _ _ _ _ => rfl
  dsimp only
  split
  · exact .unexpected_bind _
  · exact hg.statement b

theorem neutral_skipStatement : Neutral b (skipStatement g) := by
  refine (neutral_atPunct _).bind fun found => ?_
  split
  · exact neutral_skipGroup
  · exact (hg.statement b).neutral.discard

omit hg in
theorem restores_unsupported (construct : String) (start : Span) :
    Restores b (·.Nests b) (unsupported construct start) :=
  neutral_previous.bind fun _ => .pure
    (Statement.nests_of_parts (List.forall_mem_nil _) (List.forall_mem_nil _))

theorem restores_headed (construct : String) : Restores b (·.Nests b) (headed g construct) := by
  have htail : ∀ start, Restores b (·.Nests b) (do
      skipGroup
      skipStatement g
      unsupported construct start) := fun start =>
    neutral_skipGroup.bind fun _ => (neutral_skipStatement hg).bind fun _ => restores_unsupported _ _
  refine neutral_here.bind fun start => neutral_advance.bind fun _ => (neutral_atName _).bind
    fun found => ?_
  dsimp only
  split
  · exact neutral_advance.bind fun _ => htail _
  · exact htail _

omit hg in
theorem restores_jump (construct : String) : Restores b (·.Nests b) (jump construct) := by
  refine neutral_here.bind fun start => neutral_advance.bind fun _ =>
    .get (fun c => ?_) fun _ _ _ _ => rfl
  dsimp only
  split
  · exact neutral_advance.bind fun _ => neutral_semicolon.bind fun _ => restores_unsupported _ _
  · exact neutral_semicolon.bind fun _ => restores_unsupported _ _

omit hg in
theorem neutral_skipCatch : Neutral b skipCatch := by
  refine (neutral_eatKeyword _).bind fun found => ?_
  split
  · refine (neutral_atPunct _).bind fun found => ?_
    split
    · exact neutral_skipGroup.bind fun _ => neutral_braces.discard
    · exact neutral_braces.discard
  · exact .pure trivial

omit hg in
theorem neutral_skipFinally : Neutral b skipFinally := by
  refine (neutral_eatKeyword _).bind fun found => ?_
  split
  · exact neutral_braces.discard
  · exact .pure trivial

omit hg in
theorem restores_attempt : Restores b (·.Nests b) attempt := by
  refine neutral_here.bind fun start => neutral_advance.bind fun _ => ?_
  refine neutral_braces.discard.bind fun _ => ?_
  exact neutral_skipCatch.bind fun _ => neutral_skipFinally.bind fun _ => restores_unsupported _ _

theorem restores_returnValue :
    Restores b (fun v => ∀ e ∈ v, e.NestsBelow b) (returnValue g) := by
  refine .get (fun c => ?_) fun _ _ _ _ => rfl
  split
  · exact .pure (by simp)
  · exact (hg.expression b).some

theorem restores_statementBody : Restores b (·.Nests b) (statementBody g) := by
  have hempty : ∀ s, (Statement.empty s).Nests b := fun s =>
    Statement.nests_of_parts (List.forall_mem_nil _) (List.forall_mem_nil _)
  refine .get (fun c => ?_) fun _ _ _ _ => rfl
  dsimp only
  split
  · exact restores_declaration hg _
  · exact restores_declaration hg _
  · exact restores_declaration hg _
  · exact (restores_function hg).bind fun f hf => .pure (Statement.nests_of_parts
      (List.forall_mem_singleton.2 hf) (List.forall_mem_nil _))
  · exact (restores_classDef hg).bind fun c hc => .pure (Statement.nests_of_parts
      (List.forall_mem_singleton.2 hc) (List.forall_mem_nil _))
  · exact restores_branch hg
  · refine neutral_advance.bind fun _ => (restores_itemsUntil (restores_blockItem hg) _).bind
      fun ss hss => neutral_previous.bind fun _ => .pure ?_
    exact Statement.nests_of_parts (List.forall_mem_nil _)
      (List.forall_mem_map.2 hss)
  · refine neutral_advance.bind fun _ => (restores_returnValue hg).bind fun v hv => ?_
    refine neutral_semicolon.bind fun _ => neutral_previous.bind fun _ => .pure ?_
    exact Statement.nests_of_parts (List.forall_mem_nil _)
      (by simpa [Statement.inner, Statement.nodes] using hv)
  · refine neutral_advance.bind fun _ => (hg.expression b).bind fun e he => ?_
    refine neutral_semicolon.bind fun _ => neutral_previous.bind fun _ => .pure ?_
    exact Statement.nests_of_parts (List.forall_mem_nil _)
      (List.forall_mem_singleton.2 he)
  · exact neutral_advance.bind fun _ => .pure (hempty _)
  · exact restores_headed hg _
  · exact restores_headed hg _
  · exact restores_headed hg _
  · refine neutral_advance.bind fun _ => (neutral_skipStatement hg).bind fun _ => ?_
    refine (neutral_expectKeyword _).bind fun _ => neutral_skipGroup.bind fun _ => ?_
    exact (neutral_eat _).discard.bind fun _ => restores_unsupported _ _
  · exact restores_attempt
  · exact restores_jump _
  · exact restores_jump _
  · exact neutral_advance.bind fun _ => neutral_semicolon.bind fun _ => .pure (hempty _)
  · exact .invalid ..
  · exact .invalid ..
  · split
    · exact neutral_advance.bind fun _ => neutral_advance.bind fun _ =>
        (hg.statement b).mono fun _ hs => hs.nests
    · refine (restores_expressionOf hg).bind fun e he => neutral_semicolon.bind fun _ => ?_
      refine neutral_previous.bind fun _ => .pure ?_
      exact Statement.nests_of_parts (List.forall_mem_nil _)
        (List.forall_mem_singleton.2 he)

theorem restores_statementOf : Restores b (·.NestsBelow b) (statementOf g) :=
  .nestsBelow fun _ => restores_statementBody hg

end

theorem neutral_foreignName : Neutral b foreignName := by
  refine neutral_current.bind fun t => ?_
  split
  · exact neutral_advance.bind fun _ => .pure trivial
  · exact neutral_propertyName

theorem neutral_renamed (name : String) {other : Parse String} (h : Neutral b other) :
    Neutral b (renamed name other) := by
  refine (neutral_atName _).bind fun found => ?_
  split
  · exact neutral_advance.bind fun _ => h
  · exact .pure trivial

theorem neutral_importSource (decl : ImportDecl) : Neutral b (importSource decl) := by
  refine (neutral_atName _).bind fun found => ?_
  dsimp only
  split
  · refine neutral_advance.bind fun _ => neutral_current.bind fun t => ?_
    split
    · exact neutral_advance.bind fun _ => neutral_semicolon.bind fun _ =>
        neutral_previous.bind fun _ => .pure trivial
    · exact .unexpected _
  · exact .unexpected_bind _

theorem neutral_importNames (decl : ImportDecl) : Neutral b (importNames decl) := by
  have himported : Neutral b importedName :=
    neutral_foreignName.bind fun _ => (neutral_renamed _ neutral_name).bind fun _ =>
      (neutral_comma _).bind fun _ => .pure trivial
  refine (neutral_eat _).bind fun found => ?_
  split
  · refine (neutral_atName _).bind fun found => ?_
    dsimp only
    split
    · exact neutral_advance.bind fun _ => neutral_name.bind fun _ => neutral_importSource _
    · exact .unexpected_bind _
  refine (neutral_eat _).bind fun found => ?_
  split
  · exact (restores_itemsUntil himported _).bind fun _ _ => neutral_importSource _
  · exact .unexpected _

theorem neutral_importDecl : Neutral b importDecl := by
  refine neutral_here.bind fun start => (neutral_expectKeyword _).bind fun _ => ?_
  refine neutral_current.bind fun t => ?_
  split
  · exact neutral_advance.bind fun _ => neutral_semicolon.bind fun _ => neutral_previous.bind
      fun _ => .pure trivial
  · refine neutral_advance.bind fun _ => (neutral_eat _).bind fun found => ?_
    split
    · exact neutral_importNames _
    · exact neutral_importSource _
  · exact neutral_importNames _

theorem neutral_exportedName : Neutral b exportedName :=
  neutral_name.bind fun _ => (neutral_renamed _ neutral_propertyName).bind fun _ =>
    (neutral_comma _).bind fun _ => .pure trivial

end Grammar

/-- What a module item reads nests within a bound. -/
def ModuleItem.Nests (b : Nat) (i : ModuleItem) : Prop := ∀ n ∈ i.nodes, n.Nests b

namespace Grammar

section
variable (hg : g.Restoring)
include hg

theorem restores_defaultExport :
    Restores b (fun v => ∀ n ∈ v.nodes, n.Nests b) (defaultExport g) := by
  refine neutral_current.bind fun t => ?_
  split
  · exact (restores_classDef hg).bind fun c hc => .pure (by simpa [DefaultExport.nodes])
  · exact (restores_function hg).bind fun f hf => .pure (by simpa [DefaultExport.nodes])
  · exact (restores_assignmentOf hg).bind fun e he => neutral_semicolon.bind fun _ =>
      .pure (by simpa [DefaultExport.nodes] using he.nests)

theorem restores_exportDefault (start : Span) : Restores b (·.Nests b) (exportDefault g start) :=
  neutral_advance.bind fun _ => (restores_defaultExport hg).bind fun _ hv =>
    neutral_previous.bind fun _ => .pure hv

theorem restores_exportItem : Restores b (·.Nests b) (exportItem g) := by
  have hstatement : Restores b (·.Nests b) (do return ModuleItem.exportDeclaration (← statementOf g)) :=
    (restores_statementOf hg).bind fun s hs => .pure
      (by simpa [ModuleItem.Nests, ModuleItem.nodes] using hs.nests)
  refine neutral_here.bind fun start => (neutral_expectKeyword _).bind fun _ => ?_
  refine neutral_current.bind fun t => ?_
  split
  · exact restores_exportDefault hg start
  · refine neutral_advance.bind fun _ => (restores_itemsUntil neutral_exportedName _).bind fun _ _ => ?_
    refine (neutral_atName _).bind fun found => ?_
    dsimp only
    split
    · exact neutral_here.bind fun _ => .invalid_bind ..
    · exact neutral_semicolon.bind fun _ => neutral_previous.bind fun _ => .pure
        (by simp [ModuleItem.Nests, ModuleItem.nodes])
  · exact hstatement
  · exact hstatement
  · exact hstatement
  · exact hstatement
  · exact hstatement
  · exact neutral_here.bind fun _ => .invalid ..
  · exact .unexpected _

theorem restores_moduleItem : Restores b (·.Nests b) (moduleItem g) := by
  have hstatement : Restores b (·.Nests b) (do return ModuleItem.statement (← statementOf g)) :=
    (restores_statementOf hg).bind fun s hs => .pure
      (by simpa [ModuleItem.Nests, ModuleItem.nodes] using hs.nests)
  refine .get (fun c => ?_) fun _ _ _ _ => rfl
  split
  · split
    · exact hstatement
    · exact hstatement
    · exact neutral_importDecl.bind fun _ => .pure (by simp [ModuleItem.Nests, ModuleItem.nodes])
  · exact restores_exportItem hg
  · exact hstatement

end

/-- Whatever number of levels a grammar has, it restores the nesting. -/
theorem levels_restoring (n : Nat) : (levels n).Restoring := by
  induction n with
  | zero =>
    have hfails : ∀ {α : Type} {b : Nat} {Q : α → Prop},
        Restores b Q (do fail .exhausted (← here) : Parse α) :=
      neutral_here.bind fun _ => .throw
    exact ⟨fun _ => hfails, fun _ => hfails, fun _ _ => hfails, fun _ => hfails, fun _ => hfails,
      fun _ => hfails, fun _ => hfails, fun _ _ h => nomatch h⟩
  | succ n ih =>
    exact {
      expression := fun _ => restores_expressionOf ih
      assignment := fun _ => restores_assignmentOf ih
      infixes := fun _ => restores_infixesOf ih
      unary := fun _ => restores_unaryOf ih
      instantiation := fun _ => restores_instantiationOf ih
      leftHandSide := fun _ => restores_leftHandSideOf ih
      statement := fun _ => restores_statementOf ih
      whole := fun _ _ h => wholeOf_nests ih h }

end Grammar

end Typings
