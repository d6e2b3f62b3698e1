import Typings.Proofs.Syntax.Watch

namespace Typings

open Parse
open Carrier (parts)

variable {w : Watch} {T : Array Lexeme} {i n : Nat} {ps : List Part} {g : Grammar}

/-- With at most `n` tokens left, every production passes a token and none ends exhausted. -/
structure Grammar.Watched (w : Watch) (n : Nat) (g : Grammar) : Prop where
  expression : Yields w n g.expression
  assignment : Yields w n g.assignment
  infixes : ∀ least, Yields w n (g.infixes least)
  unary : Yields w n g.unary
  instantiation : Yields w n g.instantiation
  leftHandSide : Yields w n g.leftHandSide
  statement : Yields w n g.statement
  whole : ∀ ts, Lexeme.weights ts < n →
    Ends (fun e => ∃ k, w (Cursor.terminated ts).toArray 0 k (.node (.expr e)))
      (·.fault ≠ .exhausted) (g.whole ts)
  level : g = Grammar.levels n

namespace Grammar

section
variable (hg : g.Watched w n)
include hg

theorem collects_initializer : Collects w T i n ps (initializer g) := by
  refine (within_eat _).after fun b => ?_
  split
  · exact (hg.assignment.map (by simp [parts])).collects
  · exact .keep (by simp [parts])

theorem yields_param : Yields w n (param g) := by
  refine Opens.yields fun T i => (within_eat _).opens fun rest => within_get.opens fun c => ?_
  dsimp only
  split
  · exact .invalid_bind ..
  refine passes_name.opens fun name => .sub_one ?_
  split
  · exact (After.keep (by simp [parts])).bind fun init => (within_comma _).after fun _ =>
      .keep (by simp [parts])
  · exact (collects_initializer hg).bind fun init =>
      (within_comma _).after fun _ => After.keep (by simp [parts])

theorem yields_params : Yields w (n + 1) (params g) :=
  Opens.yields fun _ _ => (passes_expect _).opens fun _ => .items (yields_param hg) _

theorem collects_functionTail (name : Option String) :
    Collects w T i n ps (functionTail g name (spanAt T i)) := by
  refine (yields_params hg).fewer.andThen fun params => (collects_body).bind fun body => ?_
  exact After.close fun s => ⟨_, rfl, trivial, rfl, by simp [Node.parts]⟩

theorem yields_function : Yields w (n + 1) (function g) := by
  refine yields_here fun T i => (passes_expectKeyword _).opens fun _ => ?_
  refine (within_atPunct _).after fun b => ?_
  dsimp only
  split
  · exact within_here.after fun _ => .invalid_bind ..
  · exact within_name?.after fun name => collects_functionTail hg name

theorem yields_arrowParams : Yields w (n + 1) (arrowParams g) := by
  intro c hc
  exact .name? (fun n c' _ hpos => .pure ⟨hpos, nofun⟩) (yields_params hg hc)

theorem collects_arrowBody : Collects w T i n ps (arrowBody g) := by
  refine (within_atPunct _).after fun b => ?_
  split
  · exact collects_body
  · exact (hg.assignment.map (f := FunctionBody.concise) fun _ => .refl _).collects

theorem yields_arrow : Yields w (n + 1) (arrow g) := by
  refine yields_here fun T i => (yields_arrowParams hg).before fun params => ?_
  refine (passes_expect _).within.after fun _ => (collects_arrowBody hg).bind fun body => ?_
  refine .finish fun k hi hk hps p hp => ?_
  rw [List.mem_singleton.1 hp]
  exact w.wrapped trivial rfl rfl (w.closed hi hk trivial rfl hps)

theorem yields_listed {α : Type} [Carrier α] (spread value : Expr → α)
    (hspread : ∀ e, parts (spread e) ⊆ parts e) (hvalue : ∀ e, parts (value e) ⊆ parts e) :
    Yields w n (listed g spread value) := by
  refine Opens.yields fun T i => (within_eat _).opens fun b => ?_
  split
  · exact (hg.assignment.map hspread).opens
  · exact (hg.assignment.map hvalue).opens

theorem yields_arguments : Yields w (n + 1) (arguments g) := by
  have hargument : Yields w n (argument g) :=
    (yields_listed hg Argument.spread .value (fun _ => .refl _) fun _ => .refl _).followed
      (within_comma _)
  exact Opens.yields fun _ _ => (passes_expect _).opens fun _ => .items hargument _

theorem yields_element : Yields w n (element g) := by
  refine fun c hc => .eat (fun c' _ hpos => .pure ⟨hpos, nofun⟩) ?_
  exact (yields_listed hg ArrayElement.spread .value (fun _ => .refl _) fun _ => .refl _).followed
    (within_comma _) hc

theorem yields_array : Yields w (n + 1) (array g) := by
  refine yields_here fun T i => (passes_expect _).opens fun _ => ?_
  refine (After.items (yields_element hg) _).bind fun elements => ?_
  exact After.close fun s => ⟨_, rfl, trivial, rfl, .refl _⟩

theorem yields_propertyKey : Yields w (n + 1) (propertyKey g) := by
  refine fun c hc => .current ?_
  split
  · rename_i h
    exact .behind h hc rfl (.keep (.refl _))
  · rename_i h
    exact .behind h hc rfl (.keep (.refl _))
  · rename_i h
    exact .behind h hc rfl (hg.assignment.andThen fun _ => (passes_expect _).within.after
      fun _ => .keep (.refl _))
  · exact Opens.yields (fun _ _ => passes_propertyName.opens fun _ => .keep (.refl _)) hc

theorem collects_propertyValue (c : Cursor) (key : PropertyKey) :
    Collects w c.tokens c.pos n (parts key) (propertyValue g c key) := by
  refine within_get.after fun after => ?_
  split
  · rw [c.span_eq_spanAt]
    refine (collects_functionTail hg _).bind fun f => .give fun k hi hk hps p hp => ?_
    rcases List.mem_map.1 hp with ⟨m, hm, rfl⟩
    rcases List.mem_append.1 hm with hm | hm
    · exact hps _ (List.mem_append_left _ (List.mem_map_of_mem hm))
    · obtain rfl := List.mem_singleton.1 hm
      exact w.wrapped trivial rfl rfl (hps _ (by simp [parts]))
  refine (within_eat _).after fun b => ?_
  split
  · exact hg.assignment.andThen fun e => .keep (by simp [parts, ObjectProperty.nodes])
  split
  · split
    · refine .give fun k hi hk hps p hp => ?_
      rcases List.mem_map.1 hp with ⟨m, hm, rfl⟩
      rcases List.mem_append.1 hm with hm | hm
      · exact hps _ (List.mem_map_of_mem hm)
      · obtain rfl := List.mem_singleton.1 hm
        exact w.token hi hk trivial c.span_eq_spanAt rfl
    · exact .unexpected _
  · exact .unexpected _

theorem yields_property : Yields w n (property g) := by
  have hform : Yields w n (propertyForm g) := by
    refine yields_get fun c => (within_eat _).opens fun b => ?_
    split
    · exact hg.assignment.before fun _ => .keep (.refl _)
    split
    · refine within_advance.opens fun _ => (yields_propertyKey hg).fewer.before fun key =>
        .sub_one ?_
      rw [c.span_eq_spanAt]
      refine (collects_functionTail hg _).bind fun f => .keep ?_
      split <;> simp [parts, ObjectProperty.nodes]
    · exact (yields_propertyKey hg).fewer.before fun key =>
        .sub_one (collects_propertyValue hg c key)
  exact hform.followed (within_comma _)

theorem yields_object : Yields w (n + 1) (object g) := by
  refine yields_here fun T i => (passes_expect _).opens fun _ => ?_
  refine (After.items (yields_property hg) _).bind fun properties => ?_
  exact After.close fun s => ⟨_, rfl, trivial, rfl, .refl _⟩

omit hg in
theorem within_staticMark : Within n staticMark := by
  refine .get fun c => ?_
  dsimp only
  split
  · refine within_advance.bind fun _ => (within_atPunct _).bind fun b => ?_
    split
    · exact within_here.bind fun _ => .invalid_bind ..
    · exact .pure
  · exact .pure

omit hg in
theorem within_accessorMark : Within n accessorMark := by
  refine .get fun c => ?_
  dsimp only
  split
  · exact within_advance.bind fun _ => .pure
  · exact .pure

theorem collects_classMember (isStatic : Bool) (accessor : Option Bool) (name : String) :
    Collects w T i n ps (classMember g (spanAt T i) isStatic accessor name) := by
  unfold classMember
  split
  · refine (collects_functionTail hg _).bind fun f => .keep ?_
    split <;> simp [parts, MemberForm.nodes]
  refine (within_atPunct _).after fun b => ?_
  split
  · refine (collects_functionTail hg _).bind fun f => .keep ?_
    split <;> simp [parts, MemberForm.nodes]
  · refine (collects_initializer hg).bind fun init => within_semicolon.after fun _ => .keep ?_
    cases init <;> simp [parts, MemberForm.nodes]

theorem yields_classItem : Yields w n (classItem g) := by
  refine Opens.yields fun T i => within_get.opens fun c => ?_
  dsimp only
  split
  · exact .unexpected_bind _
  refine Yields.opens fun c hc => .eat (fun c' _ hpos => .pure ⟨hpos, nofun⟩)
    ((?_ : Yields w n _) hc)
  refine yields_here fun T i => within_staticMark.opens fun isStatic => within_accessorMark.opens
    fun accessor => (yields_propertyKey hg).fewer.before fun key => .sub_one ?_
  split
  · exact .fails (by simp)
  · exact collects_classMember hg ..

theorem collects_heritage : Collects w T i n ps (heritage g) := by
  refine (within_eatKeyword _).after fun b => ?_
  split
  · exact (hg.leftHandSide.map (by simp [parts])).collects
  · exact .keep (by simp [parts])

theorem yields_classDef : Yields w (n + 1) (classDef g) := by
  intro c hc
  have hreads : Reads c (fun d k => c.pos < k ∧ k < c.tokens.size ∧
      d.span = (spanAt c.tokens c.pos).through (spanAt c.tokens (k - 1)) ∧
      ∀ p ∈ (Node.classOf d).parts, w c.tokens c.pos k p) (classDef g) := by
    refine .here (c.span_eq_spanAt ▸ (passes_expectKeyword _ hc).opens (w := w) rfl hc
      (Nat.le_refl _) fun _ => ?_)
    refine within_name?.after fun name => (collects_heritage hg).bind fun superclass => ?_
    refine (passes_expect _).within.after fun _ =>
      (After.items (yields_classItem hg) _).bind fun items => ?_
    refine .finish fun k hi hk hps => ⟨hk, rfl, fun p hp => hps p ?_⟩
    rcases List.mem_append.1 hp with hp | hp
    · rcases List.mem_append.1 hp with hp | hp
      · exact List.mem_append_left _ (List.mem_append_right _ hp)
      · refine List.mem_append_right _ (parts_filterMap_subset ?_ _ (parts_getLast?_subset _ hp))
        rintro (_ | f | m) b h <;> cases h
        exact .refl _
    · refine List.mem_append_right _ (parts_filterMap_subset ?_ _ hp)
      rintro (_ | f | m) b h <;> cases h
      exact .refl _
  refine (hreads.and hreads.run).mono fun d k _ hd => ⟨hd.1.1, fun p hp => ?_⟩
  obtain ⟨⟨hi, hk, hspan, hparts⟩, stop, hrun⟩ := hd
  obtain rfl := hg.level
  rw [List.mem_singleton.1 hp]
  exact w.closed hi hk ⟨n, c, stop, rfl, hc, hrun⟩ hspan hparts

theorem templateElements_ends (forms : List TemplatePart) (h : TemplatePart.weights forms ≤ n) :
    Ends (fun es => ∀ p ∈ parts es, ∃ ts k, .substitution ts ∈ forms ∧
        w (Cursor.terminated ts).toArray 0 k p)
      (·.fault ≠ .exhausted) (templateElements g forms) := by
  induction forms with
  | nil => nofun
  | cons form forms ih =>
    cases form with
    | text s =>
      rw [TemplatePart.weights] at h
      refine (ih h).bind fun es hes p hp => ?_
      obtain ⟨ts, k, hts, hk⟩ := hes p hp
      exact ⟨ts, k, List.mem_cons_of_mem _ hts, hk⟩
    | substitution ts =>
      rw [TemplatePart.weights] at h
      refine (hg.whole ts (by omega)).bind fun e he => ?_
      refine (ih (by omega)).bind fun es hes p hp => ?_
      rcases List.mem_cons.1 hp with rfl | hp
      · obtain ⟨k, hk⟩ := he
        exact ⟨ts, k, List.mem_cons_self, hk⟩
      · obtain ⟨us, k, hus, hk⟩ := hes p hp
        exact ⟨us, k, List.mem_cons_of_mem _ hus, hk⟩

theorem collects_superTail : Collects w T i n ps (superTail g (spanAt T i)) := by
  refine within_current.after fun t => ?_
  split
  · exact (yields_arguments hg).fewer.andThen fun _ =>
      .close fun _ => ⟨_, rfl, trivial, rfl, by simp [Node.parts, Expr.parts]⟩
  · refine within_advance.after fun _ => passes_propertyName.within.after fun _ => ?_
    exact .close fun _ => ⟨_, rfl, trivial, rfl, by simp [Node.parts, Expr.parts]⟩
  · exact .unexpected _

theorem yields_primary : Yields w (n + 1) (primary g) := by
  refine fun c hc => .here (.current ?_)
  -- a literal, a name or `this`
  have hleaf : ∀ {t : Token} {e : Expr}, c.token = t → t.isEof = false → e.span = c.span →
      e.parts = [] → Reads c (fun e k => c.pos < k ∧ w.Holds c.tokens c.pos e k)
        (do advance; return e) := fun ht heof hspan hparts =>
    .behind ht hc heof (.leaf rfl trivial (hspan.trans c.span_eq_spanAt) hparts)
  split
  · exact hleaf ‹_› rfl rfl rfl
  · exact hleaf ‹_› rfl rfl rfl
  · rename_i forms h
    have hforms : TemplatePart.weights forms ≤ n := by
      rw [Cursor.rest_eq, h, Token.weight] at hc
      omega
    have hends := templateElements_ends hg forms hforms
    have hlexeme : c.tokens[c.pos]? = some (.template forms, c.span) := by
      rw [Array.getElem?_eq_getElem c.pos_lt, ← h]
      rfl
    refine .behind h hc rfl ?_
    split
    · rename_i elements he
      refine .give fun k hi hk _ p hp => ?_
      rw [List.mem_singleton.1 hp]
      exact w.wider (Nat.le_refl _) hi
        (w.template (Nat.lt_of_le_of_lt hi hk) hlexeme (hends.ok he))
    · rename_i e he
      exact .fails (hends.error he)
  · exact hleaf ‹_› rfl rfl rfl
  · exact hleaf ‹_› rfl rfl rfl
  · exact hleaf ‹_› rfl rfl rfl
  · exact hleaf ‹_› rfl rfl rfl
  · exact hleaf ‹_› rfl rfl rfl
  · exact (yields_function hg).wrap (f := Expr.function)
      (fun _ _ => ⟨_, _, rfl, rfl, trivial, rfl, rfl⟩) hc
  · exact (yields_classDef hg).wrap (f := Expr.classOf)
      (fun _ _ => ⟨_, _, rfl, rfl, trivial, rfl, rfl⟩) hc
  · rename_i h
    rw [c.span_eq_spanAt]
    exact .behind h hc rfl (collects_superTail hg)
  · rename_i h
    exact .behind h hc rfl (hg.expression.andThen fun _ => (passes_expect _).within.after
      fun _ => .keep (.refl _))
  · exact yields_array hg hc
  · exact yields_object hg hc
  · exact .invalid ..
  · exact .invalid ..
  · exact .error (by simp)
  · exact .invalid ..

theorem yields_bracketed : Yields w n (bracketed g) :=
  Opens.yields fun _ _ => within_advance.opens fun _ => hg.expression.before fun _ =>
    (passes_expect _).within.after fun _ => .keep (.refl _)

theorem links_calleeLink (e : Expr) :
    Links w T i n (parts e) (calleeLink g (spanAt T i) e) := by
  refine within_current.links fun t => ?_
  split
  · exact within_advance.links fun _ => passes_propertyName.links fun _ =>
      .close fun _ => ⟨_, rfl, trivial, rfl, .refl _⟩
  · exact (yields_bracketed hg).links fun _ =>
      .close fun _ => ⟨_, rfl, trivial, rfl, .refl _⟩
  · exact .stop (.refl _)

theorem links_chainLink (e : Expr) : Links w T i n (parts e) (chainLink g (spanAt T i) e) := by
  refine within_current.links fun t => ?_
  split
  · exact within_advance.links fun _ => passes_propertyName.links fun _ =>
      .close fun _ => ⟨_, rfl, trivial, rfl, .refl _⟩
  · refine within_advance.links fun _ => within_current.links fun t => ?_
    split
    · exact (yields_arguments hg).fewer.links fun _ =>
        .close fun _ => ⟨_, rfl, trivial, rfl, .refl _⟩
    · exact (yields_bracketed hg).links fun _ =>
        .close fun _ => ⟨_, rfl, trivial, rfl, .refl _⟩
    · exact passes_propertyName.links fun _ =>
        .close fun _ => ⟨_, rfl, trivial, rfl, .refl _⟩
  · exact (yields_bracketed hg).links fun _ =>
      .close fun _ => ⟨_, rfl, trivial, rfl, .refl _⟩
  · exact (yields_arguments hg).fewer.links fun _ =>
      .close fun _ => ⟨_, rfl, trivial, rfl, .refl _⟩
  · refine within_get.links fun c => ?_
    split
    · exact .stop (.refl _)
    · exact fun _ _ _ _ _ => .invalid ..
  · exact .stop (.refl _)

theorem collects_calleeHead : Collects w T i n ps (calleeHead g) := by
  refine (within_atKeyword _).after fun b => ?_
  split
  · exact hg.instantiation.collects
  · exact (yields_primary hg).fewer.collects

theorem collects_arguments? : Collects w T i n ps (arguments? g) := by
  refine (within_atPunct _).after fun b => ?_
  split
  · exact (yields_arguments hg).fewer.collects
  · exact .keep (by simp [parts])

theorem yields_instantiationOf : Yields w (n + 1) (instantiationOf g) := by
  refine yields_here fun T i => (passes_expectKeyword _).opens fun _ => ?_
  refine (within_atPunct _).after fun b => ?_
  dsimp only
  split
  · exact within_here.after fun _ => .invalid_bind ..
  refine (collects_calleeHead hg).bind fun head => ?_
  refine (After.loop (links_calleeLink hg) (by simp)).bind fun callee => ?_
  refine (collects_arguments? hg).bind fun args => ?_
  exact .close fun _ => ⟨_, rfl, trivial, rfl, by simp [Node.parts, Expr.parts]⟩

theorem yields_chainHead : Yields w (n + 1) (chainHead g) := by
  refine Opens.yields fun T i => (within_atKeyword _).opens fun b => ?_
  split
  · exact (yields_instantiationOf hg).opens
  · exact (yields_primary hg).opens

theorem yields_leftHandSideOf : Yields w (n + 1) (leftHandSideOf g) :=
  yields_here fun _ _ => (yields_chainHead hg).before fun _ =>
    .loop (links_chainLink hg) (.refl _)

theorem yields_postfixOf : Yields w (n + 1) (postfixOf g) := by
  refine yields_here fun T i => (yields_leftHandSideOf hg).before fun e =>
    within_get.after fun c => ?_
  split
  · exact .keep (.refl _)
  split
  · exact .keep (.refl _)
  · exact within_advance.after fun _ => .close fun _ => ⟨_, rfl, trivial, rfl, .refl _⟩

theorem yields_unaryOf : Yields w (n + 1) (unaryOf g) := by
  refine fun c hc => .here (.current ?_)
  rw [c.span_eq_spanAt]
  split
  · rename_i op hop
    exact .behind rfl hc (Token.isEof_of_eq_some hop rfl) (hg.unary.nested.last
      (m := fun e => .unary op e _) (fun _ => .keep (.refl _)) (fun _ => rfl) fun _ => .refl _)
  split
  · rename_i op hop
    refine .behind rfl hc (Token.isEof_of_eq_some hop rfl) (hg.unary.nested.last
      (m := fun e => .update op true e _) (fun e => ?_) (fun _ => rfl) fun _ => .refl _)
    dsimp only
    split
    · exact .keep (.refl _)
    · exact .invalid_bind ..
  · exact yields_postfixOf hg hc

theorem links_infixLink (least : Nat) (left : Expr) :
    Links w T i n (parts left) (infixLink g (spanAt T i) least left) := by
  refine within_current.links fun t => ?_
  split
  · exact .stop (.refl _)
  split
  · exact .stop (.refl _)
  rename_i op _ _
  have hjoin : ∀ right : Expr, (join op left right ((spanAt T i).through right.span)).span =
      (spanAt T i).through right.span ∧
      (join op left right ((spanAt T i).through right.span)).parts ⊆ parts left ++ parts right := by
    intro right
    cases op <;> exact ⟨rfl, .refl _⟩
  refine within_advance.links fun _ => After.links ?_ ?_
  · exact (hg.infixes _).last (fun _ => .keep (.refl _)) (fun e => (hjoin e).1)
      fun e => (hjoin e).2
  · exact (hg.infixes _).passes.andThen fun _ => .pure

theorem yields_infixesOf (least : Nat) : Yields w (n + 1) (infixesOf g least) :=
  yields_here fun _ _ => (yields_unaryOf hg).before fun _ =>
    .loop (links_infixLink hg least) (.refl _)

theorem yields_conditionalOf : Yields w (n + 1) (conditionalOf g) := by
  refine yields_here fun T i => (yields_infixesOf hg 0).before fun test => ?_
  refine (within_eat _).after fun b => ?_
  split
  · refine hg.assignment.andThen fun consequent => (passes_expect _).within.after fun _ => ?_
    exact hg.assignment.last (fun _ => .keep (.refl _)) (fun _ => rfl) fun _ => .refl _
  · exact .keep (.refl _)

theorem yields_assignmentOf : Yields w (n + 1) (assignmentOf g) := by
  refine Yields.nested (yields_get fun c => ?_)
  split
  · exact (yields_arrow hg).opens
  refine (yields_conditionalOf hg).before fun target => within_current.after fun t => ?_
  rw [c.span_eq_spanAt]
  split
  · exact .keep (.refl _)
  split
  · exact within_advance.after fun _ =>
      hg.assignment.last (fun _ => .keep (.refl _)) (fun _ => rfl) fun _ => .refl _
  · exact .invalid_bind ..

theorem links_commaLink (acc : List Expr) : Links w T i n (parts acc) (commaLink g acc) := by
  refine (within_eat _).links fun b => ?_
  split
  · exact hg.assignment.links fun _ => .keep (by simp [parts])
  · exact .stop (parts_reverse_subset acc)

theorem yields_expressionOf : Yields w (n + 1) (expressionOf g) := by
  refine yields_here fun T i => (yields_assignmentOf hg).before fun first => ?_
  refine (within_atPunct _).after fun b => ?_
  split
  · refine (After.loop (links_commaLink hg) (by simp [parts])).bind fun all => ?_
    exact .close fun _ => ⟨_, rfl, trivial, rfl, by simp [Node.parts, Expr.parts]⟩
  · exact .keep (.refl _)

theorem wholeOf_ends {ts : List Lexeme} (h : Lexeme.weights ts ≤ n) :
    Ends (fun e => ∃ k, w (Cursor.terminated ts).toArray 0 k (.node (.expr e)))
      (·.fault ≠ .exhausted) (wholeOf g ts) := by
  refine Reads.ends (c := Cursor.ofTokens ts) (Q := fun e _ =>
    ∃ k, w (Cursor.terminated ts).toArray 0 k (.node (.expr e))) ?_
  have hrest : (Cursor.ofTokens ts).rest ≤ n + 1 :=
    Nat.le_trans (Cursor.rest_ofTokens ts) (Nat.succ_le_succ h)
  refine (yields_expressionOf hg hrest).bind fun e c' _ he => .get ?_
  split
  · exact .pure ⟨_, he.2 _ (List.mem_singleton.2 rfl)⟩
  · exact (Reads.unexpected (Q := fun _ _ => False) _).bind fun _ _ _ h => h.elim

theorem yields_declarator (kind : VariableKind) : Yields w n (declarator g kind) := by
  refine Opens.yields fun T i => within_get.opens fun c => ?_
  dsimp only
  split
  · exact .invalid_bind ..
  refine passes_name.opens fun name => .sub_one ((collects_initializer hg).bind fun init => ?_)
  split
  · exact within_previous.after fun _ => .invalid_bind ..
  · exact .keep (.refl _)

theorem links_declaratorLink (kind : VariableKind) (acc : List (String × Option Expr)) :
    Links w T i n (parts acc) (declaratorLink g kind acc) := by
  refine (yields_declarator hg kind).links fun d => (within_eat _).after fun b => ?_
  split
  · exact .keep (by simp [parts])
  · exact .keep (List.Subset.trans (parts_reverse_subset _) (by simp [parts]))

theorem collects_alternative : Collects w T i n ps (alternative g) := by
  refine (within_eatKeyword _).after fun b => ?_
  split
  · exact (hg.statement.map (by simp [parts])).collects
  · exact .keep (by simp [parts])

theorem yields_branch : Yields w (n + 1) (branch g) := by
  refine yields_here fun T i => within_advance.opens fun _ => ?_
  refine (passes_expect _).opens fun _ => hg.expression.andThen fun condition => ?_
  refine (passes_expect _).within.after fun _ => hg.statement.andThen fun consequent => ?_
  refine (collects_alternative hg).bind fun alternate => ?_
  exact .close fun _ => ⟨_, rfl, trivial, rfl, .refl _⟩

theorem yields_blockItem : Yields w n (blockItem g) := by
  refine Opens.yields fun T i => within_get.opens fun c => ?_
  dsimp only
  split
  · exact .unexpected_bind _
  · exact hg.statement.opens

theorem within_skipStatement : Within n (skipStatement g) := by
  refine (within_atPunct _).bind fun b => ?_
  split
  · exact within_skipGroup
  · exact hg.statement.passes.within.map

omit hg in
theorem collects_unsupported (construct : String) :
    Collects w T i n ps (unsupported construct (spanAt T i)) :=
  .close fun _ => ⟨_, rfl, trivial, rfl, List.nil_subset _⟩

omit hg in
theorem within_skipCatch : Within n skipCatch := by
  refine (within_eatKeyword _).bind fun b => ?_
  split
  · refine (within_atPunct _).bind fun b => ?_
    split
    · exact within_skipGroup.bind fun _ => passes_braces.within.map
    · exact passes_braces.within.map
  · exact .pure

omit hg in
theorem within_skipFinally : Within n skipFinally := by
  refine (within_eatKeyword _).bind fun b => ?_
  split
  · exact passes_braces.within.map
  · exact .pure

omit hg in
theorem yields_attempt : Yields w n attempt := by
  refine yields_here fun T i => within_advance.opens fun _ => ?_
  refine Passes.opens passes_braces.map fun _ => within_skipCatch.after fun _ => ?_
  exact within_skipFinally.after fun _ => collects_unsupported _

theorem collects_returnValue : Collects w T i n ps (returnValue g) := by
  refine within_get.after fun c => ?_
  split
  · exact .keep (by simp [parts])
  · exact (hg.expression.map (by simp [parts])).collects

end

section
variable {c : Cursor} (ht : c.token.isEof = false) (hc : c.rest ≤ n + 1)
include ht hc

theorem declaration_reads (hg : g.Watched w n) (kind : VariableKind) :
    Reads c (fun s k => c.pos < k ∧ w.Holds c.tokens c.pos s k) (declaration g kind) := by
  refine .here (c.span_eq_spanAt ▸ .behind rfl hc ht ?_)
  refine (After.loop (links_declaratorLink hg kind) (by simp [parts])).bind fun ds =>
    within_semicolon.after fun _ => ?_
  exact .close fun _ => ⟨_, rfl, trivial, rfl, .refl _⟩

theorem headed_reads (hg : g.Watched w n) (construct : String) :
    Reads c (fun s k => c.pos < k ∧ w.Holds c.tokens c.pos s k) (headed g construct) := by
  have htail : Collects w c.tokens c.pos n [] (do
      skipGroup
      skipStatement g
      unsupported construct (spanAt c.tokens c.pos)) :=
    within_skipGroup.after fun _ => (within_skipStatement hg).after fun _ =>
      collects_unsupported _
  refine .here (c.span_eq_spanAt ▸ .behind rfl hc ht ((within_atName _).after fun b => ?_))
  dsimp only
  split
  · exact within_advance.after fun _ => htail
  · exact htail

theorem jump_reads (construct : String) :
    Reads c (fun s k => c.pos < k ∧ w.Holds c.tokens c.pos s k) (jump construct) := by
  refine .here (c.span_eq_spanAt ▸ .behind rfl hc ht (within_get.after fun c => ?_))
  dsimp only
  split
  · exact within_advance.after fun _ => within_semicolon.after fun _ => collects_unsupported _
  · exact within_semicolon.after fun _ => collects_unsupported _

end

section
variable (hg : g.Watched w n)
include hg

theorem yields_statementBody : Yields w (n + 1) (statementBody g) := by
  refine fun c hc => .get ?_
  dsimp only
  -- every word of a statement is a token other than the end
  have hword : ∀ {t : Token}, c.token = t → t.isEof = false → c.token.isEof = false :=
    fun h ht => h ▸ ht
  rw [c.span_eq_spanAt]
  split
  · rename_i h
    exact declaration_reads (hword h rfl) hc hg .lexical
  · rename_i h
    exact declaration_reads (hword h rfl) hc hg .constant
  · rename_i h
    exact declaration_reads (hword h rfl) hc hg .var
  · exact (yields_function hg).wrap (f := Statement.function)
      (fun _ _ => ⟨_, _, rfl, rfl, trivial, rfl, rfl⟩) hc
  · exact (yields_classDef hg).wrap (f := Statement.classOf)
      (fun _ _ => ⟨_, _, rfl, rfl, trivial, rfl, rfl⟩) hc
  · exact yields_branch hg hc
  · rename_i h
    exact .behind h hc rfl ((After.items (yields_blockItem hg) _).bind fun _ =>
      .close fun _ => ⟨_, rfl, trivial, rfl, .refl _⟩)
  · rename_i h
    exact .behind h hc rfl ((collects_returnValue hg).bind fun _ =>
      within_semicolon.after fun _ => .close fun _ => ⟨_, rfl, trivial, rfl, .refl _⟩)
  · rename_i h
    exact .behind h hc rfl (hg.expression.andThen fun _ => within_semicolon.after fun _ =>
      .close fun _ => ⟨_, rfl, trivial, rfl, .refl _⟩)
  · rename_i h
    exact .behind h hc rfl (.leaf rfl trivial rfl rfl)
  · rename_i h
    exact headed_reads (hword h rfl) hc hg _
  · rename_i h
    exact headed_reads (hword h rfl) hc hg _
  · rename_i h
    exact headed_reads (hword h rfl) hc hg _
  · rename_i h
    refine .behind h hc rfl ((within_skipStatement hg).after fun _ =>
      (passes_expectKeyword _).within.after fun _ => ?_)
    exact within_skipGroup.after fun _ => (within_eat _).map.after fun _ =>
      collects_unsupported _
  · exact yields_attempt hc
  · rename_i h
    exact jump_reads (hword h rfl) hc _
  · rename_i h
    exact jump_reads (hword h rfl) hc _
  · rename_i h
    exact .behind h hc rfl (within_semicolon.after fun _ => .leaf rfl trivial rfl rfl)
  · exact .invalid ..
  · exact .invalid ..
  · split
    · rename_i hlabel
      have heof : c.token.isEof = false := by
        rcases Option.isSome_iff_exists.1 (Bool.and_eq_true_iff.1 hlabel).1 with ⟨name, hname⟩
        exact Token.isEof_of_eq_some hname rfl
      exact .behind rfl hc heof (within_advance.after fun _ => hg.statement.collects)
    · refine (yields_expressionOf hg).before (T := c.tokens) (i := c.pos) (fun e =>
        within_semicolon.after fun _ => ?_) rfl hc (Nat.le_refl _)
      exact .close fun _ => ⟨_, rfl, trivial, rfl, .refl _⟩

theorem yields_statementOf : Yields w (n + 1) (statementOf g) := (yields_statementBody hg).nested

end

theorem passes_foreignName : Passes n foreignName := by
  refine fun c hc => .current ?_
  split
  · rename_i h
    exact .past h hc rfl .pure
  · exact passes_propertyName hc

theorem within_renamed (name : String) {other : Parse String} (h : Within n other) :
    Within n (renamed name other) := by
  refine (within_atName _).bind fun b => ?_
  split
  · exact within_advance.bind fun _ => h
  · exact .pure

theorem passes_importedName : Passes n importedName :=
  passes_foreignName.andThen fun _ => (within_renamed _ passes_name.within).bind fun _ =>
    (within_comma _).bind fun _ => .pure

theorem within_importSource (decl : ImportDecl) : Within n (importSource decl) := by
  refine (within_atName _).bind fun b => ?_
  dsimp only
  split
  · refine within_advance.bind fun _ => within_current.bind fun t => ?_
    split
    · exact within_advance.bind fun _ => within_semicolon.bind fun _ =>
        within_previous.bind fun _ => .pure
    · exact within_unexpected _
  · exact .unexpected_bind _

theorem within_importNames (decl : ImportDecl) : Within n (importNames decl) := by
  refine (within_eat _).bind fun b => ?_
  split
  · refine (within_atName _).bind fun b => ?_
    dsimp only
    split
    · exact within_advance.bind fun _ => passes_name.within.bind fun _ => within_importSource _
    · exact .unexpected_bind _
  refine (within_eat _).bind fun b => ?_
  split
  · exact (within_itemsUntil passes_importedName _).bind fun _ => within_importSource _
  · exact within_unexpected _

theorem passes_importDecl : Passes n importDecl := by
  refine within_here.bind_passes fun start => (passes_expectKeyword _).andThen fun _ => ?_
  refine within_current.bind fun t => ?_
  split
  · exact within_advance.bind fun _ => within_semicolon.bind fun _ => within_previous.bind fun _ =>
      .pure
  · refine within_advance.bind fun _ => (within_eat _).bind fun b => ?_
    split
    · exact within_importNames _
    · exact within_importSource _
  · exact within_importNames _

theorem passes_exportedName : Passes n exportedName :=
  passes_name.andThen fun _ => (within_renamed _ passes_propertyName.within).bind fun _ =>
    (within_comma _).bind fun _ => .pure

section
variable (hg : g.Watched w n)
include hg

theorem collects_exportDefault (start : Span) : Collects w T i n ps (exportDefault g start) := by
  have hvalue : Collects w T i n ps (defaultExport g) := by
    refine within_current.after fun t => ?_
    split
    · exact (yields_classDef hg).fewer.andThen fun _ => .keep (List.subset_append_right ..)
    · exact (yields_function hg).fewer.andThen fun _ => .keep (List.subset_append_right ..)
    · exact (yields_assignmentOf hg).fewer.andThen fun _ => within_semicolon.after fun _ =>
        .keep (List.subset_append_right ..)
  exact within_advance.after fun _ => hvalue.bind fun _ => within_previous.after fun _ =>
    .keep (List.subset_append_right ..)

theorem yields_exportItem : Yields w (n + 1) (exportItem g) := by
  have hstatement : ∀ T i, Collects w T i n [] (do
      return ModuleItem.exportDeclaration (← statementOf g)) := fun _ _ =>
    (yields_statementOf hg).fewer.andThen fun _ => .keep (.refl _)
  refine yields_here fun T i => (passes_expectKeyword _).opens fun _ => ?_
  refine within_current.after fun t => ?_
  split
  · exact collects_exportDefault hg _
  · refine within_advance.after fun _ => (within_itemsUntil passes_exportedName _).after
      fun _ => ?_
    refine (within_atName _).after fun b => ?_
    dsimp only
    split
    · exact within_here.after fun _ => .invalid_bind ..
    · exact within_semicolon.after fun _ => within_previous.after fun _ => .keep (.refl _)
  · exact hstatement ..
  · exact hstatement ..
  · exact hstatement ..
  · exact hstatement ..
  · exact hstatement ..
  · exact within_here.after fun _ => .fails (by simp)
  · exact .unexpected _

theorem yields_moduleItem : Yields w (n + 1) (moduleItem g) := by
  have hstatement : ∀ T i, Opens w T i (n + 1) (do
      return ModuleItem.statement (← statementOf g)) := fun _ _ =>
    (yields_statementOf hg).before fun _ => .keep (.refl _)
  refine Opens.yields fun T i => within_get.opens fun c => ?_
  split
  · split
    · exact hstatement ..
    · exact hstatement ..
    · exact passes_importDecl.opens fun _ => .keep (.refl _)
  · exact (yields_exportItem hg).opens
  · exact hstatement ..

end

theorem levels_watched (n : Nat) : (levels n).Watched w n := by
  induction n with
  | zero =>
    have hnone : ∀ {α : Type} [Carrier α] (x : Parse α), Yields w 0 x :=
      fun x c hc => absurd c.rest_pos (Nat.not_lt.2 hc)
    exact ⟨hnone _, hnone _, fun _ => hnone _, hnone _, hnone _, hnone _, hnone _,
      fun ts hts => absurd hts (Nat.not_lt_zero _), rfl⟩
  | succ n ih =>
    exact {
      expression := yields_expressionOf ih
      assignment := yields_assignmentOf ih
      infixes := yields_infixesOf ih
      unary := yields_unaryOf ih
      instantiation := yields_instantiationOf ih
      leftHandSide := yields_leftHandSideOf ih
      statement := yields_statementOf ih
      whole := fun ts hts => wholeOf_ends ih (Nat.le_of_lt_succ hts)
      level := rfl }

/-- The same when nothing is asked of what is read. -/
abbrev Sound (n : Nat) (g : Grammar) : Prop := g.Watched .idle n

theorem levels_sound (n : Nat) : (levels n).Sound n := levels_watched n

theorem for_sound (ts : List Lexeme) : (Grammar.for ts).Sound (Lexeme.weights ts + 1) :=
  levels_sound _

theorem passes_moduleItem (hg : g.Sound n) : Passes (n + 1) (moduleItem g) :=
  (yields_moduleItem hg).passes

theorem passes_classDef (hg : g.Sound n) : Passes (n + 1) (classDef g) :=
  (yields_classDef hg).passes

end Grammar

namespace Parse

theorem statements_reads {w : Watch} (hg : g.Watched w n) {c : Cursor}
    (hc : c.rest ≤ n + 1) :
    Reads c (w.Holds c.tokens c.pos) (loop [] (statementStep g)) := by
  refine loop_reads (I := w.Holds c.tokens c.pos) (fun acc c' hl hc' hacc => .get ?_) hc nofun
  split
  · exact .pure fun p hp => hacc p (parts_reverse_subset acc hp)
  refine (Grammar.yields_statementOf hg hc').bind fun s c'' hl' hs => .pure ⟨hs.1, fun p hp => ?_⟩
  rcases List.mem_append.1 hp with hp | hp
  · exact w.wider hl.pos_le (Nat.le_refl _) (hl.tokens ▸ hs.2 p hp)
  · exact w.wider (Nat.le_refl _) hl'.pos_le (hacc p hp)

/-- A step that goes on passes a token, and so does one at the error unless it is the end. -/
theorem resyncStep_reads (start : Nat) (c : Cursor) :
    Reads c (fun r k => (r.isLeft → c.pos < k) ∧
      (start = c.pos → c.token.isEof = false → c.pos < k))
      (resyncStep start ()) := by
  refine .get ?_
  split
  · rename_i hend
    refine .pure ⟨by simp, fun _ heof => ?_⟩
    rw [Cursor.atEnd, heof] at hend
    cases hend
  · rename_i hend
    have hadvance := Reads.advance (Bool.not_eq_true _ ▸ hend)
    split
    · exact hadvance.bind fun _ c' _ hpos => .pure ⟨fun _ => hpos, fun _ _ => hpos⟩
    split
    · rename_i hstart
      refine .pure ⟨by simp, fun hpos _ => ?_⟩
      simp [hpos] at hstart
    · exact hadvance.bind fun _ c' _ hpos => .pure ⟨fun _ => hpos, fun _ _ => hpos⟩

/-- Looking for the next statement passes a token, unless there is none. -/
theorem resync_reads (c : Cursor) :
    Reads c (fun _ k => c.token.isEof = false → c.pos < k) resync := by
  refine .get (.get ?_)
  refine (resyncStep_reads c.pos c).bind fun r c' hl hr => ?_
  cases r with
  | inr _ => exact .pure (hr.2 rfl)
  | inl _ =>
    have hpos := hr.1 rfl
    refine (repeated_reads (n := c'.rest) (I := fun _ _ => True) (R := fun _ _ => True) ?_ _ _ _
      .refl (hl.remaining_lt hpos) (Nat.le_refl _) trivial).mono fun _ _ hle _ _ =>
        Nat.lt_of_lt_of_le hpos hle
    intro _ c _ _ _
    refine (resyncStep_reads _ c).mono fun r k _ hr => ?_
    cases r with
    | inl _ => exact ⟨hr.1 rfl, trivial⟩
    | inr _ => trivial

theorem moduleStep_reads (hg : g.Sound n) {c : Cursor} (hc : c.rest ≤ n + 1)
    {acc : List ModuleItem × List ParseError} (hacc : ∀ e ∈ acc.2, e.fault ≠ .exhausted) :
    Reads c (fun r k => r.elim (fun acc' => c.pos < k ∧ ∀ e ∈ acc'.2, e.fault ≠ .exhausted)
      fun res => ∀ e ∈ res.2, e.fault ≠ .exhausted) (moduleStep g acc) := by
  refine .get ?_
  split
  · refine .pure fun e he => ?_
    exact hacc e (List.mem_reverse.1 he)
  rename_i hend
  refine .tryCatch ?_ fun e c' hl he => ?_
  · exact (Grammar.passes_moduleItem hg hc).bind fun item c' _ hpos => .pure ⟨hpos, hacc⟩
  · refine (resync_reads c').bind fun _ c'' hl' hresync => .pure ⟨?_, ?_⟩
    -- an item that failed on its first token passed none, but then looking for the next one does
    · rcases Nat.lt_or_eq_of_le hl.pos_le with hpos | hpos
      · exact Nat.lt_of_lt_of_le hpos hl'.pos_le
      · rw [hpos]
        refine hresync ?_
        rw [hl.token_eq hpos]
        exact Bool.not_eq_true _ ▸ hend
    · intro e' he'
      rcases List.mem_cons.1 he' with rfl | he'
      · exact he
      · exact hacc e' he'

theorem wholeModule_reads (hg : g.Sound n) {c : Cursor} (hc : c.rest ≤ n + 1) :
    Reads c (fun res _ => ∀ e ∈ res.2.1, e.fault ≠ .exhausted) (wholeModule g) := by
  refine .here ?_
  have hloop :
      Reads c (fun (res : List ModuleItem × List ParseError) _ => ∀ e ∈ res.2, e.fault ≠ .exhausted)
        (loop ([], []) (moduleStep g)) :=
    loop_reads (I := fun acc _ => ∀ e ∈ acc.2, e.fault ≠ .exhausted)
      (fun acc c _ hc hacc => moduleStep_reads hg hc hacc) hc (by simp)
  exact hloop.bind fun res _ _ hres => .here (.pure hres)

end Parse

theorem Statement.ofTokens_holds (w : Watch) (ts : List Lexeme) :
    Ends (fun ss => ∃ k, w.Holds (Cursor.terminated ts).toArray 0 ss k) (·.fault ≠ .exhausted)
      (Statement.ofTokens ts) :=
  (statements_reads (Grammar.levels_watched _) (c := Cursor.ofTokens ts)
    (Nat.le_succ_of_le (Cursor.rest_ofTokens ts))).ends.mono (fun _ h => ⟨_, h⟩) fun _ => id

theorem Statement.ofTokens_ends (ts : List Lexeme) :
    Ends (fun _ => True) (·.fault ≠ .exhausted) (Statement.ofTokens ts) :=
  (Statement.ofTokens_holds .idle ts).mono (fun _ _ => trivial) fun _ => id

theorem Module.ofTokens_ends (ts : List Lexeme) :
    Ends (fun _ => True) (fun errors => ∀ e ∈ errors, e.fault ≠ .exhausted)
      (Module.ofTokens ts) := by
  have hread := (wholeModule_reads (Grammar.for_sound ts) (c := Cursor.ofTokens ts)
    (Nat.le_succ_of_le (Cursor.rest_ofTokens ts))).ends
  unfold Module.ofTokens
  split
  · trivial
  · rename_i errors _ h
    exact hread.ok h
  · rename_i e h
    intro e' he'
    obtain rfl := List.mem_singleton.1 he'
    exact hread.error h

theorem Expr.ofTokens_ends (ts : List Lexeme) :
    Ends (fun _ => True) (·.fault ≠ .exhausted) (Expr.ofTokens ts) :=
  (Grammar.wholeOf_ends (Grammar.for_sound ts) (Nat.le_succ _)).mono
    (fun _ _ => trivial) fun _ => id

end Typings
