import Typings.Proofs.Syntax.Pairing

namespace Typings

open Parse

theorem Grammar.atStatic_eq (c : Cursor) : atStatic c = (c.token.name? == some "static" &&
    !((c.peek 1).isPunct .leftParen || (c.peek 1).isPunct .equal || (c.peek 1).isPunct .semicolon ||
      (c.peek 1).isPunct .rightBrace)) := by
  unfold atStatic
  congr 1
  cases c.peek 1 with
  | punct p => cases p <;> rfl
  | _ => rfl

namespace Cursor.Sees

variable {L : Likeness} {c d : Cursor} (h : c.Sees L d)
include h

theorem next_of_name {n : String} (hname : c.token.name? = some n) :
    (c.peek 1).Like L.span (d.peek 1) := by
  have hpunct : ∀ p, c.token.isPunct p = false := by
    intro p
    cases ht : c.token <;> simp_all [Token.name?, Token.isPunct]
  exact h.next (hpunct _) (hpunct _)

theorem accessor? : Grammar.accessor? d = Grammar.accessor? c := by
  unfold Grammar.accessor?
  rcases h.token.eq_or with ht | ⟨parts, parts', ht, ht'⟩
  · rw [ht]
    split
    · rename_i hget
      have hname : c.token.name? = some "get" := by rw [hget]; rfl
      rw [(h.next_of_name hname).congr Grammar.startsKey fun _ _ => rfl]
    · rename_i hset
      have hname : c.token.name? = some "set" := by rw [hset]; rfl
      rw [(h.next_of_name hname).congr Grammar.startsKey fun _ _ => rfl]
    · rfl
  · rw [ht, ht']

theorem atStatic : Grammar.atStatic d = Grammar.atStatic c := by
  rw [Grammar.atStatic_eq, Grammar.atStatic_eq, h.token.name?]
  cases hname : c.token.name? with
  | none => rfl
  | some n => simp only [(h.next_of_name hname).isPunct]

theorem label : (c.token.name?.isSome && (d.peek 1).isPunct .colon) =
    (c.token.name?.isSome && (c.peek 1).isPunct .colon) := by
  cases hname : c.token.name? with
  | none => rfl
  | some n => rw [(h.next_of_name hname).isPunct]

end Cursor.Sees

/-- How steps through two class bodies are compared. -/
def Grammar.ClassItem.Like (L : Likeness) : ClassItem → ClassItem → Prop
  | .separator, i' => i' = .separator
  | .constructor f, i' => ∃ f', i' = .constructor f' ∧ f.Like L f'
  | .member m, i' => ∃ m', i' = .member m' ∧ m.Like L m'

/-- The productions of one grammar are followed by those of another. -/
structure Grammar.Parallel (A : Pairing) (g g' : Grammar) : Prop where
  level : ∃ n, g = Grammar.levels n
  expression : Follows A (Expr.Like A.like) g.expression g'.expression
  assignment : Follows A (Expr.Like A.like) g.assignment g'.assignment
  infixes : ∀ least, Follows A (Expr.Like A.like) (g.infixes least) (g'.infixes least)
  unary : Follows A (Expr.Like A.like) g.unary g'.unary
  instantiation : Follows A (Expr.Like A.like) g.instantiation g'.instantiation
  leftHandSide : Follows A (Expr.Like A.like) g.leftHandSide g'.leftHandSide
  statement : Follows A (Statement.Like A.like) g.statement g'.statement
  whole : ∀ {ts ts' e}, Lexeme.AllLike A.like.span ts ts' → g.whole ts = .ok e →
    (∃ e', e.Like A.like.inside e') ∧
      (Exhausted (g'.whole ts') ∨ ∃ e', g'.whole ts' = .ok e' ∧ e.Like A.like.inside e')

namespace Grammar

variable {A : Pairing} (hA : A.Sound) {g g' : Grammar} (hg : g.Parallel A g')
variable {start start' : Span}

section
include hA

theorem follows_close {α : Type} {R : α → α → Prop} {mk mk' : Span → α}
    (hstart : A.like.span start start')
    (hmk : ∀ s s', A.like.span (start.through s) (start'.through s') → R (mk s) (mk' s')) :
    Follows A R (do return mk (← previous)) (do return mk' (← previous)) :=
  (follows_previous hA).bind fun _ _ hs => .pure (hmk _ _ (hA.like.through hstart hs))

include hg

theorem follows_initializer :
    Follows A (Expr.OptLike A.like) (initializer g) (initializer g') := by
  apply (follows_eat hA _).andThen
  intro b
  split
  · exact hg.assignment.map fun e e' he => ⟨e', rfl, he⟩
  · exact .pure rfl

theorem follows_param : Follows A (Param.Like A.like) (param g) (param g') := by
  apply (follows_eat hA _).andThen
  intro rest
  apply Follows.get hA
  intro c d hcd
  rw [hcd.token.isPunct, hcd.token.isPunct]
  dsimp only
  split
  · exact .invalid_bind ..
  apply (follows_name hA).andThen
  intro n
  have hrest : ∀ init init', Expr.OptLike A.like init init' → Follows A (Param.Like A.like)
      (do comma .rightParen; return ⟨n, init, rest⟩)
      (do comma .rightParen; return ⟨n, init', rest⟩) := by
    intro init init' h
    exact (follows_comma hA _).andThen fun _ => .pure ⟨init', rfl, h⟩
  split
  · exact hrest none none rfl
  · exact (follows_initializer hA hg).bind hrest

theorem follows_params : Follows A (Param.AllLike A.like) (params g) (params g') := by
  rw [Param.allLike_eq]
  exact (follows_expect hA _).andThen fun _ => .itemsUntil hA (follows_param hA hg) _

theorem follows_functionTail (name : Option String) (hstart : A.like.span start start') :
    Follows A (FunctionDef.Like A.like) (functionTail g name start)
      (functionTail g' name start') := by
  apply (follows_params hA hg).bind
  intro ps ps' hps
  apply hA.body.bind
  intro b b' hb
  exact follows_close hA hstart fun _ _ hs => ⟨ps', b', _, rfl, hps, hb, hs⟩

theorem follows_function : Follows A (FunctionDef.Like A.like) (function g) (function g') := by
  apply (follows_here hA).bind
  intro start start' hstart
  apply (follows_expectKeyword hA _).andThen
  intro _
  apply (follows_atPunct hA _).andThen
  intro b
  dsimp only
  split
  · apply (follows_here hA).bind
    intro s s' _
    exact .invalid_bind ..
  · exact (follows_name? hA).andThen fun name => follows_functionTail hA hg name hstart

theorem follows_arrowParams :
    Follows A (Param.AllLike A.like) (arrowParams g) (arrowParams g') := by
  apply (follows_name? hA).andThen
  intro name
  split
  · exact .pure ⟨_, _, rfl, ⟨_, rfl, rfl⟩, rfl⟩
  · exact follows_params hA hg

theorem follows_arrowBody : Follows A (FunctionBody.Like A.like) (arrowBody g) (arrowBody g') := by
  apply (follows_atPunct hA _).andThen
  intro b
  split
  · exact hA.body
  · exact hg.assignment.map fun e e' he => ⟨e', rfl, he⟩

theorem follows_arrow : Follows A (Expr.Like A.like) (arrow g) (arrow g') := by
  apply (follows_here hA).bind
  intro start start' hstart
  apply (follows_arrowParams hA hg).bind
  intro ps ps' hps
  apply (follows_expect hA _).andThen
  intro _
  apply (follows_arrowBody hA hg).bind
  intro b b' hb
  exact follows_close hA hstart fun _ _ hs => ⟨_, rfl, ps', b', _, rfl, hps, hb, hs⟩

theorem follows_listed {α : Type} {R : α → α → Prop} {spread value : Expr → α}
    (hspread : ∀ e e', e.Like A.like e' → R (spread e) (spread e'))
    (hvalue : ∀ e e', e.Like A.like e' → R (value e) (value e')) :
    Follows A R (listed g spread value) (listed g' spread value) := by
  apply (follows_eat hA _).andThen
  intro b
  split
  · exact hg.assignment.map hspread
  · exact hg.assignment.map hvalue

theorem follows_argument : Follows A (Argument.Like A.like) (argument g) (argument g') := by
  have hlisted : Follows A (Argument.Like A.like) (listed g .spread .value)
      (listed g' .spread .value) :=
    follows_listed hA hg (fun e e' he => ⟨e', rfl, he⟩) fun e e' he => ⟨e', rfl, he⟩
  exact hlisted.bind fun a a' ha => (follows_comma hA _).andThen fun _ => .pure ha

theorem follows_arguments : Follows A (Argument.AllLike A.like) (arguments g) (arguments g') := by
  rw [Argument.allLike_eq]
  exact (follows_expect hA _).andThen fun _ => .itemsUntil hA (follows_argument hA hg) _

theorem follows_element : Follows A (ArrayElement.Like A.like) (element g) (element g') := by
  have hlisted : Follows A (ArrayElement.Like A.like) (listed g .spread .value)
      (listed g' .spread .value) :=
    follows_listed hA hg (fun e e' he => ⟨e', rfl, he⟩) fun e e' he => ⟨e', rfl, he⟩
  apply (follows_eat hA _).andThen
  intro b
  split
  · exact .pure rfl
  · exact hlisted.bind fun a a' ha => (follows_comma hA _).andThen fun _ => .pure ha

theorem follows_array : Follows A (Expr.Like A.like) (array g) (array g') := by
  apply (follows_here hA).bind
  intro start start' hstart
  apply (follows_expect hA _).andThen
  intro _
  apply (Follows.itemsUntil hA (follows_element hA hg) _).bind
  intro es es' hes
  rw [← ArrayElement.allLike_eq] at hes
  exact follows_close hA hstart fun _ _ hs => ⟨es', _, rfl, hes, hs⟩

theorem follows_propertyKey :
    Follows A (PropertyKey.Like A.like) (propertyKey g) (propertyKey g') := by
  apply Follows.current hA _ fun _ _ => rfl
  intro t
  split
  · exact (follows_advance hA).andThen fun _ => .pure rfl
  · exact (follows_advance hA).andThen fun _ => .pure rfl
  · apply (follows_advance hA).andThen
    intro _
    apply hg.assignment.bind
    intro e e' he
    exact (follows_expect hA _).andThen fun _ => .pure ⟨e', rfl, he⟩
  · exact (follows_propertyName hA).andThen fun _ => .pure rfl

theorem follows_propertyValue {c d : Cursor} (hcd : c.Sees A.like d) {key key' : PropertyKey}
    (hkey : key.Like A.like key') :
    Follows A (ObjectProperty.Like A.like) (propertyValue g c key) (propertyValue g' d key') := by
  apply Follows.get hA
  intro after after' hafter
  simp only [hafter.token.isPunct, hkey.name?]
  split
  · apply (follows_functionTail hA hg _ hcd.span).bind
    intro f f' hf
    exact .pure ⟨key', _, rfl, hkey, f', rfl, hf⟩
  apply (follows_eat hA _).andThen
  intro b
  split
  · exact hg.assignment.bind fun e e' he => .pure ⟨key', e', rfl, hkey, he⟩
  rcases hcd.token.eq_or with ht | ⟨parts, parts', ht, ht'⟩
  · rw [ht]
    split
    · split
      · exact .pure ⟨key', _, rfl, hkey, _, rfl, hcd.span⟩
      · exact .unexpected _
    · exact .unexpected _
  · rw [ht]
    exact .unexpected _

theorem follows_propertyForm :
    Follows A (ObjectProperty.Like A.like) (propertyForm g) (propertyForm g') := by
  apply Follows.get hA
  intro c d hcd
  apply (follows_eat hA _).andThen
  intro b
  rw [hcd.accessor?]
  split
  · exact hg.assignment.bind fun e e' he => .pure ⟨e', rfl, he⟩
  split
  · rename_i isGetter _
    apply (follows_advance hA).andThen
    intro _
    apply (follows_propertyKey hA hg).bind
    intro key key' hkey
    rw [hkey.name?]
    apply (follows_functionTail hA hg _ hcd.span).bind
    intro f f' hf
    apply Follows.pure
    cases isGetter with
    | true => exact ⟨key', f', rfl, hkey, hf⟩
    | false => exact ⟨key', f', rfl, hkey, hf⟩
  · exact (follows_propertyKey hA hg).bind fun key key' hkey => follows_propertyValue hA hg hcd hkey

theorem follows_property : Follows A (ObjectProperty.Like A.like) (property g) (property g') :=
  (follows_propertyForm hA hg).bind fun _ _ hp => (follows_comma hA _).andThen fun _ => .pure hp

theorem follows_object : Follows A (Expr.Like A.like) (object g) (object g') := by
  apply (follows_here hA).bind
  intro start start' hstart
  apply (follows_expect hA _).andThen
  intro _
  apply (Follows.itemsUntil hA (follows_property hA hg) _).bind
  intro ps ps' hps
  rw [← ObjectProperty.allLike_eq] at hps
  exact follows_close hA hstart fun _ _ hs => ⟨ps', _, rfl, hps, hs⟩

omit hg in
theorem follows_staticMark : Follows A Eq staticMark staticMark := by
  apply Follows.get hA
  intro c d hcd
  rw [hcd.atStatic]
  dsimp only
  split
  · apply (follows_advance hA).andThen
    intro _
    apply (follows_atPunct hA _).andThen
    intro b
    split
    · exact (follows_here hA).bind fun _ _ _ => .invalid_bind ..
    · exact .pure rfl
  · exact .pure rfl

omit hg in
theorem follows_accessorMark : Follows A Eq accessorMark accessorMark := by
  apply Follows.get hA
  intro c d hcd
  rw [hcd.accessor?]
  dsimp only
  split
  · exact (follows_advance hA).andThen fun _ => .pure rfl
  · exact .pure rfl

theorem follows_classMember (hstart : A.like.span start start') (isStatic : Bool)
    (accessor : Option Bool) (n : String) :
    Follows A (ClassItem.Like A.like) (classMember g start isStatic accessor n)
      (classMember g' start' isStatic accessor n) := by
  unfold classMember
  split
  · rename_i isGetter
    apply (follows_functionTail hA hg _ hstart).bind
    intro f f' hf
    apply Follows.pure
    cases isGetter with
    | true => exact ⟨_, rfl, _, rfl, f', rfl, hf⟩
    | false => exact ⟨_, rfl, _, rfl, f', rfl, hf⟩
  apply (follows_atPunct hA _).andThen
  intro b
  split
  · apply (follows_functionTail hA hg _ hstart).bind
    intro f f' hf
    apply Follows.pure
    split
    · exact ⟨f', rfl, hf⟩
    · exact ⟨_, rfl, _, rfl, f', rfl, hf⟩
  · apply (follows_initializer hA hg).bind
    intro init init' hinit
    exact (follows_semicolon hA).andThen fun _ => .pure ⟨_, rfl, _, rfl, init', rfl, hinit⟩

theorem follows_classItem : Follows A (ClassItem.Like A.like) (classItem g) (classItem g') := by
  apply Follows.get hA
  intro c d hcd
  rw [show d.atEnd = c.atEnd from hcd.token.isEof]
  dsimp only
  split
  · exact .unexpected_bind _
  apply (follows_eat hA _).andThen
  intro b
  split
  · exact .pure rfl
  apply (follows_here hA).bind
  intro start start' hstart
  apply (follows_staticMark hA).andThen
  intro isStatic
  apply (follows_accessorMark hA).andThen
  intro accessor
  apply (follows_propertyKey hA hg).bind
  intro key key' hkey
  cases key with
  | computed e => exact .invalid ..
  | named n =>
    obtain rfl : key' = .named n := hkey
    exact follows_classMember hA hg hstart isStatic accessor n

theorem follows_heritage : Follows A (Expr.OptLike A.like) (heritage g) (heritage g') := by
  apply (follows_eatKeyword hA _).andThen
  intro b
  split
  · exact hg.leftHandSide.map fun e e' he => ⟨e', rfl, he⟩
  · exact .pure rfl

/-- What stands in a class between its first word and its last brace. -/
def classInside (g : Grammar) : Parse (Option String × Option Expr × List ClassItem) := do
  let n ← name?
  let superclass ← heritage g
  expect .leftBrace
  let items ← loop ([] : List ClassItem) fun acc => do
    if ← atPunct .rightBrace then return .inr acc.reverse
    return .inl ((← classItem g) :: acc)
  return (n, superclass, items)

def classOf (inside : Option String × Option Expr × List ClassItem) (span : Span) : ClassDef :=
  ⟨inside.1, inside.2.1,
    (inside.2.2.filterMap fun
      | .constructor f => some f
      | _ => none).getLast?,
    inside.2.2.filterMap fun
      | .member m => some m
      | _ => none, span⟩

omit hA hg in
theorem classDef_eq (g : Grammar) : classDef g = (do
    let start ← here
    expectKeyword .kwClass
    let inside ← classInside g
    expect .rightBrace
    return classOf inside (start.through (← previous))) := by
  simp only [classDef, classInside, itemsUntil, bind_assoc, pure_bind]
  rfl

omit hA hg in
theorem classOf_partsLike {inside inside' : Option String × Option Expr × List ClassItem} {s s' : Span}
    {L : Likeness} (hname : inside'.1 = inside.1) (hsuper : Expr.OptLike L inside.2.1 inside'.2.1)
    (hitems : List.Forall₂ (ClassItem.Like L) inside.2.2 inside'.2.2) (hs : L.span s s') :
    (classOf inside s).PartsLike L (classOf inside' s') := by
  refine ⟨inside'.2.1, _, _, s', by rw [classOf, hname, classOf], hsuper,
    FunctionDef.optLike_of_rel (forall₂_getLast? ?_), ?_, hs⟩
  · refine List.rel_filterMap (fun i i' hi => ?_) hitems
    cases i with
    | constructor f =>
      obtain ⟨f', rfl, hf⟩ := hi
      exact .some hf
    | separator =>
      obtain rfl : i' = .separator := hi
      exact .none
    | member m =>
      obtain ⟨m', rfl, _⟩ := hi
      exact .none
  · rw [ClassMember.allLike_eq]
    refine List.rel_filterMap (fun i i' hi => ?_) hitems
    cases i with
    | constructor f =>
      obtain ⟨f', rfl, _⟩ := hi
      exact .none
    | separator =>
      obtain rfl : i' = .separator := hi
      exact .none
    | member m =>
      obtain ⟨m', rfl, hm⟩ := hi
      exact .some hm

theorem follows_classInside :
    Follows A (fun x x' => x'.1 = x.1 ∧ Expr.OptLike A.like x.2.1 x'.2.1 ∧
      List.Forall₂ (ClassItem.Like A.like) x.2.2 x'.2.2) (classInside g) (classInside g') := by
  apply (follows_name? hA).andThen
  intro n
  apply (follows_heritage hA hg).bind
  intro superclass superclass' hsuperclass
  apply (follows_expect hA _).andThen
  intro _
  have hloop := Follows.itemsLoop hA (follows_classItem hA hg) .rightBrace
  exact hloop.bind fun items items' hitems => .pure ⟨rfl, hsuperclass, hitems⟩

theorem follows_classDef : Follows A (ClassDef.Like A.like) (classDef g) (classDef g') := by
  rw [classDef_eq, classDef_eq]
  apply (follows_here hA).bind
  intro start start' hstart
  apply (follows_expectKeyword hA _).andThen
  intro _
  apply (follows_classInside hA hg).bind
  rintro inside inside' ⟨hname, hsuper, hitems⟩
  apply (follows_expect hA _).andThen
  intro _
  exact follows_close hA hstart fun _ _ hs => ClassDef.like_iff.2
    ⟨hA.like.known _, classOf_partsLike hname hsuper hitems hs⟩

omit hA in
theorem templateElements_follow {parts parts' : List TemplatePart}
    (hparts : TemplatePart.AllLike A.like.span parts parts') {es : List TemplateElement}
    (h : templateElements g parts = .ok es) :
    (∃ es', TemplateElement.AllLike A.like es es') ∧
      (Exhausted (templateElements g' parts') ∨
        ∃ es', templateElements g' parts' = .ok es' ∧ TemplateElement.AllLike A.like es es') := by
  induction parts generalizing parts' es with
  | nil =>
    obtain rfl : parts' = [] := hparts
    cases h
    exact ⟨⟨[], rfl⟩, .inr ⟨[], rfl, rfl⟩⟩
  | cons part parts ih =>
    obtain ⟨part', rest, rfl, hpart, hrest⟩ := hparts
    cases part with
    | text s =>
      obtain rfl : part' = .text s := hpart
      obtain ⟨es, hes, hout⟩ := bind_eq_ok h
      cases hout
      obtain ⟨⟨es', hlike⟩, hsecond⟩ := ih hrest hes
      refine ⟨⟨_, _, es', rfl, rfl, hlike⟩, ?_⟩
      rcases hsecond with ⟨e, he, hfault⟩ | ⟨es', hes', hlike⟩
      · exact .inl ⟨e, by rw [templateElements, he]; rfl, hfault⟩
      · exact .inr ⟨.text s :: es', by rw [templateElements, hes']; rfl, _, _, rfl, rfl, hlike⟩
    | substitution ts =>
      obtain ⟨ts', rfl, hts⟩ := hpart
      obtain ⟨e, he, h⟩ := bind_eq_ok h
      obtain ⟨es, hes, hout⟩ := bind_eq_ok h
      cases hout
      obtain ⟨⟨e', helike⟩, hvalue⟩ := hg.whole hts he
      obtain ⟨⟨es', hlike⟩, hsecond⟩ := ih hrest hes
      refine ⟨⟨_, _, es', rfl, ⟨e', rfl, helike⟩, hlike⟩, ?_⟩
      rcases hvalue with ⟨err, herr, hfault⟩ | ⟨e', he', helike⟩
      · exact .inl ⟨err, by rw [templateElements, herr]; rfl, hfault⟩
      rcases hsecond with ⟨err, herr, hfault⟩ | ⟨es', hes', hlike⟩
      · exact .inl ⟨err, by rw [templateElements, he', herr]; rfl, hfault⟩
      · exact .inr ⟨.value e' :: es', by rw [templateElements, he', hes']; rfl, _, _, rfl,
          ⟨e', rfl, helike⟩, hlike⟩

theorem follows_superTail {span span' : Span} (hspan : A.like.span span span') :
    Follows A (Expr.Like A.like) (superTail g span) (superTail g' span') := by
  apply Follows.current hA _ fun _ _ => rfl
  intro t
  split
  · apply (follows_arguments hA hg).bind
    intro as as' has
    exact follows_close hA hspan fun _ _ hs => ⟨as', _, rfl, has, hs⟩
  · apply (follows_advance hA).andThen
    intro _
    apply (follows_propertyName hA).andThen
    intro n
    exact follows_close hA hspan fun _ _ hs => ⟨_, rfl, hs⟩
  · exact .unexpected _

theorem follows_template {span span' : Span} (hspan : A.like.span span span')
    {parts parts' : List TemplatePart} (hparts : TemplatePart.AllLike A.like.span parts parts') :
    Follows A (Expr.Like A.like)
      (do
        advance
        match templateElements g parts with
        | .ok elements => return .template elements span
        | .error e => throw e)
      (do
        advance
        match templateElements g' parts' with
        | .ok elements => return .template elements span'
        | .error e => throw e) := by
  apply (follows_advance hA).andThen
  intro _
  rcases hleft : templateElements g parts with e | es
  · exact .fail e.fault e.span
  obtain ⟨⟨es', hes⟩, hsecond⟩ := templateElements_follow hg hparts hleft
  rcases hsecond with ⟨e, he, hfault⟩ | ⟨es'', hes'', hlike⟩
  · rw [he]
    constructor
    · intro c d c' a hrel hrun
      exact .inr (.inl ⟨e, rfl, hfault⟩)
    · intro c c' a hgone hrun
      cases hrun
      exact ⟨hgone, _, es', _, rfl, hes, hspan⟩
  · rw [hes'']
    exact .pure ⟨es'', _, rfl, hlike, hspan⟩

theorem follows_primary : Follows A (Expr.Like A.like) (primary g) (primary g') := by
  apply (follows_here hA).bind
  intro span span' hspan
  apply Follows.currentTemplate hA _ fun parts parts' hparts =>
    follows_template hA hg hspan hparts
  intro t ht
  split
  · exact (follows_advance hA).andThen fun _ => .pure ⟨_, rfl, hspan⟩
  · exact (follows_advance hA).andThen fun _ => .pure ⟨_, rfl, hspan⟩
  · exact absurd rfl (ht _)
  · exact (follows_advance hA).andThen fun _ => .pure ⟨_, rfl, hspan⟩
  · exact (follows_advance hA).andThen fun _ => .pure ⟨_, rfl, hspan⟩
  · exact (follows_advance hA).andThen fun _ => .pure ⟨_, rfl, hspan⟩
  · exact (follows_advance hA).andThen fun _ => .pure ⟨_, rfl, hspan⟩
  · exact (follows_advance hA).andThen fun _ => .pure ⟨_, rfl, hspan⟩
  · exact (follows_function hA hg).bind fun f f' hf => .pure ⟨f', rfl, hf⟩
  · exact (follows_classDef hA hg).bind fun c c' hc => .pure ⟨c', rfl, hc⟩
  · exact (follows_advance hA).andThen fun _ => follows_superTail hA hg hspan
  · apply (follows_advance hA).andThen
    intro _
    apply hg.expression.bind
    intro e e' he
    exact (follows_expect hA _).andThen fun _ => .pure he
  · exact follows_array hA hg
  · exact follows_object hA hg
  · exact .invalid ..
  · exact .invalid ..
  · exact .fail ..
  · exact .invalid ..

theorem follows_bracketed : Follows A (Expr.Like A.like) (bracketed g) (bracketed g') := by
  apply (follows_advance hA).andThen
  intro _
  apply hg.expression.bind
  intro e e' he
  exact (follows_expect hA _).andThen fun _ => .pure he

omit hg in
theorem follows_link {α : Type} {R : α → α → Prop} {x y : Parse α} {f f' : α → Span → Expr}
    (hx : Follows A R x y) (hstart : A.like.span start start')
    (hf : ∀ a a' s s', R a a' → A.like.span s s' → (f a s).Like A.like (f' a' s')) :
    Follows A (Sum.LiftRel (Expr.Like A.like) (Expr.Like A.like))
      (do
        let a ← x
        return .inl (f a (start.through (← previous))))
      (do
        let a ← y
        return .inl (f' a (start'.through (← previous)))) := by
  apply hx.bind
  intro a a' ha
  exact follows_close hA hstart fun _ _ hs => .inl (hf a a' _ _ ha hs)

theorem follows_calleeLink (hstart : A.like.span start start') {e e' : Expr}
    (he : e.Like A.like e') :
    Follows A (Sum.LiftRel (Expr.Like A.like) (Expr.Like A.like)) (calleeLink g start e)
      (calleeLink g' start' e') := by
  apply Follows.current hA _ fun _ _ => rfl
  intro t
  split
  · apply (follows_advance hA).andThen
    intro _
    apply follows_link hA (follows_propertyName hA) hstart
    rintro n _ s s' rfl hs
    exact ⟨e', s', rfl, he, hs⟩
  · apply follows_link hA (follows_bracketed hA hg) hstart
    intro i i' s s' hi hs
    exact ⟨e', i', s', rfl, he, hi, hs⟩
  · exact .pure (.inr he)

theorem follows_chainLink (hstart : A.like.span start start') {e e' : Expr}
    (he : e.Like A.like e') :
    Follows A (Sum.LiftRel (Expr.Like A.like) (Expr.Like A.like)) (chainLink g start e)
      (chainLink g' start' e') := by
  apply Follows.current hA _ fun _ _ => rfl
  intro t
  split
  · apply (follows_advance hA).andThen
    intro _
    apply follows_link hA (follows_propertyName hA) hstart
    rintro n _ s s' rfl hs
    exact ⟨e', s', rfl, he, hs⟩
  · apply (follows_advance hA).andThen
    intro _
    apply Follows.current hA _ fun _ _ => rfl
    intro t
    split
    · apply follows_link hA (follows_arguments hA hg) hstart
      intro as as' s s' has hs
      exact ⟨e', as', s', rfl, he, has, hs⟩
    · apply follows_link hA (follows_bracketed hA hg) hstart
      intro i i' s s' hi hs
      exact ⟨e', i', s', rfl, he, hi, hs⟩
    · apply follows_link hA (follows_propertyName hA) hstart
      rintro n _ s s' rfl hs
      exact ⟨e', s', rfl, he, hs⟩
  · apply follows_link hA (follows_bracketed hA hg) hstart
    intro i i' s s' hi hs
    exact ⟨e', i', s', rfl, he, hi, hs⟩
  · apply follows_link hA (follows_arguments hA hg) hstart
    intro as as' s s' has hs
    exact ⟨e', as', s', rfl, he, has, hs⟩
  · apply Follows.get hA
    intro c d hcd
    rw [hcd.onNewLine]
    split
    · exact .pure (.inr he)
    · exact .invalid ..
  · exact .pure (.inr he)

theorem follows_calleeHead : Follows A (Expr.Like A.like) (calleeHead g) (calleeHead g') := by
  apply (follows_atKeyword hA _).andThen
  intro b
  split
  · exact hg.instantiation
  · exact follows_primary hA hg

theorem follows_arguments? :
    Follows A (Argument.AllLike A.like) (arguments? g) (arguments? g') := by
  apply (follows_atPunct hA _).andThen
  intro b
  split
  · exact follows_arguments hA hg
  · exact .pure rfl

theorem follows_instantiationOf :
    Follows A (Expr.Like A.like) (instantiationOf g) (instantiationOf g') := by
  apply (follows_here hA).bind
  intro start start' hstart
  apply (follows_expectKeyword hA _).andThen
  intro _
  apply (follows_atPunct hA _).andThen
  intro b
  dsimp only
  split
  · exact (follows_here hA).bind fun _ _ _ => .invalid_bind ..
  apply (follows_calleeHead hA hg).bind
  intro e e' he
  apply (Follows.loop hA (fun _ _ he => follows_calleeLink hA hg hstart he) he).bind
  intro callee callee' hcallee
  apply (follows_arguments? hA hg).bind
  intro as as' has
  exact follows_close hA hstart fun _ _ hs => ⟨callee', as', _, rfl, hcallee, has, hs⟩

theorem follows_chainHead : Follows A (Expr.Like A.like) (chainHead g) (chainHead g') := by
  apply (follows_atKeyword hA _).andThen
  intro b
  split
  · exact follows_instantiationOf hA hg
  · exact follows_primary hA hg

theorem follows_leftHandSideOf :
    Follows A (Expr.Like A.like) (leftHandSideOf g) (leftHandSideOf g') := by
  apply (follows_here hA).bind
  intro start start' hstart
  apply (follows_chainHead hA hg).bind
  intro e e' he
  exact .loop hA (fun _ _ he => follows_chainLink hA hg hstart he) he

theorem follows_postfixOf : Follows A (Expr.Like A.like) (postfixOf g) (postfixOf g') := by
  apply (follows_here hA).bind
  intro start start' hstart
  apply (follows_leftHandSideOf hA hg).bind
  intro e e' he
  apply Follows.get hA
  intro c d hcd
  rw [hcd.token.congr UpdateOp.ofToken? fun _ _ => rfl, hcd.onNewLine, he.isAssignable]
  split
  · exact .pure he
  split
  · exact .pure he
  · apply (follows_advance hA).andThen
    intro _
    exact follows_close hA hstart fun _ _ hs => ⟨e', _, rfl, he, hs⟩

theorem follows_unaryOf : Follows A (Expr.Like A.like) (unaryOf g) (unaryOf g') := by
  apply (follows_here hA).bind
  intro start start' hstart
  apply Follows.current hA _ fun _ _ => rfl
  intro t
  split
  · apply (follows_advance hA).andThen
    intro _
    apply (Follows.nested hA hg.unary).bind
    intro e e' he
    exact .pure ⟨e', _, rfl, he, hA.like.through hstart he.span⟩
  split
  · apply (follows_advance hA).andThen
    intro _
    apply (Follows.nested hA hg.unary).bind
    intro e e' he
    rw [he.isAssignable]
    dsimp only
    split
    · exact .pure ⟨e', _, rfl, he, hA.like.through hstart he.span⟩
    · exact .invalid_bind ..
  · exact follows_postfixOf hA hg

theorem follows_infixLink (hstart : A.like.span start start') (least : Nat) {e e' : Expr}
    (he : e.Like A.like e') :
    Follows A (Sum.LiftRel (Expr.Like A.like) (Expr.Like A.like)) (infixLink g start least e)
      (infixLink g' start' least e') := by
  apply Follows.current hA _ fun _ _ => rfl
  intro t
  split
  · exact .pure (.inr he)
  rename_i op _
  split
  · exact .pure (.inr he)
  · apply (follows_advance hA).andThen
    intro _
    apply (hg.infixes _).bind
    intro right right' hright
    refine .pure (.inl ?_)
    have hspan := hA.like.through hstart hright.span
    cases op with
    | binary op => exact ⟨e', right', _, rfl, he, hright, hspan⟩
    | logical op => exact ⟨e', right', _, rfl, he, hright, hspan⟩

theorem follows_infixesOf (least : Nat) :
    Follows A (Expr.Like A.like) (infixesOf g least) (infixesOf g' least) := by
  apply (follows_here hA).bind
  intro start start' hstart
  apply (follows_unaryOf hA hg).bind
  intro e e' he
  exact .loop hA (fun _ _ he => follows_infixLink hA hg hstart least he) he

theorem follows_conditionalOf :
    Follows A (Expr.Like A.like) (conditionalOf g) (conditionalOf g') := by
  apply (follows_here hA).bind
  intro start start' hstart
  apply (follows_infixesOf hA hg 0).bind
  intro test test' htest
  apply (follows_eat hA _).andThen
  intro b
  split
  · apply hg.assignment.bind
    intro e e' he
    apply (follows_expect hA _).andThen
    intro _
    apply hg.assignment.bind
    intro f f' hf
    exact .pure ⟨test', e', f', _, rfl, htest, he, hf, hA.like.through hstart hf.span⟩
  · exact .pure htest

theorem follows_ifArrow {x y : Cursor → Parse Expr}
    (h : ∀ c d, c.Sees A.like d → Follows A (Expr.Like A.like) (x c) (y d)) :
    Follows A (Expr.Like A.like) (get >>= fun c => if atArrow c then arrow g else x c)
      (get >>= fun d => if atArrow d then arrow g' else y d) := by
  constructor
  · intro c d c' e hrel hrun
    change (if atArrow c then arrow g else x c) c = _ at hrun
    change A.Meets _ e c' ((if atArrow d then arrow g' else y d) d)
    rcases hA.atArrow hrel with heq | ⟨harrow, hgone⟩
    · rw [heq]
      split at hrun
      · rename_i harrow
        rw [if_pos harrow]
        exact (follows_arrow hA hg).together hrel hrun
      · rename_i harrow
        rw [if_neg harrow]
        exact (h c d (hA.sees hrel)).together hrel hrun
    · rw [if_pos harrow] at hrun
      obtain ⟨n, rfl⟩ := hg.level
      exact .inl (hgone hrun)
  · intro c c' e hgone hrun
    change (if atArrow c then arrow g else x c) c = _ at hrun
    split at hrun
    · exact (follows_arrow hA hg).alone hgone hrun
    · exact (h c c (hA.sees_gone hgone)).alone hgone hrun

theorem follows_assignmentOf :
    Follows A (Expr.Like A.like) (assignmentOf g) (assignmentOf g') := by
  apply Follows.nested hA
  apply follows_ifArrow hA hg
  intro c d hcd
  apply (follows_conditionalOf hA hg).bind
  intro target target' htarget
  apply Follows.current hA _ fun _ _ => rfl
  intro t
  rw [htarget.isAssignable]
  split
  · exact .pure htarget
  split
  · apply (follows_advance hA).andThen
    intro _
    apply hg.assignment.bind
    intro value value' hvalue
    exact .pure ⟨target', value', _, rfl, htarget, hvalue, hA.like.through hcd.span hvalue.span⟩
  · exact .invalid_bind ..

theorem follows_commaLink {es es' : List Expr} (hes : List.Forall₂ (Expr.Like A.like) es es') :
    Follows A (Sum.LiftRel (List.Forall₂ (Expr.Like A.like)) (List.Forall₂ (Expr.Like A.like)))
      (commaLink g es) (commaLink g' es') := by
  apply (follows_eat hA _).andThen
  intro b
  split
  · exact hg.assignment.bind fun e e' he => .pure (.inl (.cons he hes))
  · exact .pure (.inr (List.rel_reverse hes))

theorem follows_expressionOf :
    Follows A (Expr.Like A.like) (expressionOf g) (expressionOf g') := by
  apply (follows_here hA).bind
  intro start start' hstart
  apply (follows_assignmentOf hA hg).bind
  intro e e' he
  apply (follows_atPunct hA _).andThen
  intro b
  split
  · apply (Follows.loop hA (fun _ _ hes => follows_commaLink hA hg hes) (.cons he .nil)).bind
    intro es es' hes
    rw [← Expr.allLike_eq] at hes
    exact follows_close hA hstart fun _ _ hs => ⟨es', _, rfl, hes, hs⟩
  · exact .pure he

theorem follows_declarator (kind : VariableKind) :
    Follows A (fun d d' => d'.1 = d.1 ∧ Expr.OptLike A.like d.2 d'.2) (declarator g kind)
      (declarator g' kind) := by
  apply Follows.get hA
  intro c d hcd
  simp only [hcd.token.isPunct]
  split
  · exact .invalid_bind ..
  apply (follows_name hA).andThen
  intro n
  apply (follows_initializer hA hg).bind
  intro init init' hinit
  rw [hinit.isNone]
  split
  · exact (follows_previous hA).bind fun _ _ _ => .invalid_bind ..
  · exact .pure ⟨rfl, hinit⟩

theorem follows_declaration (kind : VariableKind) :
    Follows A (Statement.Like A.like) (declaration g kind) (declaration g' kind) := by
  have hlink : ∀ ds ds',
      List.Forall₂ (fun d d' => d'.1 = d.1 ∧ Expr.OptLike A.like d.2 d'.2) ds ds' →
      Follows A (Sum.LiftRel
          (List.Forall₂ fun d d' => d'.1 = d.1 ∧ Expr.OptLike A.like d.2 d'.2)
          (List.Forall₂ fun d d' => d'.1 = d.1 ∧ Expr.OptLike A.like d.2 d'.2))
        (declaratorLink g kind ds) (declaratorLink g' kind ds') := by
    intro ds ds' hds
    apply (follows_declarator hA hg kind).bind
    intro d d' hd
    apply (follows_eat hA _).andThen
    intro b
    split
    · exact .pure (.inl (.cons hd hds))
    · exact .pure (.inr (List.rel_reverse (.cons hd hds)))
  apply (follows_here hA).bind
  intro start start' hstart
  apply (follows_advance hA).andThen
  intro _
  apply (Follows.loop hA hlink .nil).bind
  intro ds ds' hds
  apply (follows_semicolon hA).andThen
  intro _
  exact follows_close hA hstart fun _ _ hs => ⟨ds', _, rfl, hds, hs⟩

theorem follows_alternative :
    Follows A (Statement.OptLike A.like) (alternative g) (alternative g') := by
  apply (follows_eatKeyword hA _).andThen
  intro b
  split
  · exact hg.statement.map fun t t' ht => ⟨t', rfl, ht⟩
  · exact .pure rfl

theorem follows_branch : Follows A (Statement.Like A.like) (branch g) (branch g') := by
  apply (follows_here hA).bind
  intro start start' hstart
  apply (follows_advance hA).andThen
  intro _
  apply (follows_expect hA _).andThen
  intro _
  apply hg.expression.bind
  intro e e' he
  apply (follows_expect hA _).andThen
  intro _
  apply hg.statement.bind
  intro t t' ht
  apply (follows_alternative hA hg).bind
  intro u u' hu
  exact follows_close hA hstart fun _ _ hs => ⟨e', t', u', _, rfl, he, ht, hu, hs⟩

theorem follows_blockItem : Follows A (Statement.Like A.like) (blockItem g) (blockItem g') := by
  apply Follows.get hA
  intro c d hcd
  rw [show d.atEnd = c.atEnd from hcd.token.isEof]
  dsimp only
  split
  · exact .unexpected_bind _
  · exact hg.statement

theorem follows_skipStatement : Follows A Eq (skipStatement g) (skipStatement g') := by
  apply (follows_atPunct hA _).andThen
  intro b
  split
  · exact follows_skipGroup hA
  · exact hg.statement.map fun _ _ _ => rfl

omit hg in
theorem follows_unsupported (construct : String) (hstart : A.like.span start start') :
    Follows A (Statement.Like A.like) (unsupported construct start)
      (unsupported construct start') :=
  (follows_previous hA).bind fun _ _ hs => .pure ⟨_, rfl, hA.like.through hstart hs⟩

theorem follows_headed (construct : String) :
    Follows A (Statement.Like A.like) (headed g construct) (headed g' construct) := by
  apply (follows_here hA).bind
  intro start start' hstart
  have htail : Follows A (Statement.Like A.like)
      (do
        skipGroup
        skipStatement g
        unsupported construct start)
      (do
        skipGroup
        skipStatement g'
        unsupported construct start') :=
    (follows_skipGroup hA).andThen fun _ => (follows_skipStatement hA hg).andThen fun _ =>
      follows_unsupported hA construct hstart
  apply (follows_advance hA).andThen
  intro _
  apply (follows_atName hA _).andThen
  intro b
  dsimp only
  split
  · exact (follows_advance hA).andThen fun _ => htail
  · exact htail

omit hg in
theorem follows_jump (construct : String) :
    Follows A (Statement.Like A.like) (jump construct) (jump construct) := by
  apply (follows_here hA).bind
  intro start start' hstart
  have htail : Follows A (Statement.Like A.like)
      (do
        semicolon
        unsupported construct start)
      (do
        semicolon
        unsupported construct start') :=
    (follows_semicolon hA).andThen fun _ => follows_unsupported hA construct hstart
  apply (follows_advance hA).andThen
  intro _
  apply Follows.get hA
  intro c d hcd
  rw [hcd.token.name?, hcd.onNewLine]
  dsimp only
  split
  · exact (follows_advance hA).andThen fun _ => htail
  · exact htail

omit hg in
theorem follows_attempt : Follows A (Statement.Like A.like) attempt attempt := by
  have hbraces : Follows A Eq (discard braces) (discard braces) :=
    (follows_braces hA).map fun _ _ _ => rfl
  have hcatch : Follows A Eq skipCatch skipCatch := by
    apply (follows_eatKeyword hA _).andThen
    intro b
    split
    · apply (follows_atPunct hA _).andThen
      intro b
      split
      · exact (follows_skipGroup hA).andThen fun _ => hbraces
      · exact hbraces
    · exact .pure rfl
  have hfinally : Follows A Eq skipFinally skipFinally := by
    apply (follows_eatKeyword hA _).andThen
    intro b
    split
    · exact hbraces
    · exact .pure rfl
  apply (follows_here hA).bind
  intro start start' hstart
  apply (follows_advance hA).andThen
  intro _
  apply hbraces.andThen
  intro _
  apply hcatch.andThen
  intro _
  exact hfinally.andThen fun _ => follows_unsupported hA _ hstart

theorem follows_returnValue :
    Follows A (Expr.OptLike A.like) (returnValue g) (returnValue g') := by
  apply Follows.get hA
  intro c d hcd
  have hends : (d.token.isPunct .semicolon || d.token.isPunct .rightBrace || d.atEnd || d.onNewLine)
      = (c.token.isPunct .semicolon || c.token.isPunct .rightBrace || c.atEnd || c.onNewLine) := by
    rw [hcd.token.isPunct, hcd.token.isPunct, Cursor.atEnd, hcd.token.isEof, hcd.onNewLine]
    rfl
  rw [hends]
  split
  · exact .pure rfl
  · exact hg.expression.map fun e e' he => ⟨e', rfl, he⟩

theorem follows_statementBody :
    Follows A (Statement.Like A.like) (statementBody g) (statementBody g') := by
  apply Follows.get hA
  intro c d hcd
  have hstart := hcd.span
  -- a statement that begins with no word of its own is an expression
  have hexpression : Follows A (Statement.Like A.like)
      (do
        let e ← expressionOf g
        semicolon
        return .expression e (c.span.through (← previous)))
      (do
        let e ← expressionOf g'
        semicolon
        return .expression e (d.span.through (← previous))) := by
    apply (follows_expressionOf hA hg).bind
    intro e e' he
    apply (follows_semicolon hA).andThen
    intro _
    exact follows_close hA hstart fun _ _ hs => ⟨e', _, rfl, he, hs⟩
  dsimp only
  rcases hcd.token.eq_or with ht | ⟨parts, parts', ht, ht'⟩
  · rw [ht]
    split
    · exact follows_declaration hA hg .lexical
    · exact follows_declaration hA hg .constant
    · exact follows_declaration hA hg .var
    · exact (follows_function hA hg).bind fun f f' hf => .pure ⟨f', rfl, hf⟩
    · exact (follows_classDef hA hg).bind fun c c' hc => .pure ⟨c', rfl, hc⟩
    · exact follows_branch hA hg
    · apply (follows_advance hA).andThen
      intro _
      apply (Follows.itemsUntil hA (follows_blockItem hA hg) _).bind
      intro ts ts' hts
      rw [← Statement.allLike_eq] at hts
      exact follows_close hA hstart fun _ _ hs => ⟨ts', _, rfl, hts, hs⟩
    · apply (follows_advance hA).andThen
      intro _
      apply (follows_returnValue hA hg).bind
      intro v v' hv
      apply (follows_semicolon hA).andThen
      intro _
      exact follows_close hA hstart fun _ _ hs => ⟨v', _, rfl, hv, hs⟩
    · apply (follows_advance hA).andThen
      intro _
      apply hg.expression.bind
      intro e e' he
      apply (follows_semicolon hA).andThen
      intro _
      exact follows_close hA hstart fun _ _ hs => ⟨e', _, rfl, he, hs⟩
    · exact (follows_advance hA).andThen fun _ => .pure ⟨_, rfl, hstart⟩
    · exact follows_headed hA hg _
    · exact follows_headed hA hg _
    · exact follows_headed hA hg _
    · apply (follows_advance hA).andThen
      intro _
      apply (follows_skipStatement hA hg).andThen
      intro _
      apply (follows_expectKeyword hA _).andThen
      intro _
      apply (follows_skipGroup hA).andThen
      intro _
      have heat : Follows A Eq (discard (eat .semicolon)) (discard (eat .semicolon)) :=
        (follows_eat hA _).map fun _ _ _ => rfl
      exact heat.andThen fun _ => follows_unsupported hA _ hstart
    · exact follows_attempt hA
    · exact follows_jump hA _
    · exact follows_jump hA _
    · apply (follows_advance hA).andThen
      intro _
      exact (follows_semicolon hA).andThen fun _ => .pure ⟨_, rfl, hstart⟩
    · exact .invalid ..
    · exact .invalid ..
    · rw [hcd.label]
      split
      · apply (follows_advance hA).andThen
        intro _
        exact (follows_advance hA).andThen fun _ => hg.statement
      · exact hexpression
  · rw [ht, ht']
    exact hexpression

theorem follows_statementOf :
    Follows A (Statement.Like A.like) (statementOf g) (statementOf g') :=
  .nested hA (follows_statementBody hA hg)

end

section
include hA

theorem follows_foreignName : Follows A Eq foreignName foreignName := by
  apply Follows.current hA _ fun _ _ => rfl
  intro t
  split
  · exact (follows_advance hA).andThen fun _ => .pure rfl
  · exact follows_propertyName hA

theorem follows_renamed (n : String) {other : Parse String} (h : Follows A Eq other other) :
    Follows A Eq (renamed n other) (renamed n other) := by
  apply (follows_atName hA _).andThen
  intro b
  split
  · exact (follows_advance hA).andThen fun _ => h
  · exact .pure rfl

theorem follows_importedName : Follows A Eq importedName importedName := by
  apply (follows_foreignName hA).andThen
  intro imported
  apply (follows_renamed hA imported (follows_name hA)).andThen
  intro bound
  exact (follows_comma hA _).andThen fun _ => .pure rfl

theorem follows_exportedName : Follows A Eq exportedName exportedName := by
  apply (follows_name hA).andThen
  intro n
  apply (follows_renamed hA n (follows_propertyName hA)).andThen
  intro exported
  exact (follows_comma hA _).andThen fun _ => .pure rfl

theorem follows_importSource {decl decl' : ImportDecl} (h : decl.Like A.like decl') :
    Follows A (ImportDecl.Like A.like) (importSource decl) (importSource decl') := by
  obtain ⟨start', rfl, hstart⟩ := h
  apply (follows_atName hA _).andThen
  intro b
  dsimp only
  split
  · apply (follows_advance hA).andThen
    intro _
    apply Follows.current hA _ fun _ _ => rfl
    intro t
    split
    · apply (follows_advance hA).andThen
      intro _
      apply (follows_semicolon hA).andThen
      intro _
      exact follows_close hA hstart fun _ _ hs => ⟨_, rfl, hs⟩
    · exact .unexpected _
  · exact .unexpected_bind _

theorem follows_importNames {decl decl' : ImportDecl} (h : decl.Like A.like decl') :
    Follows A (ImportDecl.Like A.like) (importNames decl) (importNames decl') := by
  obtain ⟨start', rfl, hstart⟩ := h
  apply (follows_eat hA _).andThen
  intro b
  split
  · apply (follows_atName hA _).andThen
    intro b
    dsimp only
    split
    · apply (follows_advance hA).andThen
      intro _
      exact (follows_name hA).andThen fun n => follows_importSource hA ⟨start', rfl, hstart⟩
    · exact .unexpected_bind _
  apply (follows_eat hA _).andThen
  intro b
  split
  · apply (Follows.itemsUntil hA (follows_importedName hA) _).bind
    intro ns ns' hns
    rw [List.forall₂_eq_eq_eq] at hns
    subst hns
    exact follows_importSource hA ⟨start', rfl, hstart⟩
  · exact .unexpected _

theorem follows_importDecl : Follows A (ImportDecl.Like A.like) importDecl importDecl := by
  apply (follows_here hA).bind
  intro start start' hstart
  apply (follows_expectKeyword hA _).andThen
  intro _
  apply Follows.current hA _ fun _ _ => rfl
  intro t
  split
  · apply (follows_advance hA).andThen
    intro _
    apply (follows_semicolon hA).andThen
    intro _
    exact follows_close hA hstart fun _ _ hs => ⟨_, rfl, hs⟩
  · apply (follows_advance hA).andThen
    intro _
    apply (follows_eat hA _).andThen
    intro b
    split
    · exact follows_importNames hA ⟨start', rfl, hstart⟩
    · exact follows_importSource hA ⟨start', rfl, hstart⟩
  · exact follows_importNames hA ⟨start', rfl, hstart⟩

include hg

theorem follows_defaultExport :
    Follows A (DefaultExport.Like A.like) (defaultExport g) (defaultExport g') := by
  apply Follows.current hA _ fun _ _ => rfl
  intro t
  split
  · exact (follows_classDef hA hg).bind fun c c' hc => .pure ⟨c', rfl, hc⟩
  · exact (follows_function hA hg).bind fun f f' hf => .pure ⟨f', rfl, hf⟩
  · apply (follows_assignmentOf hA hg).bind
    intro e e' he
    exact (follows_semicolon hA).andThen fun _ => .pure ⟨e', rfl, he⟩

theorem follows_exportItem :
    Follows A (ModuleItem.Like A.like) (exportItem g) (exportItem g') := by
  have hstatement : Follows A (ModuleItem.Like A.like)
      (do return .exportDeclaration (← statementOf g))
      (do return .exportDeclaration (← statementOf g')) :=
    (follows_statementOf hA hg).bind fun t t' ht => .pure ⟨t', rfl, ht⟩
  apply (follows_here hA).bind
  intro start start' hstart
  apply (follows_expectKeyword hA _).andThen
  intro _
  apply Follows.current hA _ fun _ _ => rfl
  intro t
  split
  · apply (follows_advance hA).andThen
    intro _
    apply (follows_defaultExport hA hg).bind
    intro v v' hv
    exact follows_close hA hstart fun _ _ hs => ⟨v', _, rfl, hv, hs⟩
  · apply (follows_advance hA).andThen
    intro _
    apply (Follows.itemsUntil hA (follows_exportedName hA) _).bind
    intro ns ns' hns
    rw [List.forall₂_eq_eq_eq] at hns
    subst hns
    apply (follows_atName hA _).andThen
    intro b
    dsimp only
    split
    · exact (follows_here hA).bind fun _ _ _ => .invalid_bind ..
    · apply (follows_semicolon hA).andThen
      intro _
      exact follows_close hA hstart fun _ _ hs => ⟨_, rfl, hs⟩
  · exact hstatement
  · exact hstatement
  · exact hstatement
  · exact hstatement
  · exact hstatement
  · exact (follows_here hA).bind fun _ _ _ => .invalid ..
  · exact .unexpected _

theorem follows_moduleItem :
    Follows A (ModuleItem.Like A.like) (moduleItem g) (moduleItem g') := by
  have hstatement : Follows A (ModuleItem.Like A.like)
      (do return .statement (← statementOf g)) (do return .statement (← statementOf g')) :=
    (follows_statementOf hA hg).bind fun t t' ht => .pure ⟨t', rfl, ht⟩
  have himport : Follows A (ModuleItem.Like A.like)
      (do return .importDecl (← importDecl)) (do return .importDecl (← importDecl)) :=
    (follows_importDecl hA).bind fun d d' hd => .pure ⟨d', rfl, hd⟩
  apply Follows.get hA
  intro c d hcd
  rcases hcd.token.eq_or with ht | ⟨parts, parts', ht, ht'⟩
  · rw [ht]
    split
    · rename_i hword
      have hnext := hcd.next (by rw [hword]; rfl) (by rw [hword]; rfl)
      rcases hnext.eq_or with hpeek | ⟨parts, parts', hpeek, hpeek'⟩
      · rw [hpeek]
        split
        · exact hstatement
        · exact hstatement
        · exact himport
      · rw [hpeek, hpeek']
        exact himport
    · exact follows_exportItem hA hg
    · exact hstatement
  · rw [ht, ht']
    exact hstatement

end

end Grammar

end Typings
