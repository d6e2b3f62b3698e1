import Mathlib.Data.List.Forall2
import Typings.Syntax.Statement

namespace Typings

mutual

/-- The same token, but for the spans in the substitutions of a template. -/
def Token.Like (S : Span → Span → Prop) : Token → Token → Prop
  | .template parts, t' => ∃ parts', t' = .template parts' ∧ TemplatePart.AllLike S parts parts'
  | t, t' => t' = t
termination_by structural t => t

def TemplatePart.Like (S : Span → Span → Prop) : TemplatePart → TemplatePart → Prop
  | .text s, p' => p' = .text s
  | .substitution ts, p' => ∃ ts', p' = .substitution ts' ∧ ∃ k k', Lexeme.Shifted S k k' ts ts'
termination_by structural p => p

def TemplatePart.AllLike (S : Span → Span → Prop) : List TemplatePart → List TemplatePart → Prop
  | [], ps' => ps' = []
  | p :: ps, ps' => ∃ p' rest, ps' = p' :: rest ∧ p.Like S p' ∧ TemplatePart.AllLike S ps rest
termination_by structural ps => ps

def Lexeme.Like (S : Span → Span → Prop) (k k' : Nat) : Token × Span → Token × Span → Prop
  | (t, s), x' => ∃ t' s', x' = (t', s') ∧ t.Like S t' ∧ S s s' ∧ s.line + k = s'.line + k'
termination_by structural x => x

def Lexeme.Shifted (S : Span → Span → Prop) (k k' : Nat) :
    List (Token × Span) → List (Token × Span) → Prop
  | [], ts' => ts' = []
  | x :: ts, ts' => ∃ x' rest, ts' = x' :: rest ∧ Lexeme.Like S k k' x x' ∧
      Lexeme.Shifted S k k' ts rest
termination_by structural ts => ts

end

/-- Lists of tokens that are alike, in lines that are counted from somewhere. -/
def Lexeme.AllLike (S : Span → Span → Prop) (ts ts' : List Lexeme) : Prop :=
  ∃ k k', Lexeme.Shifted S k k' ts ts'

/-- How the parts of two trees are compared. -/
structure Likeness where
  span : Span → Span → Prop
  /-- The lists of tokens on the left that are read. -/
  source : List Lexeme → Prop
  /-- What is known of the classes on the left. -/
  known : ClassDef → Prop
  /-- Bodies: the tokens of the left one, where it opens, and the tokens of the right one. -/
  body : List Lexeme → Nat → List Lexeme → Prop

/-- How trees inside a template are compared, whose tokens are counted on their own. -/
def Likeness.inside (L : Likeness) : Likeness :=
  { L with body := fun ts _ ts' => L.source ts ∧ Lexeme.AllLike L.span ts ts' }

mutual

def Expr.Like (L : Likeness) : Expr → Expr → Prop
  | .number x s, e' => ∃ s', e' = .number x s' ∧ L.span s s'
  | .string t s, e' => ∃ s', e' = .string t s' ∧ L.span s s'
  | .template parts s, e' => ∃ parts' s', e' = .template parts' s' ∧
      TemplateElement.AllLike L parts parts' ∧ L.span s s'
  | .boolean b s, e' => ∃ s', e' = .boolean b s' ∧ L.span s s'
  | .null s, e' => ∃ s', e' = .null s' ∧ L.span s s'
  | .identifier n s, e' => ∃ s', e' = .identifier n s' ∧ L.span s s'
  | .this s, e' => ∃ s', e' = .this s' ∧ L.span s s'
  | .array es s, e' => ∃ es' s', e' = .array es' s' ∧ ArrayElement.AllLike L es es' ∧ L.span s s'
  | .object ps s, e' => ∃ ps' s', e' = .object ps' s' ∧ ObjectProperty.AllLike L ps ps' ∧
      L.span s s'
  | .function f, e' => ∃ f', e' = .function f' ∧ f.Like L f'
  | .classOf c, e' => ∃ c', e' = .classOf c' ∧ c.Like L c'
  | .member o p b s, e' => ∃ o' s', e' = .member o' p b s' ∧ o.Like L o' ∧ L.span s s'
  | .index o i b s, e' => ∃ o' i' s', e' = .index o' i' b s' ∧ o.Like L o' ∧ i.Like L i' ∧
      L.span s s'
  | .call f as b s, e' => ∃ f' as' s', e' = .call f' as' b s' ∧ f.Like L f' ∧
      Argument.AllLike L as as' ∧ L.span s s'
  | .new f as s, e' => ∃ f' as' s', e' = .new f' as' s' ∧ f.Like L f' ∧
      Argument.AllLike L as as' ∧ L.span s s'
  | .superCall as s, e' => ∃ as' s', e' = .superCall as' s' ∧ Argument.AllLike L as as' ∧
      L.span s s'
  | .superMember p s, e' => ∃ s', e' = .superMember p s' ∧ L.span s s'
  | .unary op e s, e' => ∃ e'' s', e' = .unary op e'' s' ∧ e.Like L e'' ∧ L.span s s'
  | .update op b e s, e' => ∃ e'' s', e' = .update op b e'' s' ∧ e.Like L e'' ∧ L.span s s'
  | .binary op l r s, e' => ∃ l' r' s', e' = .binary op l' r' s' ∧ l.Like L l' ∧ r.Like L r' ∧
      L.span s s'
  | .logical op l r s, e' => ∃ l' r' s', e' = .logical op l' r' s' ∧ l.Like L l' ∧ r.Like L r' ∧
      L.span s s'
  | .conditional t c a s, e' => ∃ t' c' a' s', e' = .conditional t' c' a' s' ∧ t.Like L t' ∧
      c.Like L c' ∧ a.Like L a' ∧ L.span s s'
  | .assign op t v s, e' => ∃ t' v' s', e' = .assign op t' v' s' ∧ t.Like L t' ∧ v.Like L v' ∧
      L.span s s'
  | .sequence es s, e' => ∃ es' s', e' = .sequence es' s' ∧ Expr.AllLike L es es' ∧ L.span s s'
termination_by structural e => e

def Expr.AllLike (L : Likeness) : List Expr → List Expr → Prop
  | [], es' => es' = []
  | e :: es, es' => ∃ e' rest, es' = e' :: rest ∧ e.Like L e' ∧ Expr.AllLike L es rest
termination_by structural e => e

def Expr.OptLike (L : Likeness) : Option Expr → Option Expr → Prop
  | none, e' => e' = none
  | some e, e' => ∃ e'', e' = some e'' ∧ e.Like L e''
termination_by structural e => e

def TemplateElement.Like (L : Likeness) : TemplateElement → TemplateElement → Prop
  | .text t, p' => p' = .text t
  | .value e, p' => ∃ e', p' = .value e' ∧ e.Like L.inside e'
termination_by structural e => e

def TemplateElement.AllLike (L : Likeness) : List TemplateElement → List TemplateElement → Prop
  | [], ps' => ps' = []
  | p :: ps, ps' => ∃ p' rest, ps' = p' :: rest ∧ p.Like L p' ∧ TemplateElement.AllLike L ps rest
termination_by structural e => e

def ArrayElement.Like (L : Likeness) : ArrayElement → ArrayElement → Prop
  | .value e, a' => ∃ e', a' = .value e' ∧ e.Like L e'
  | .spread e, a' => ∃ e', a' = .spread e' ∧ e.Like L e'
  | .hole, a' => a' = .hole
termination_by structural e => e

def ArrayElement.AllLike (L : Likeness) : List ArrayElement → List ArrayElement → Prop
  | [], as' => as' = []
  | a :: as, as' => ∃ a' rest, as' = a' :: rest ∧ a.Like L a' ∧ ArrayElement.AllLike L as rest
termination_by structural e => e

def PropertyKey.Like (L : Likeness) : PropertyKey → PropertyKey → Prop
  | .named n, k' => k' = .named n
  | .computed e, k' => ∃ e', k' = .computed e' ∧ e.Like L e'
termination_by structural e => e

def ObjectProperty.Like (L : Likeness) : ObjectProperty → ObjectProperty → Prop
  | .value k e, p' => ∃ k' e', p' = .value k' e' ∧ k.Like L k' ∧ e.Like L e'
  | .getter k f, p' => ∃ k' f', p' = .getter k' f' ∧ k.Like L k' ∧ f.Like L f'
  | .setter k f, p' => ∃ k' f', p' = .setter k' f' ∧ k.Like L k' ∧ f.Like L f'
  | .spread e, p' => ∃ e', p' = .spread e' ∧ e.Like L e'
termination_by structural e => e

def ObjectProperty.AllLike (L : Likeness) : List ObjectProperty → List ObjectProperty → Prop
  | [], ps' => ps' = []
  | p :: ps, ps' => ∃ p' rest, ps' = p' :: rest ∧ p.Like L p' ∧ ObjectProperty.AllLike L ps rest
termination_by structural e => e

def Argument.Like (L : Likeness) : Argument → Argument → Prop
  | .value e, a' => ∃ e', a' = .value e' ∧ e.Like L e'
  | .spread e, a' => ∃ e', a' = .spread e' ∧ e.Like L e'
termination_by structural e => e

def Argument.AllLike (L : Likeness) : List Argument → List Argument → Prop
  | [], as' => as' = []
  | a :: as, as' => ∃ a' rest, as' = a' :: rest ∧ a.Like L a' ∧ Argument.AllLike L as rest
termination_by structural e => e

def Param.Like (L : Likeness) : Param → Param → Prop
  | ⟨n, init, rest⟩, p' => ∃ init', p' = ⟨n, init', rest⟩ ∧ Expr.OptLike L init init'
termination_by structural e => e

def Param.AllLike (L : Likeness) : List Param → List Param → Prop
  | [], ps' => ps' = []
  | p :: ps, ps' => ∃ p' rest, ps' = p' :: rest ∧ p.Like L p' ∧ Param.AllLike L ps rest
termination_by structural e => e

def FunctionBody.Like (L : Likeness) : FunctionBody → FunctionBody → Prop
  | .block ts i, b' => ∃ ts' i', b' = .block ts' i' ∧ L.body ts i ts'
  | .concise e, b' => ∃ e', b' = .concise e' ∧ e.Like L e'
termination_by structural e => e

def FunctionDef.Like (L : Likeness) : FunctionDef → FunctionDef → Prop
  | ⟨n, ps, b, isArrow, s⟩, f' => ∃ ps' b' s', f' = ⟨n, ps', b', isArrow, s'⟩ ∧
      Param.AllLike L ps ps' ∧ b.Like L b' ∧ L.span s s'
termination_by structural e => e

def FunctionDef.OptLike (L : Likeness) : Option FunctionDef → Option FunctionDef → Prop
  | none, f' => f' = none
  | some f, f' => ∃ f'', f' = some f'' ∧ f.Like L f''
termination_by structural e => e

def ClassDef.Like (L : Likeness) : ClassDef → ClassDef → Prop
  | ⟨n, superclass, constructor?, ms, s⟩, c' =>
    L.known ⟨n, superclass, constructor?, ms, s⟩ ∧
    ∃ superclass' constructor?' ms' s', c' = ⟨n, superclass', constructor?', ms', s'⟩ ∧
      Expr.OptLike L superclass superclass' ∧ FunctionDef.OptLike L constructor? constructor?' ∧
      ClassMember.AllLike L ms ms' ∧ L.span s s'
termination_by structural e => e

def ClassMember.Like (L : Likeness) : ClassMember → ClassMember → Prop
  | ⟨n, isStatic, k⟩, m' => ∃ k', m' = ⟨n, isStatic, k'⟩ ∧ k.Like L k'
termination_by structural e => e

def ClassMember.AllLike (L : Likeness) : List ClassMember → List ClassMember → Prop
  | [], ms' => ms' = []
  | m :: ms, ms' => ∃ m' rest, ms' = m' :: rest ∧ m.Like L m' ∧ ClassMember.AllLike L ms rest
termination_by structural e => e

def MemberForm.Like (L : Likeness) : MemberForm → MemberForm → Prop
  | .method f, m' => ∃ f', m' = .method f' ∧ f.Like L f'
  | .getter f, m' => ∃ f', m' = .getter f' ∧ f.Like L f'
  | .setter f, m' => ∃ f', m' = .setter f' ∧ f.Like L f'
  | .field init, m' => ∃ init', m' = .field init' ∧ Expr.OptLike L init init'
termination_by structural e => e

end

mutual

def Statement.Like (L : Likeness) : Statement → Statement → Prop
  | .declaration kind ds s, t' => ∃ ds' s', t' = .declaration kind ds' s' ∧
      List.Forall₂ (fun d d' => d'.1 = d.1 ∧ Expr.OptLike L d.2 d'.2) ds ds' ∧ L.span s s'
  | .function f, t' => ∃ f', t' = .function f' ∧ f.Like L f'
  | .classOf c, t' => ∃ c', t' = .classOf c' ∧ c.Like L c'
  | .expression e s, t' => ∃ e' s', t' = .expression e' s' ∧ e.Like L e' ∧ L.span s s'
  | .returns v s, t' => ∃ v' s', t' = .returns v' s' ∧ Expr.OptLike L v v' ∧ L.span s s'
  | .branch e a b s, t' => ∃ e' a' b' s', t' = .branch e' a' b' s' ∧ e.Like L e' ∧ a.Like L a' ∧
      Statement.OptLike L b b' ∧ L.span s s'
  | .block ss s, t' => ∃ ss' s', t' = .block ss' s' ∧ Statement.AllLike L ss ss' ∧ L.span s s'
  | .throws e s, t' => ∃ e' s', t' = .throws e' s' ∧ e.Like L e' ∧ L.span s s'
  | .empty s, t' => ∃ s', t' = .empty s' ∧ L.span s s'
  | .unsupported what s, t' => ∃ s', t' = .unsupported what s' ∧ L.span s s'
termination_by structural t => t

def Statement.AllLike (L : Likeness) : List Statement → List Statement → Prop
  | [], ts' => ts' = []
  | t :: ts, ts' => ∃ t' rest, ts' = t' :: rest ∧ t.Like L t' ∧ Statement.AllLike L ts rest
termination_by structural ts => ts

def Statement.OptLike (L : Likeness) : Option Statement → Option Statement → Prop
  | none, t' => t' = none
  | some t, t' => ∃ t'', t' = some t'' ∧ t.Like L t''
termination_by structural t => t

end

def ImportDecl.Like (L : Likeness) (d d' : ImportDecl) : Prop :=
  ∃ s', d' = { d with span := s' } ∧ L.span d.span s'

def DefaultExport.Like (L : Likeness) : DefaultExport → DefaultExport → Prop
  | .classOf c, d' => ∃ c', d' = .classOf c' ∧ c.Like L c'
  | .function f, d' => ∃ f', d' = .function f' ∧ f.Like L f'
  | .expression e, d' => ∃ e', d' = .expression e' ∧ e.Like L e'

def ModuleItem.Like (L : Likeness) : ModuleItem → ModuleItem → Prop
  | .importDecl d, i' => ∃ d', i' = .importDecl d' ∧ d.Like L d'
  | .exportDefault v s, i' => ∃ v' s', i' = .exportDefault v' s' ∧ v.Like L v' ∧ L.span s s'
  | .exportDeclaration t, i' => ∃ t', i' = .exportDeclaration t' ∧ t.Like L t'
  | .exportNamed ns s, i' => ∃ s', i' = .exportNamed ns s' ∧ L.span s s'
  | .statement t, i' => ∃ t', i' = .statement t' ∧ t.Like L t'

def Module.Like (L : Likeness) (m m' : Module) : Prop :=
  List.Forall₂ (ModuleItem.Like L) m.items m'.items ∧ L.span m.span m'.span

theorem eq_forall₂ {α : Type} {R : α → α → Prop} {All : List α → List α → Prop}
    (hnil : ∀ bs, All [] bs ↔ bs = [])
    (hcons : ∀ a as bs, All (a :: as) bs ↔ ∃ b rest, bs = b :: rest ∧ R a b ∧ All as rest) :
    All = List.Forall₂ R := by
  funext as bs
  apply propext
  induction as generalizing bs with
  | nil => rw [hnil, List.forall₂_nil_left_iff]
  | cons a as ih =>
    rw [hcons, List.forall₂_cons_left_iff]
    constructor
    · rintro ⟨b, rest, rfl, hab, hrest⟩
      exact ⟨b, rest, hab, (ih rest).1 hrest, rfl⟩
    · rintro ⟨b, rest, hab, hrest, rfl⟩
      exact ⟨b, rest, rfl, hab, (ih rest).2 hrest⟩

theorem forall₂_getLast? {α : Type} {R : α → α → Prop} {as bs : List α} (h : List.Forall₂ R as bs) :
    Option.Rel R as.getLast? bs.getLast? := by
  rw [List.getLast?_eq_head?_reverse, List.getLast?_eq_head?_reverse]
  have hreverse := List.rel_reverse h
  generalize as.reverse = as, bs.reverse = bs at hreverse
  cases hreverse with
  | nil => exact .none
  | cons hab _ => exact .some hab

variable {L : Likeness} {S : Span → Span → Prop} {k k' : Nat}

theorem Lexeme.shifted_eq : Lexeme.Shifted S k k' = List.Forall₂ (Lexeme.Like S k k') :=
  eq_forall₂ (fun _ => Iff.rfl) fun _ _ _ => Iff.rfl

theorem Expr.allLike_eq : Expr.AllLike L = List.Forall₂ (Expr.Like L) :=
  eq_forall₂ (fun _ => Iff.rfl) fun _ _ _ => Iff.rfl

theorem ArrayElement.allLike_eq : ArrayElement.AllLike L = List.Forall₂ (ArrayElement.Like L) :=
  eq_forall₂ (fun _ => Iff.rfl) fun _ _ _ => Iff.rfl

theorem ObjectProperty.allLike_eq :
    ObjectProperty.AllLike L = List.Forall₂ (ObjectProperty.Like L) :=
  eq_forall₂ (fun _ => Iff.rfl) fun _ _ _ => Iff.rfl

theorem Argument.allLike_eq : Argument.AllLike L = List.Forall₂ (Argument.Like L) :=
  eq_forall₂ (fun _ => Iff.rfl) fun _ _ _ => Iff.rfl

theorem Param.allLike_eq : Param.AllLike L = List.Forall₂ (Param.Like L) :=
  eq_forall₂ (fun _ => Iff.rfl) fun _ _ _ => Iff.rfl

theorem ClassMember.allLike_eq : ClassMember.AllLike L = List.Forall₂ (ClassMember.Like L) :=
  eq_forall₂ (fun _ => Iff.rfl) fun _ _ _ => Iff.rfl

theorem Statement.allLike_eq : Statement.AllLike L = List.Forall₂ (Statement.Like L) :=
  eq_forall₂ (fun _ => Iff.rfl) fun _ _ _ => Iff.rfl

theorem Lexeme.like_iff {x x' : Lexeme} : Lexeme.Like S k k' x x' ↔
    x.1.Like S x'.1 ∧ S x.2 x'.2 ∧ x.2.line + k = x'.2.line + k' := by
  obtain ⟨t, s⟩ := x
  constructor
  · rintro ⟨t', s', rfl, h⟩
    exact h
  · intro h
    exact ⟨x'.1, x'.2, rfl, h⟩

namespace Token

variable {t t' : Token}

theorem Like.eq_or (h : t.Like S t') :
    t' = t ∨ ∃ parts parts', t = .template parts ∧ t' = .template parts' := by
  cases t with
  | template parts =>
    obtain ⟨parts', rfl, _⟩ := h
    exact .inr ⟨parts, parts', rfl, rfl⟩
  | _ => exact .inl h

theorem Like.congr {α : Type} (h : t.Like S t') (f : Token → α)
    (hf : ∀ parts parts', f (.template parts) = f (.template parts')) : f t' = f t := by
  rcases h.eq_or with rfl | ⟨parts, parts', rfl, rfl⟩
  · rfl
  · exact hf _ _

theorem Like.isPunct (h : t.Like S t') (p : Punct) : t'.isPunct p = t.isPunct p :=
  h.congr (·.isPunct p) fun _ _ => rfl

theorem Like.isWord (h : t.Like S t') (w : Keyword) : t'.isWord w = t.isWord w :=
  h.congr (·.isWord w) fun _ _ => rfl

theorem Like.isEof (h : t.Like S t') : t'.isEof = t.isEof := h.congr _ fun _ _ => rfl

theorem Like.name? (h : t.Like S t') : t'.name? = t.name? := h.congr _ fun _ _ => rfl

end Token

mutual

theorem Token.Like.refl (hS : ∀ s, S s s) : (t : Token) → t.Like S t
  | .template parts => ⟨parts, rfl, TemplatePart.AllLike.refl hS parts⟩
  | .keyword _ | .punct _ | .number _ | .string _ | .identifier _ | .eof => rfl

theorem TemplatePart.Like.refl (hS : ∀ s, S s s) : (p : TemplatePart) → p.Like S p
  | .text _ => rfl
  | .substitution ts => ⟨ts, rfl, 0, 0, Lexeme.Shifted.refl 0 hS ts⟩

theorem TemplatePart.AllLike.refl (hS : ∀ s, S s s) :
    (ps : List TemplatePart) → TemplatePart.AllLike S ps ps
  | [] => rfl
  | p :: ps => ⟨p, ps, rfl, .refl hS p, .refl hS ps⟩

theorem Lexeme.Like.refl (l : Nat) (hS : ∀ s, S s s) : (x : Token × Span) → Lexeme.Like S l l x x
  | (t, s) => ⟨t, s, rfl, .refl hS t, hS s, rfl⟩

theorem Lexeme.Shifted.refl (l : Nat) (hS : ∀ s, S s s) :
    (ts : List (Token × Span)) → Lexeme.Shifted S l l ts ts
  | [] => rfl
  | x :: ts => ⟨x, ts, rfl, Lexeme.Like.refl l hS x, Lexeme.Shifted.refl l hS ts⟩

end

/-- Classes that are alike, but for what is known of the left one. -/
def ClassDef.PartsLike (L : Likeness) (c c' : ClassDef) : Prop :=
  ∃ superclass' constructor?' ms' s', c' = ⟨c.name, superclass', constructor?', ms', s'⟩ ∧
    Expr.OptLike L c.superclass superclass' ∧ FunctionDef.OptLike L c.constructor? constructor?' ∧
    ClassMember.AllLike L c.members ms' ∧ L.span c.span s'

theorem ClassDef.like_iff {c c' : ClassDef} : c.Like L c' ↔ L.known c ∧ c.PartsLike L c' := by
  obtain ⟨_, _, _, _, _⟩ := c
  exact Iff.rfl

theorem FunctionDef.optLike_of_rel {f? f?' : Option FunctionDef}
    (h : Option.Rel (FunctionDef.Like L) f? f?') : FunctionDef.OptLike L f? f?' := by
  cases h with
  | none => exact rfl
  | some hf => exact ⟨_, rfl, hf⟩

theorem FunctionDef.Like.span {f f' : FunctionDef} (h : f.Like L f') : L.span f.span f'.span := by
  obtain ⟨_, _, _, _, _⟩ := f
  obtain ⟨_, _, _, rfl, _, _, hspan⟩ := h
  exact hspan

theorem ClassDef.Like.span {c c' : ClassDef} (h : c.Like L c') : L.span c.span c'.span := by
  obtain ⟨_, _, _, _, _⟩ := c
  obtain ⟨_, _, _, _, _, rfl, _, _, _, hspan⟩ := h
  exact hspan

theorem Expr.Like.span {e e' : Expr} (h : e.Like L e') : L.span e.span e'.span := by
  cases e with
  | function f =>
    obtain ⟨f', rfl, hf⟩ := h
    exact hf.span
  | classOf c =>
    obtain ⟨c', rfl, hc⟩ := h
    exact hc.span
  | _ => grind [Expr.Like, Expr.span]

theorem Expr.Like.isAssignable {e e' : Expr} (h : e.Like L e') :
    e'.isAssignable = e.isAssignable := by
  cases e <;> grind [Expr.Like, Expr.isAssignable]

theorem Expr.OptLike.isNone {e e' : Option Expr} (h : Expr.OptLike L e e') :
    e'.isNone = e.isNone := by
  cases e with
  | none =>
    obtain rfl : e' = none := h
    rfl
  | some e =>
    obtain ⟨e'', rfl, _⟩ := h
    rfl

theorem PropertyKey.Like.name? {x x' : PropertyKey} (h : x.Like L x') : x'.name? = x.name? := by
  cases x with
  | named n =>
    obtain rfl : x' = .named n := h
    rfl
  | computed e =>
    obtain ⟨e', rfl, _⟩ := h
    rfl

end Typings
