import Typings.Proofs.Eval.Inheritance
import Typings.Proofs.Render.Clash

namespace Typings

namespace Store

variable {s : Store} {rules : RuleModel} {c p a : Nat} {rule : String}

def NamesContext (s : Store) (rules : RuleModel) (c : Nat) : Prop :=
  rules.isRuleContext (s.classCell c).name = true

/-- The class extends a class with the name of a rule context. -/
def ExtendsContext (s : Store) (rules : RuleModel) (c : Nat) : Prop :=
  ∃ p, s.Derives c p ∧ s.NamesContext rules p

/-- `a` is the nearest proper ancestor of `c` with the name of a rule context. -/
inductive NearestContext (s : Store) (rules : RuleModel) : Nat → Nat → Prop
  | parent {c p : Nat} (hc : s.Derives c p) (hp : s.NamesContext rules p) :
    NearestContext s rules c p
  | above {c p a : Nat} (hc : s.Derives c p) (hp : ¬ s.NamesContext rules p)
    (ha : NearestContext s rules p a) : NearestContext s rules c a

/-- A label extends a rule context, or is named as a context and descends from a rule context. -/
def IsLabel (s : Store) (rules : RuleModel) (c : Nat) : Prop :=
  s.ExtendsContext rules c ∨
    ¬ s.NamesContext rules c ∧ (s.classCell c).name.endsWith "Context" = true ∧
      ∃ a, Relation.TransGen s.Derives c a ∧ s.NamesContext rules a

def IsCanonical (s : Store) (rules : RuleModel) (c : Nat) : Prop :=
  s.NamesContext rules c ∧ ¬ s.ExtendsContext rules c

theorem namesContext_iff :
    s.NamesContext rules c ↔ ∃ rule, rules.ruleForContext? (s.classCell c).name = some rule := by
  rw [NamesContext, RuleModel.isRuleContext, ← RuleIndex.isSome_get?, ← Option.isSome_iff_exists,
    RuleModel.ruleForContext?, Option.isSome_map]

theorem not_namesContext_iff :
    ¬ s.NamesContext rules c ↔ rules.ruleForContext? (s.classCell c).name = none := by
  rw [namesContext_iff, ← Option.isSome_iff_exists, Option.not_isSome_iff_eq_none]

theorem IsCanonical.not_isLabel (h : s.IsCanonical rules c) : ¬ s.IsLabel rules c := by
  rintro (hparent | ⟨hown, _⟩)
  · exact h.2 hparent
  · exact hown h.1

/-- An ancestor that is a rule context makes one of them the nearest. -/
theorem exists_nearestContext_iff : (∃ a, s.NearestContext rules c a) ↔
    ∃ a, Relation.TransGen s.Derives c a ∧ s.NamesContext rules a := by
  constructor
  · rintro ⟨a, h⟩
    induction h with
    | parent hc hp => exact ⟨_, .single hc, hp⟩
    | above hc _ _ ih =>
      obtain ⟨a, ha, hname⟩ := ih
      exact ⟨a, .head hc ha, hname⟩
  · rintro ⟨a, h, hname⟩
    induction h using Relation.TransGen.head_induction_on with
    | single hc => exact ⟨a, .parent hc hname⟩
    | @head c p hc _ ih =>
      by_cases hp : s.NamesContext rules p
      · exact ⟨p, .parent hc hp⟩
      · obtain ⟨a, ha⟩ := ih
        exact ⟨a, .above hc hp ha⟩

theorem NearestContext.namesContext (h : s.NearestContext rules c a) : s.NamesContext rules a := by
  induction h with
  | parent _ hp => exact hp
  | above _ _ _ ih => exact ih

theorem Lines.ancestorRule?_eq (h : s.Lines) (hc : s.Derives c p) : s.ancestorRule? rules c =
    (rules.ruleForContext? (s.classCell p).name).or (s.ancestorRule? rules p) := by
  obtain ⟨above, hline⟩ := s.lineage_eq_cons p
  simp only [ancestorRule?, h.lineage_eq hc, hline, List.tail_cons, List.findSome?_cons]
  cases rules.ruleForContext? (s.classCell p).name with
  | none => rfl
  | some rule => rfl

/-- The search through the ancestors finds the rule of the nearest that is a rule context. -/
theorem Lines.ancestorRule?_eq_some_iff (h : s.Lines) : s.ancestorRule? rules c = some rule ↔
    ∃ a, s.NearestContext rules c a ∧ rules.ruleForContext? (s.classCell a).name = some rule := by
  induction c using h.induction with
  | base c hlast =>
    have hnone : s.ancestorRule? rules c = none := by
      simp [ancestorRule?, lineage_of_no_class hlast]
    rw [hnone]
    constructor
    · rintro ⟨⟩
    · rintro ⟨_, hc | ⟨hc, _, _⟩, _⟩
      · exact absurd hc (hlast _)
      · exact absurd hc (hlast _)
  | step c p hc ih =>
    rw [h.ancestorRule?_eq hc]
    cases hp : rules.ruleForContext? (s.classCell p).name with
    | none =>
      -- the nearest context of the parent is that of the class
      have hname : ¬ s.NamesContext rules p := not_namesContext_iff.2 hp
      rw [Option.none_or, ih]
      constructor
      · rintro ⟨a, ha, hrule⟩
        exact ⟨a, .above hc hname ha, hrule⟩
      · rintro ⟨a, hc' | ⟨hc', _, ha⟩, hrule⟩
        · cases hc.symm.trans hc'
          cases hp.symm.trans hrule
        · cases hc.symm.trans hc'
          exact ⟨a, ha, hrule⟩
    | some rule' =>
      have hname : s.NamesContext rules p := namesContext_iff.2 ⟨rule', hp⟩
      rw [Option.some_or]
      constructor
      · rintro ⟨⟩
        exact ⟨p, .parent hc hname, hp⟩
      · rintro ⟨a, hc' | ⟨hc', hp', _⟩, hrule⟩
        · cases hc.symm.trans hc'
          exact hp.symm.trans hrule
        · cases hc.symm.trans hc'
          exact absurd hname hp'

theorem parentName?_of_derives (h : s.Derives c p) :
    s.parentName? c = some (s.classCell p).name := by
  have hsuper : (s.classCell c).superclass = .classOf p := h
  simp [parentName?, hsuper, Value.class?]

theorem parentRule_eq_none (h : ¬ s.ExtendsContext rules c) :
    (s.parentName? c).bind rules.ruleForContext? = none := by
  cases hsuper : (s.classCell c).superclass with
  | classOf p =>
    rw [parentName?_of_derives hsuper]
    exact not_namesContext_iff.1 fun hp => h ⟨p, hsuper, hp⟩
  | _ => simp [parentName?, hsuper, Value.class?]

end Store

open Store

variable {s : Store} {rules : RuleModel} {c p : Nat} {rule : String} {k : ContextClass}

theorem contextClass?_of_parent (hc : s.Derives c p)
    (hp : rules.ruleForContext? (s.classCell p).name = some rule) :
    ∃ k, contextClass? s rules c = some k ∧ k.role = .label ∧ k.rule = rule := by
  have hparent : (s.parentName? c).bind rules.ruleForContext? = some rule := by
    rw [parentName?_of_derives hc]
    exact hp
  simp only [contextClass?, hparent]
  exact ⟨_, rfl, rfl, rfl⟩

theorem contextClass?_of_own (hc : ¬ s.ExtendsContext rules c)
    (hown : rules.ruleForContext? (s.classCell c).name = some rule) :
    ∃ k, contextClass? s rules c = some k ∧ k.role = .canonical ∧ k.rule = rule := by
  simp only [contextClass?, parentRule_eq_none hc, hown]
  exact ⟨_, rfl, rfl, rfl⟩

theorem contextClass?_of_name (hc : ¬ s.ExtendsContext rules c) (hown : ¬ s.NamesContext rules c) :
    contextClass? s rules c =
      if (s.classCell c).name.endsWith "Context" then
        (s.ancestorRule? rules c).map fun rule =>
          { name := (s.classCell c).name, superclass := s.parentName? c, rule, role := .label,
            classRef := c }
      else none := by
  simp only [contextClass?, parentRule_eq_none hc, not_namesContext_iff.1 hown]

/-- What a class that is a context is, and by which rule. -/
theorem contextClass?_cases (hs : s.Lines) (h : contextClass? s rules c = some k) :
    (k.role = .label ∧ s.IsLabel rules c ∧ ∃ a, s.NearestContext rules c a ∧
      rules.ruleForContext? (s.classCell a).name = some k.rule) ∨
    (k.role = .canonical ∧ s.IsCanonical rules c ∧
      rules.ruleForContext? (s.classCell c).name = some k.rule) := by
  by_cases hparent : s.ExtendsContext rules c
  · have ⟨p, hc, hp⟩ := hparent
    obtain ⟨rule, hrule⟩ := namesContext_iff.1 hp
    obtain ⟨k', hk', hrole, rfl⟩ := contextClass?_of_parent hc hrule
    cases hk'.symm.trans h
    exact .inl ⟨hrole, .inl hparent, p, .parent hc hp, hrule⟩
  · by_cases hown : s.NamesContext rules c
    · obtain ⟨rule, hrule⟩ := namesContext_iff.1 hown
      obtain ⟨k', hk', hrole, rfl⟩ := contextClass?_of_own hparent hrule
      cases hk'.symm.trans h
      exact .inr ⟨hrole, ⟨hown, hparent⟩, hrule⟩
    · rw [contextClass?_of_name hparent hown] at h
      split at h
      · rename_i hname
        obtain ⟨rule, hrule, rfl⟩ := Option.map_eq_some_iff.1 h
        obtain ⟨a, ha, harule⟩ := hs.ancestorRule?_eq_some_iff.1 hrule
        have hancestor := exists_nearestContext_iff.1 ⟨a, ha⟩
        exact .inl ⟨rfl, .inr ⟨hown, hname, hancestor⟩, a, ha, harule⟩
      · cases h

def Store.contextRole? (s : Store) (rules : RuleModel) (c : Nat) : Option ContextRole :=
  (contextClass? s rules c).map (·.role)

theorem contextRole?_eq_label_iff (hs : s.Lines) :
    s.contextRole? rules c = some .label ↔ s.IsLabel rules c := by
  constructor
  · intro h
    obtain ⟨k, hk, hrole⟩ := Option.map_eq_some_iff.1 h
    rcases contextClass?_cases hs hk with ⟨_, hlabel, _⟩ | ⟨hrole', _⟩
    · exact hlabel
    · cases hrole.symm.trans hrole'
  · intro h
    by_cases hparent : s.ExtendsContext rules c
    · obtain ⟨p, hc, hp⟩ := hparent
      obtain ⟨rule, hrule⟩ := namesContext_iff.1 hp
      obtain ⟨k, hk, hrole, _⟩ := contextClass?_of_parent hc hrule
      rw [contextRole?, hk, Option.map_some, hrole]
    · obtain ⟨hown, hname, hancestor⟩ := h.resolve_left hparent
      obtain ⟨a, ha⟩ := exists_nearestContext_iff.2 hancestor
      obtain ⟨rule, hrule⟩ := namesContext_iff.1 ha.namesContext
      have hfound := hs.ancestorRule?_eq_some_iff.2 ⟨a, ha, hrule⟩
      rw [contextRole?, contextClass?_of_name hparent hown, if_pos hname, hfound]
      rfl

theorem contextRole?_eq_canonical_iff (hs : s.Lines) :
    s.contextRole? rules c = some .canonical ↔ s.IsCanonical rules c := by
  constructor
  · intro h
    obtain ⟨k, hk, hrole⟩ := Option.map_eq_some_iff.1 h
    rcases contextClass?_cases hs hk with ⟨hrole', _⟩ | ⟨_, hcanonical, _⟩
    · cases hrole.symm.trans hrole'
    · exact hcanonical
  · rintro ⟨hown, hparent⟩
    obtain ⟨rule, hrule⟩ := namesContext_iff.1 hown
    obtain ⟨k, hk, hrole, _⟩ := contextClass?_of_own hparent hrule
    rw [contextRole?, hk, Option.map_some, hrole]

theorem idxOf_lt_of_filter {α : Type} [BEq α] [LawfulBEq α] {l : List α} {q : α → Bool} {a b : α}
    (ha : q a = true) (hb : q b = true) (h : (l.filter q).idxOf a < (l.filter q).idxOf b) :
    l.idxOf a < l.idxOf b := by
  induction l with
  | nil => simp at h
  | cons x l ih =>
    by_cases hx : q x = true
    · rw [List.filter_cons_of_pos hx] at h
      simp only [List.idxOf_cons] at h ⊢
      grind
    · rw [List.filter_cons_of_neg hx] at h
      have hxa : (x == a) = false := by grind
      have hxb : (x == b) = false := by grind
      simpa [List.idxOf_cons, hxa, hxb] using ih h

theorem pairwise_idxOf_eraseDups {α : Type} [BEq α] [LawfulBEq α] (l : List α) :
    l.eraseDups.Pairwise fun a b => l.idxOf a < l.idxOf b := by
  cases l with
  | nil => simp
  | cons x l =>
    have hne : ∀ a ∈ (l.filter fun a => !a == x).eraseDups, a ≠ x := by
      intro a ha
      simpa using (List.mem_filter.1 (List.mem_eraseDups.1 ha)).2
    rw [List.eraseDups_cons, List.pairwise_cons]
    constructor
    · intro a ha
      simp [List.idxOf_cons_ne _ (hne a ha).symm]
    · refine (pairwise_idxOf_eraseDups _).imp_of_mem fun {a b} ha hb hlt => ?_
      have hle := idxOf_lt_of_filter (by simpa using hne a ha) (by simpa using hne b hb) hlt
      rw [List.idxOf_cons_ne _ (hne a ha).symm, List.idxOf_cons_ne _ (hne b hb).symm]
      exact Nat.succ_lt_succ hle
termination_by l.length
decreasing_by
  exact Nat.lt_succ_of_le (List.length_filter_le _ _)

theorem map_classRef_filter (role : ContextRole) (l : List Nat) :
    ((l.filterMap (contextClass? s rules)).filter (·.role = role)).map (·.classRef) =
      l.filter fun c => s.contextRole? rules c = some role := by
  induction l with
  | nil => rfl
  | cons c l ih =>
    cases hk : contextClass? s rules c with
    | none =>
      have hrole : s.contextRole? rules c = none := by
        rw [contextRole?, hk, Option.map_none]
      simp [hk, hrole, ih]
    | some k =>
      have hrole : s.contextRole? rules c = some k.role := by
        rw [contextRole?, hk, Option.map_some]
      have href := (contextClass?_of hk).classRef
      by_cases hk' : k.role = role
      · simp [hk, hrole, hk', href, ih]
      · simp [hk, hrole, hk', ih]

namespace ContextPartition

variable {classes : List Nat}

theorem classRefs_labels (s : Store) (rules : RuleModel) (classes : List Nat) :
    (ofClasses s rules classes).labels.map (·.classRef) =
      classes.eraseDups.filter fun c => s.contextRole? rules c = some .label :=
  map_classRef_filter .label _

theorem classRefs_canonical (s : Store) (rules : RuleModel) (classes : List Nat) :
    (ofClasses s rules classes).canonical.map (·.classRef) =
      classes.eraseDups.filter fun c => s.contextRole? rules c = some .canonical := by
  rw [← map_classRef_filter .canonical]
  simp only [ofClasses, List.map_map]
  rfl

theorem contextClass?_of_mem_labels (h : k ∈ (ofClasses s rules classes).labels) :
    contextClass? s rules k.classRef = some k ∧ k.role = .label := by
  obtain ⟨hfound, hrole⟩ := List.mem_filter.1 h
  obtain ⟨c, _, hk⟩ := List.mem_filterMap.1 hfound
  rw [(contextClass?_of hk).classRef]
  exact ⟨hk, of_decide_eq_true hrole⟩

theorem contextClass?_of_mem_canonical (h : k ∈ (ofClasses s rules classes).canonical) :
    ∃ k', contextClass? s rules k.classRef = some k' ∧ k'.role = .canonical ∧
      k = { k' with polymorphic := (ofClasses s rules classes).labels.any (·.rule = k'.rule) } := by
  obtain ⟨k', hk', rfl⟩ := List.mem_map.1 h
  obtain ⟨hfound, hrole⟩ := List.mem_filter.1 hk'
  obtain ⟨c, _, hk⟩ := List.mem_filterMap.1 hfound
  have href : k'.classRef = c := (contextClass?_of hk).classRef
  exact ⟨k', href ▸ hk, of_decide_eq_true hrole, rfl⟩

/-- A list of the classes that a test selects, each once, in the order of their first mention. -/
structure Selects (classes : List Nat) (test : Nat → Prop) (refs : List Nat) : Prop where
  mem_iff : ∀ c, c ∈ refs ↔ c ∈ classes ∧ test c
  nodup : refs.Nodup
  ordered : refs.Pairwise fun a b => classes.idxOf a < classes.idxOf b

theorem selects_of_role {test : Nat → Prop} {role : ContextRole}
    (h : ∀ c, s.contextRole? rules c = some role ↔ test c) (classes : List Nat) :
    Selects classes test
      (classes.eraseDups.filter fun c => s.contextRole? rules c = some role) where
  mem_iff c := by
    rw [List.mem_filter, List.mem_eraseDups, decide_eq_true_iff, h c]
  nodup := (nodup_eraseDups classes).filter _
  ordered := (pairwise_idxOf_eraseDups classes).filter _

end ContextPartition

open ContextPartition

/--
A class is a label if it extends a rule context, whatever its own name; or if it has the name of a
context, though not of a rule, and descends from a rule context. It is canonical if its own name is
that of a rule context and it does not extend one. Labels go by the rule of their nearest ancestor
that is a rule context.
-/
theorem partition_by_names (hs : s.Lines) (rules : RuleModel) (classes : List Nat) :
    let p := ofClasses s rules classes
    Selects classes (s.IsLabel rules) (p.labels.map (·.classRef)) ∧
      Selects classes (s.IsCanonical rules) (p.canonical.map (·.classRef)) ∧
      (p.all.map (·.classRef)).Nodup ∧
      (∀ k ∈ p.labels, k.role = .label ∧ ∃ a, s.NearestContext rules k.classRef a ∧
        rules.ruleForContext? (s.classCell a).name = some k.rule) ∧
      ∀ k ∈ p.canonical, k.role = .canonical ∧
        rules.ruleForContext? (s.classCell k.classRef).name = some k.rule ∧
        (k.polymorphic = true ↔ ∃ l ∈ p.labels, l.rule = k.rule) := by
  intro p
  have hlabels : Selects classes (s.IsLabel rules) (p.labels.map (·.classRef)) :=
    classRefs_labels s rules classes ▸
      selects_of_role (fun _ => contextRole?_eq_label_iff hs) classes
  have hcanonical : Selects classes (s.IsCanonical rules) (p.canonical.map (·.classRef)) :=
    classRefs_canonical s rules classes ▸
      selects_of_role (fun _ => contextRole?_eq_canonical_iff hs) classes
  refine ⟨hlabels, hcanonical, ?_, fun k hk => ?_, fun k hk => ?_⟩
  · rw [all, List.map_append, List.nodup_append]
    refine ⟨hcanonical.nodup, hlabels.nodup, ?_⟩
    -- no class is both, by what its name and its ancestors are
    rintro c hc _ hc' rfl
    exact ((hcanonical.mem_iff c).1 hc).2.not_isLabel ((hlabels.mem_iff c).1 hc').2
  · obtain ⟨hclass, hrole⟩ := contextClass?_of_mem_labels hk
    rcases contextClass?_cases hs hclass with ⟨_, _, hnearest⟩ | ⟨hrole', _⟩
    · exact ⟨hrole, hnearest⟩
    · cases hrole.symm.trans hrole'
  · obtain ⟨k', hclass, hrole, hk'⟩ := contextClass?_of_mem_canonical hk
    rcases contextClass?_cases hs hclass with ⟨hrole', _⟩ | ⟨_, _, hrule⟩
    · cases hrole.symm.trans hrole'
    · rw [hk'] at hrule ⊢
      refine ⟨hrole, hrule, ?_⟩
      simp [p]

/-- Labels of a rule: one by way of a class between, and one with the name of another rule. -/
def Store.withBetween : Store := .afterText
  "class StatContext {}
   class Between extends StatContext {}
   class PrintContext extends Between {}
   class ExprContext extends StatContext {}"

def ContextPartition.withBetween : ContextPartition :=
  ofClasses Store.withBetween (.ofNames ["stat", "expr"] []) [2, 0, 3, 2]

theorem partition_by_names_withBetween :
    Store.withBetween.Lines ∧ ContextPartition.withBetween.labels.map (·.classRef) = [2, 3] ∧
      ContextPartition.withBetween.canonical.map (·.classRef) = [0] ∧
      (∀ c ∈ [2, 3], Store.withBetween.IsLabel (.ofNames ["stat", "expr"] []) c) ∧
      Store.withBetween.IsCanonical (.ofNames ["stat", "expr"] []) 0 ∧
      ∀ k ∈ ContextPartition.withBetween.canonical,
        k.polymorphic = true ↔ ∃ l ∈ ContextPartition.withBetween.labels, l.rule = k.rule := by
  have hlines : Store.withBetween.Lines := (Store.afterText_reachable _).invariant.sound.toLines
  obtain ⟨hlabels, hcanonical⟩ :
      ContextPartition.withBetween.labels.map (·.classRef) = [2, 3] ∧
        ContextPartition.withBetween.canonical.map (·.classRef) = [0] := by
    decide +kernel
  obtain ⟨hlabel, hbase, _, _, hrule⟩ :=
    partition_by_names hlines (.ofNames ["stat", "expr"] []) [2, 0, 3, 2]
  refine ⟨hlines, hlabels, hcanonical, fun c hc => ?_, ?_, fun k hk => (hrule k hk).2.2⟩
  · exact ((hlabel.mem_iff c).1 (hlabels ▸ hc)).2
  · exact ((hbase.mem_iff 0).1 (hcanonical ▸ List.mem_singleton_self 0)).2

end Typings
