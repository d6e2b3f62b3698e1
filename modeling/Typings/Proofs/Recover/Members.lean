import Typings.Proofs.Recover.Report

namespace Typings

def TypeRef.parameters : TypeRef → List String
  | parameter name => [name]
  | list t => t.parameters
  | _ => []

theorem TypeRef.Written.parameters_eq_nil {t : TypeRef} (h : t.Written) : t.parameters = [] := by
  cases h <;> rfl

/-- What a method named after a rule or a terminal finds. -/
inductive RuleModel.Match (rules : RuleModel) (name : String) : TypeRef → Prop
  | terminal : name ∈ rules.terminals → Match rules name .terminalNode
  | context {c : String} : rules.contextForRule? name = some c → Match rules name (.context c)
  | parameter (p : String) : Match rules name (.parameter p)

/-- A member that the rules of a parser allow in a context with labels for the contexts `bases`. -/
structure Member.Allowed (rules : RuleModel) (bases : List String) (m : Member) : Prop where
  visible : m.name.startsWith "_" = false
  own : m.name ∉ ignoredMembers
  result : m.kind = .method →
    ∃ t, rules.Match m.name t ∧ m.ty = if m.arity = .list then .list t else t
  parameter : ∀ p, p ∈ m.ty.parameters ↔ ∃ bound, m.typeParam = some ⟨p, bound⟩
  bound : ∀ p, m.typeParam = some p → p.bound ∈ bases

/-- One member, or the accessor of all matches before the accessor of the match at an index. -/
inductive Member.OneOrPair : List Member → Prop
  | one (m : Member) : m.arity = .single → m.params = [] → OneOrPair [m]
  | pair (all each : Member) :
    all.kind = .method → all.arity = .list → all.params = [] → all.ty = .list each.ty →
    each.kind = .method → each.arity = .indexed → each.params = [⟨"index", .number, false⟩] →
    each.typeParam = all.typeParam → OneOrPair [all, each]

/-- Names of the rule contexts in a model that have labels. -/
def ParserModel.bases (model : ParserModel) : List String :=
  (model.contexts.filter fun d => d.kind = .context ∧ d.polymorphic).map (·.name)

namespace TypeResolver

variable {r : TypeResolver} {name : String}

/-- The members that a name stands for, whatever is found under it. -/
inductive StandsFor (r : TypeResolver) (name : String) : List RawMember → Prop
  | nothing : StandsFor r name []
  | field (ty : Option TypeRef) : (∀ t, ty = some t → t.parameters = []) →
    StandsFor r name [{ name, ty }]
  | method {ty : TypeRef} {typeParam : Option TypeParam} :
    r.accessor? name = some (ty, typeParam) →
    StandsFor r name [{ RawMember.method name [] ty with typeParam }]
  | methods {ty : TypeRef} {typeParam : Option TypeParam} :
    r.accessor? name = some (ty, typeParam) →
    StandsFor r name
      [{ RawMember.method name [] (.list ty) with arity := .list, typeParam },
        { RawMember.method name [⟨"index", .number, false⟩] ty with arity := .indexed, typeParam }]

theorem parameters_of_field? {t : TypeRef} (h : r.field? name = some t) : t.parameters = [] := by
  unfold field? at h
  split at h
  · cases h
    rfl
  · split at h <;> cases h
    rfl

theorem standsFor_membersOf (strategies : List AnnotationStrategy) (sources : List String)
    (found : Except String Probe) : r.StandsFor name (r.membersOf strategies sources name found) := by
  unfold membersOf
  split
  next => exact .nothing
  next => exact .nothing
  next shape =>
    apply StandsFor.field
    intro t ht
    rcases Option.or_eq_some_iff.1 (Option.orElse_eq_or.symm.trans ht) with ht | ⟨_, ht⟩
    · exact parameters_of_field? ht
    · exact (written_of_annotate? ht).parameters_eq_nil
  next arity =>
    unfold accessors
    split
    next haccessor => exact .method haccessor
    next haccessor => exact .methods haccessor
    next => exact .nothing

/-- An accessor has a type parameter just when a context with labels is the match. -/
theorem match_of_accessor? {ty : TypeRef} {typeParam : Option TypeParam}
    (h : r.accessor? name = some (ty, typeParam)) :
    r.rules.Match name ty ∧ ty.parameters = typeParam.toList.map (·.name) ∧
      ∀ p, typeParam = some p → p.bound ∈ r.polymorphic := by
  unfold accessor? at h
  split at h
  · rename_i context hcontext
    split at h
    · rename_i hbase
      cases h
      refine ⟨.parameter _, rfl, ?_⟩
      rintro p ⟨⟩
      simpa using hbase
    · cases h
      exact ⟨.context hcontext, rfl, by simp⟩
  · split at h
    · rename_i hterminal
      cases h
      exact ⟨.terminal (by simpa [RuleModel.isTerminal, RuleModel.mem_terminalSet] using hterminal), rfl, by simp⟩
    · cases h

namespace StandsFor

variable {ms : List RawMember}

theorem name_eq (h : r.StandsFor name ms) : ∀ m ∈ ms, m.name = name := by
  cases h <;> simp [RawMember.method]

theorem exists_kind (h : r.StandsFor name ms) : ∃ k, ∀ m ∈ ms, m.kind = k := by
  cases h with
  | nothing => exact ⟨.field, by simp⟩
  | field => exact ⟨.field, by simp⟩
  | method => exact ⟨.method, by simp [RawMember.method]⟩
  | methods => exact ⟨.method, by simp [RawMember.method]⟩

theorem oneOrPair (h : r.StandsFor name ms) (hms : ms ≠ []) :
    Member.OneOrPair (ms.map (·.toMember)) := by
  cases h with
  | nothing => exact absurd rfl hms
  | field => exact .one _ rfl rfl
  | method => exact .one _ rfl rfl
  | methods => exact .pair _ _ rfl rfl rfl rfl rfl rfl rfl rfl

theorem allowed (h : r.StandsFor name ms) (hname : isIgnored name = false) :
    ∀ m ∈ ms, m.toMember.Allowed r.rules r.polymorphic := by
  obtain ⟨hvisible, hown⟩ := Bool.or_eq_false_iff.1 hname
  have hown : name ∉ ignoredMembers := by simpa using hown
  -- Both accessors of a pair have the type parameter of the type that they are made from.
  have hparam : ∀ {ty : TypeRef} {typeParam : Option TypeParam},
      ty.parameters = typeParam.toList.map (·.name) →
      ∀ p, p ∈ ty.parameters ↔ ∃ bound, typeParam = some ⟨p, bound⟩ := by
    intro ty typeParam hty p
    rw [hty]
    cases typeParam with
    | none => simp
    | some q => obtain ⟨qname, qbound⟩ := q; simp [eq_comm]
  cases h with
  | nothing => simp
  | field ty hty =>
    intro m hm
    cases List.mem_singleton.1 hm
    have hnone : (ty.getD .unknown).parameters = [] := by
      cases ty with
      | none => rfl
      | some t => exact hty t rfl
    exact ⟨hvisible, hown, nofun, by simp [RawMember.toMember, hnone], nofun⟩
  | method haccessor =>
    obtain ⟨hmatch, hty, hbound⟩ := match_of_accessor? haccessor
    intro m hm
    cases List.mem_singleton.1 hm
    exact ⟨hvisible, hown, fun _ => ⟨_, hmatch, rfl⟩, hparam hty, hbound⟩
  | methods haccessor =>
    obtain ⟨hmatch, hty, hbound⟩ := match_of_accessor? haccessor
    intro m hm
    rcases List.mem_cons.1 hm with rfl | hm
    · exact ⟨hvisible, hown, fun _ => ⟨_, hmatch, rfl⟩, hparam hty, hbound⟩
    · cases List.mem_singleton.1 hm
      exact ⟨hvisible, hown, fun _ => ⟨_, hmatch, rfl⟩, hparam hty, hbound⟩

end StandsFor

end TypeResolver

/-- Members read name by name, each name once and none that is ignored. -/
def TypeResolver.Reads (r : TypeResolver) (ms : List RawMember) : Prop :=
  ∃ (names : List String) (group : String → List RawMember), names.Nodup ∧
    (∀ name ∈ names, isIgnored name = false ∧ r.StandsFor name (group name)) ∧
    ms = names.flatMap group

namespace TypeResolver.Reads

variable {r : TypeResolver} {ms : List RawMember}

theorem nil (r : TypeResolver) : r.Reads [] := ⟨[], fun _ => [], by simp⟩

theorem allowed (h : r.Reads ms) : ∀ m ∈ ms, m.toMember.Allowed r.rules r.polymorphic := by
  obtain ⟨names, group, _, hgroup, rfl⟩ := h
  intro m hm
  obtain ⟨name, hname, hm⟩ := List.mem_flatMap.1 hm
  obtain ⟨hkept, hstands⟩ := hgroup name hname
  exact hstands.allowed hkept m hm

theorem exists_standsFor (h : r.Reads ms) {m : RawMember} (hm : m ∈ ms) :
    r.StandsFor m.name (ms.filter (·.name = m.name)) ∧ ms.filter (·.name = m.name) <:+: ms := by
  obtain ⟨names, group, hnodup, hgroup, rfl⟩ := h
  obtain ⟨name, hname, hm⟩ := List.mem_flatMap.1 hm
  obtain rfl : m.name = name := (hgroup name hname).2.name_eq m hm
  obtain ⟨before, after, rfl⟩ := List.append_of_mem hname
  -- Other names stand for members of other names.
  have hother : ∀ others : List String, m.name ∉ others → others ⊆ before ++ m.name :: after →
      (others.flatMap group).filter (·.name = m.name) = [] := by
    intro others hnew hsub
    apply List.filter_eq_nil_iff.2
    intro m' hm'
    obtain ⟨other, hin, hm'⟩ := List.mem_flatMap.1 hm'
    have hm' := (hgroup other (hsub hin)).2.name_eq m' hm'
    simp only [hm', decide_eq_true_eq]
    rintro rfl
    exact hnew hin
  have hstands := (hgroup m.name hname).2
  have hself : (group m.name).filter (·.name = m.name) = group m.name := by
    apply List.filter_eq_self.2
    intro m' hm'
    simp [hstands.name_eq m' hm']
  obtain ⟨hbefore, hafter⟩ : m.name ∉ before ∧ m.name ∉ after := by
    rw [List.nodup_append] at hnodup
    obtain ⟨_, hafter, hdisjoint⟩ := hnodup
    exact ⟨fun hin => hdisjoint m.name hin m.name (by simp) rfl, (List.nodup_cons.1 hafter).1⟩
  have hfilter :
      ((before ++ m.name :: after).flatMap group).filter (·.name = m.name) = group m.name := by
    rw [List.flatMap_append, List.flatMap_cons, List.filter_append, List.filter_append,
      hother before hbefore (by simp), hother after hafter (by simp), hself]
    simp
  rw [hfilter]
  refine ⟨hstands, before.flatMap group, after.flatMap group, ?_⟩
  simp

end TypeResolver.Reads

theorem nodup_eraseDups {α : Type} [BEq α] [LawfulBEq α] (l : List α) : l.eraseDups.Nodup := by
  cases l with
  | nil => simp
  | cons a l =>
    rw [List.eraseDups_cons, List.nodup_cons, List.mem_eraseDups]
    exact ⟨by simp, nodup_eraseDups _⟩
termination_by l.length
decreasing_by
  have hlength := List.length_filter_le (fun other => !other == a) l
  rw [List.length_cons]
  omega

theorem Subject.memberNames_gives (t : Subject) : Gives List.Nodup t.memberNames := by
  apply Gives.after
  intro s
  exact .pure (nodup_eraseDups _)

theorem TypeResolver.reflect_reads (r : TypeResolver) (strategies : List AnnotationStrategy)
    (sources : List String) (probe : String → EvalM (Except String Probe)) {names : List String}
    (hnames : names.Nodup) : Gives r.Reads (r.reflect strategies sources probe names) := by
  -- The names that are left come along, so that the next one is new among them.
  suffices h : Gives (fun ms => ∃ group : String → List RawMember,
      (∀ name, r.StandsFor name (group name)) ∧
      ms = (names.filter (!isIgnored ·)).flatMap group)
      (r.reflect strategies sources probe names) by
    constructor
    intro s ms s' hout
    obtain ⟨group, hgroup, rfl⟩ := h.ok s ms s' hout
    refine ⟨_, group, hnames.filter _, ?_, rfl⟩
    intro name hname
    exact ⟨by simpa using (List.mem_filter.1 hname).2, hgroup name⟩
  induction names with
  | nil => exact .pure ⟨fun _ => [], fun _ => .nothing, rfl⟩
  | cons name names ih =>
    obtain ⟨hnew, hnames⟩ := List.nodup_cons.1 hnames
    unfold reflect
    by_cases hignored : isIgnored name = true
    · rw [if_pos hignored, List.filter_cons_of_neg (by simp [hignored])]
      exact ih hnames
    · rw [if_neg hignored, List.filter_cons_of_pos (by simp [hignored])]
      apply Gives.after
      intro found
      apply (ih hnames).bind
      rintro ms ⟨group, hgroup, rfl⟩
      apply Gives.pure
      refine ⟨Function.update group name (r.membersOf strategies sources name found), ?_, ?_⟩
      · intro other
        by_cases hother : other = name
        · subst hother
          rw [Function.update_self]
          exact standsFor_membersOf strategies sources found
        · rw [Function.update_of_ne hother]
          exact hgroup other
      · rw [List.flatMap_cons, Function.update_self]
        congr 1
        apply List.flatMap_congr
        intro other hother
        have hne : other ≠ name := by
          rintro rfl
          exact hnew (List.mem_filter.1 hother).1
        rw [Function.update_of_ne hne]

def ContextClass.header (context : ContextClass) : ClassHeader :=
  { name := context.name, superclass := context.superclass, rule := some context.rule
    kind := if context.role = .canonical then .context else .label
    polymorphic := context.polymorphic }

structure ContextClass.Found (r : TypeResolver) (context : ContextClass) (c : FoundClass) : Prop where
  header : c.toClassHeader = context.header
  members : r.Reads c.members

theorem findContext_found (r : TypeResolver) (context : ContextClass) :
    Gives (context.Found r) (findContext r context) := by
  have hmembers : Gives r.Reads (RecoverM.ofEval do
      let subject ← Subject.ofClass context.classRef
      subject.members r) := by
    apply RecoverM.ofEval_gives
    apply Gives.after
    intro subject
    apply Gives.after
    intro s
    apply subject.memberNames_gives.bind
    intro names hnames
    exact r.reflect_reads _ _ _ hnames
  apply hmembers.bind
  intro ms hms
  apply Gives.pure
  refine ⟨?_, hms⟩
  unfold ContextClass.header
  cases context.role <;> rfl

theorem Gives.mapM_forall₂ {ε σ α β : Type} {R : α → β → Prop} {f : α → ExceptT ε (StateM σ) β}
    {l : List α} (h : ∀ a ∈ l, Gives (R a) (f a)) : Gives (List.Forall₂ R l) (l.mapM f) := by
  induction l with
  | nil => exact .pure .nil
  | cons a l ih =>
    rw [List.mapM_cons]
    apply (h a (by simp)).bind
    intro b hb
    apply (ih fun a' ha' => h a' (by simp [ha'])).bind
    intro bs hbs
    exact .pure (.cons hb hbs)

theorem ContextClass.Found.all {r : TypeResolver} {l : List ContextClass} {cs : List FoundClass}
    (h : List.Forall₂ (ContextClass.Found r) l cs) :
    cs.map (·.toClassHeader) = l.map (·.header) ∧ ∀ c ∈ cs, r.Reads c.members := by
  induction h with
  | nil => simp
  | cons hfound _ ih =>
    obtain ⟨hheaders, hmembers⟩ := ih
    refine ⟨?_, ?_⟩
    · rw [List.map_cons, List.map_cons, hfound.header, hheaders]
    · intro c hc
      rcases List.mem_cons.1 hc with rfl | hc
      · exact hfound.members
      · exact hmembers c hc

theorem FoundParser.bases_assemble (found : FoundParser) :
    found.assemble.1.bases = ((found.contexts.map (·.toClassHeader)).filter
      fun d => d.kind = .context ∧ d.polymorphic).map (·.name) := by
  simp only [ParserModel.bases, assemble, List.map_map, List.filter_map]
  rfl

theorem ContextPartition.bases_eq {s : Store} {rules : RuleModel} {classes : List Nat} :
    let p := ContextPartition.ofClasses s rules classes
    ((p.all.map (·.header)).filter fun d => d.kind = .context ∧ d.polymorphic).map (·.name) =
      p.polymorphicBases := by
  intro p
  have hcanonical : ∀ c ∈ p.canonical, c.role = .canonical := by
    intro c hc
    obtain ⟨c', hc', rfl⟩ := List.mem_map.1 hc
    simpa using (List.mem_filter.1 hc').2
  have hlabels : ∀ c ∈ p.labels, c.role = .label := by
    intro c hc
    simpa using (List.mem_filter.1 hc).2
  have hnone : (p.labels.map (·.header)).filter
      (fun d => d.kind = .context ∧ d.polymorphic) = [] := by
    apply List.filter_eq_nil_iff.2
    intro d hd
    obtain ⟨c, hc, rfl⟩ := List.mem_map.1 hd
    simp [ContextClass.header, hlabels c hc]
  have hall : p.canonical.filter (fun c => c.header.kind = .context ∧ c.header.polymorphic) =
      p.canonical.filter (·.polymorphic) := by
    apply List.filter_congr
    intro c hc
    simp [ContextClass.header, hcanonical c hc]
  rw [all, List.map_append, List.filter_append, hnone, List.append_nil, List.filter_map,
    List.map_map, polymorphicBases]
  exact congrArg (List.map _) hall

/-- The contexts of a parser are read with the rules and the bases that end up in its model. -/
theorem findParser_reads {t : FileTree} {options : RecoveryOptions} {path : Path}
    {found : FoundParser} (h : findParser t options path = .ok found) :
    ∀ c ∈ found.contexts,
      TypeResolver.Reads ⟨found.rules, found.assemble.1.bases⟩ c.members := by
  obtain ⟨module, _, h⟩ := bind_eq_ok h
  obtain ⟨c, _, h⟩ := bind_eq_ok h
  apply module.recover_ok _ h (P := fun found : FoundParser => ∀ c ∈ found.contexts,
    TypeResolver.Reads ⟨found.rules, found.assemble.1.bases⟩ c.members)
  apply Gives.after
  intro parser
  apply Gives.after
  intro _
  apply Gives.after
  intro rules
  apply Gives.after
  intro classes
  apply Gives.after
  intro s
  apply Gives.after
  intro _
  apply (Gives.mapM_forall₂ fun context _ => findContext_found _ context).bind
  intro contexts hcontexts
  apply Gives.after
  intro numbers
  apply Gives.after
  intro s₁
  apply Gives.after
  intro s₂
  apply Gives.pure
  obtain ⟨hheaders, hmembers⟩ := ContextClass.Found.all hcontexts
  rw [FoundParser.bases_assemble, hheaders, ContextPartition.bases_eq]
  exact hmembers

theorem RawMember.filter_kind_eq_self {group : List RawMember} {k : MemberKind}
    (hkind : ∀ m ∈ group, m.kind = k) : group.filter (·.kind = k) = group := by
  apply List.filter_eq_self.2
  intro m hm
  simp [hkind m hm]

theorem RawMember.infix_mergeSort {ms group : List RawMember} {k : MemberKind}
    (hkind : ∀ m ∈ group, m.kind = k) (h : group <:+: ms) : group <:+: ms.mergeSort mayPrecede := by
  have hsame : group <:+: ms.filter (·.kind = k) := by
    have hfilter := h.filter (fun m : RawMember => decide (m.kind = k))
    rwa [filter_kind_eq_self hkind] at hfilter
  rw [mergeSort_eq]
  cases k with
  | field => exact hsame.trans (List.prefix_append _ _).isInfix
  | method => exact hsame.trans (List.suffix_append _ _).isInfix

theorem RawMember.filter_name_mergeSort {ms : List RawMember} {name : String} {k : MemberKind}
    (hkind : ∀ m ∈ ms.filter (·.name = name), m.kind = k) :
    (ms.mergeSort mayPrecede).filter (·.name = name) = ms.filter (·.name = name) := by
  have hsorted := pairwise_mayPrecede_filter k (ms.filter (·.name = name))
  rw [filter_kind_eq_self hkind] at hsorted
  have hcomm : ∀ k : MemberKind, (ms.filter (·.kind = k)).filter (·.name = name) =
      (ms.filter (·.name = name)).filter (·.kind = k) := fun k => List.filter_comm _ _ ms
  rw [mergeSort_eq, List.filter_append, hcomm, hcomm]
  exact (eq_fields_append_methods hsorted).symm

theorem TypeResolver.Reads.assemble {r : TypeResolver} {c : FoundClass} (h : r.Reads c.members) :
    ∀ m ∈ c.assemble.1.members, m.Allowed r.rules r.polymorphic ∧
      Member.OneOrPair (c.assemble.1.membersNamed m.name) ∧
      c.assemble.1.membersNamed m.name <:+: c.assemble.1.members := by
  intro m hm
  obtain ⟨raw, hraw, rfl⟩ := List.mem_map.1 hm
  have hraw : raw ∈ c.members := List.mem_mergeSort.1 hraw
  obtain ⟨hstands, htogether⟩ := h.exists_standsFor hraw
  obtain ⟨k, hkind⟩ := hstands.exists_kind
  have hsome : c.members.filter (·.name = raw.name) ≠ [] :=
    List.ne_nil_of_mem (List.mem_filter.2 ⟨hraw, by simp⟩)
  have hnamed : c.assemble.1.membersNamed raw.name =
      (c.members.filter (·.name = raw.name)).map (·.toMember) := by
    rw [← RawMember.filter_name_mergeSort hkind]
    exact List.filter_map
  refine ⟨h.allowed raw hraw, ?_, ?_⟩
  · exact hnamed ▸ hstands.oneOrPair hsome
  · exact hnamed ▸ (RawMember.infix_mergeSort hkind htogether).map _

/--
In the declaration of every context no member is private or ignored, a name has one member or two
accessors side by side, and results are what the rules and terminals say. A type parameter stands
for a rule context of the model that has labels.
-/
theorem context_members_wellFormed {t : FileTree} {options : RecoveryOptions} {path : Path}
    {found : FoundParser} (h : findParser t options path = .ok found) :
    ∀ d ∈ found.assemble.1.contexts, ∀ m ∈ d.members,
      m.Allowed found.rules found.assemble.1.bases ∧
      Member.OneOrPair (d.membersNamed m.name) ∧ d.membersNamed m.name <:+: d.members := by
  intro d hd
  obtain ⟨_, hassembled, rfl⟩ := List.mem_map.1 hd
  obtain ⟨c, hc, rfl⟩ := List.mem_map.1 hassembled
  exact (findParser_reads h c hc).assemble

/-- A parser of one rule, whose context has a label and may hold many of its own kind. -/
def FileTree.withParser : FileTree :=
  { entries := [(["P.js"], .file ("class AContext { a(i) {} } class L extends AContext {} " ++
    "class P \x7b static ruleNames = ['a']; static A = AContext; static B = L; \x7d " ++
    "export default P;").toUTF8)] }

theorem context_members_wellFormed_withParser :
    ∃ found, findParser .withParser {} ⟨"/P.js"⟩ = .ok found ∧
      ∃ d ∈ found.assemble.1.contexts, ∃ m ∈ d.members, m.ty = .list (.parameter "T") ∧
        m.Allowed found.rules found.assemble.1.bases ∧
        Member.OneOrPair (d.membersNamed m.name) ∧ d.membersNamed m.name <:+: d.members := by
  let typeParam : Option TypeParam := some ⟨"T", "AContext"⟩
  let all : RawMember :=
    { RawMember.method "a" [] (.list (.parameter "T")) with arity := .list, typeParam }
  let each : RawMember :=
    { RawMember.method "a" [⟨"index", .number, false⟩] (.parameter "T") with
      arity := .indexed, typeParam }
  let a : FoundClass :=
    { name := "AContext", rule := some "a", polymorphic := true, members := [all, each] }
  let label : FoundClass :=
    { name := "L", superclass := some "AContext", kind := .label, rule := some "a", members := [] }
  let found : FoundParser :=
    { parser := { name := "P", kind := .parser, members := [.staticNumber "EOF"] }
      contexts := [a, label], rules := .ofNames ["a"] [], names := ["AContext", "L"] }
  have hplace : FileTree.withParser.locate ⟨"/P.js"⟩ = .ok ["P.js"] := by decide
  have hload (hosts : HostResolver) : loadModule .withParser hosts ⟨"/P.js"⟩ =
      loadChars .withParser hosts ⟨"/P.js"⟩ _ _ :=
    loadModule_eq (by decide) hplace rfl <| toList_append_eq
      (toList_append_eq String.toList_ofList String.toList_ofList) String.toList_ofList
  have hfound : findParser .withParser {} ⟨"/P.js"⟩ = .ok found := by
    rw [findParser, loadForRecovery, hload]
    decide +kernel
  have hd : a.assemble.1 ∈ found.assemble.1.contexts := by simp [found, FoundParser.assemble]
  have hm : all.toMember ∈ a.assemble.1.members :=
    List.mem_map_of_mem (List.mem_mergeSort.2 (by simp [a]))
  exact ⟨found, hfound, _, hd, _, hm, rfl, context_members_wellFormed hfound _ hd _ hm⟩

end Typings
