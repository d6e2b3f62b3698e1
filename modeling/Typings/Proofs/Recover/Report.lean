import Mathlib.Data.List.Forall2
import Mathlib.Data.List.Permutation
import Typings.Proofs.Load.Characters
import Typings.Proofs.Outcome
import Typings.Recover.Grammar

namespace Typings

/-- No part of the type is unknown. -/
def TypeRef.Known : TypeRef → Prop
  | unknown => False
  | list t => t.Known
  | _ => True

theorem TypeRef.isUnknown_eq (t : TypeRef) : t.isUnknown = decide (t = .unknown) := by
  cases t <;> simp [isUnknown]

theorem TypeRef.Known.ne_unknown {t : TypeRef} (h : t.Known) : t ≠ .unknown := by
  rintro rfl
  exact h

/-- A type that an annotation can give. -/
inductive TypeRef.Written : TypeRef → Prop
  | named (name : String) : Written (.named name)
  | list (name : String) : Written (.list (.named name))
  | string : Written .string
  | boolean : Written .boolean
  | number : Written .number

theorem TypeRef.Written.known {t : TypeRef} (h : t.Written) : t.Known := by
  cases h <;> trivial

namespace RawMember

/-- An unknown type is that of a field or of a parameter, as a whole. -/
structure Plain (m : RawMember) : Prop where
  known : ∀ t, m.ty = some t → t.Known
  method : m.kind = .method → m.ty.isSome
  params : ∀ p ∈ m.params, p.ty = .unknown ∨ p.ty.Known

/-- All types are known. -/
structure Settled (m : RawMember) : Prop where
  known : ∃ t, m.ty = some t ∧ t.Known
  params : ∀ p ∈ m.params, p.ty.Known

theorem Settled.plain {m : RawMember} (h : m.Settled) : m.Plain := by
  obtain ⟨t, ht, hknown⟩ := h.known
  constructor
  · intro t' ht'
    rw [ht] at ht'
    cases ht'
    exact hknown
  · intro _
    rw [ht]
    rfl
  · intro p hp
    exact .inr (h.params p hp)

theorem Settled.unresolved_eq_nil {m : RawMember} (h : m.Settled) (className : String) :
    m.unresolved className = [] := by
  obtain ⟨t, ht, hknown⟩ := h.known
  have hty : ¬ m.toMember.ty.isUnknown = true := by
    simpa [TypeRef.isUnknown_eq, toMember, ht] using hknown.ne_unknown
  have hparams : m.params.filter (·.ty.isUnknown) = [] := by
    apply List.filter_eq_nil_iff.2
    intro p hp
    simpa [TypeRef.isUnknown_eq] using (h.params p hp).ne_unknown
  simp [unresolved, hty, hparams]

theorem settled_staticNumber (name : String) : (staticNumber name).Settled := by
  constructor
  · exact ⟨.number, rfl, trivial⟩
  · intro p hp
    cases hp

end RawMember

namespace Annotation

theorem written_namedType (value name : List Char) : (namedType value name).Written := by
  unfold namedType
  split
  · exact .list _
  · exact .named _

theorem written_of_literalType? {cs : List Char} {t : TypeRef} (h : literalType? cs = some t) :
    t.Written := by
  have hcases : t = .string ∨ t = .boolean ∨ t = .number := by
    unfold literalType? at h
    grind
  rcases hcases with rfl | rfl | rfl <;> constructor

end Annotation

theorem AnnotationStrategy.written_of_typeOf? {strategy : AnnotationStrategy}
    {groups : List (List Char)} {t : TypeRef} (h : strategy.typeOf? groups = some t) :
    t.Written := by
  cases strategy with
  | comment =>
    cases h
    exact Annotation.written_namedType _ _
  | literal => exact Annotation.written_of_literalType? h

theorem written_of_annotate? {strategies : List AnnotationStrategy} {field : String}
    {sources : List String} {t : TypeRef} (h : annotate? strategies field sources = some t) :
    t.Written := by
  obtain ⟨strategy, _, h⟩ := List.exists_of_findSome?_eq_some h
  obtain ⟨source, _, h⟩ := List.exists_of_findSome?_eq_some h
  obtain ⟨groups, _, h⟩ := List.exists_of_findSome?_eq_some h
  exact AnnotationStrategy.written_of_typeOf? h

namespace TypeResolver

variable {r : TypeResolver} {name : String} {t : TypeRef} {typeParam : Option TypeParam}

theorem known_of_accessor? (h : r.accessor? name = some (t, typeParam)) : t.Known := by
  unfold accessor? at h
  split at h
  · split at h <;> cases h <;> trivial
  · split at h <;> cases h
    trivial

theorem known_of_field? (h : r.field? name = some t) : t.Known := by
  unfold field? at h
  split at h
  · cases h
    trivial
  · split at h <;> cases h
    trivial

theorem settled_of_mem_accessors {arity : Nat} {m : RawMember} (hm : m ∈ r.accessors name arity) :
    m.Settled := by
  unfold accessors at hm
  split at hm
  next t typeParam haccessor =>
    cases List.mem_singleton.1 hm
    exact ⟨⟨t, rfl, known_of_accessor? haccessor⟩, by simp [RawMember.method]⟩
  next t typeParam haccessor =>
    have hknown := known_of_accessor? haccessor
    rcases List.mem_cons.1 hm with rfl | hm
    · exact ⟨⟨.list t, rfl, hknown⟩, by simp [RawMember.method]⟩
    · cases List.mem_singleton.1 hm
      exact ⟨⟨t, rfl, hknown⟩, by simp [RawMember.method, TypeRef.Known]⟩
  next => cases hm

theorem plain_of_mem_membersOf {strategies : List AnnotationStrategy} {sources : List String}
    {found : Except String Probe} {m : RawMember}
    (hm : m ∈ r.membersOf strategies sources name found) : m.Plain := by
  unfold membersOf at hm
  split at hm
  next => cases hm
  next => cases hm
  next shape =>
    cases List.mem_singleton.1 hm
    refine ⟨fun t ht => ?_, by simp, by simp⟩
    rcases Option.or_eq_some_iff.1 (Option.orElse_eq_or.symm.trans ht) with ht | ⟨_, ht⟩
    · exact known_of_field? ht
    · exact (written_of_annotate? ht).known
  next arity => exact (settled_of_mem_accessors hm).plain

theorem reflect_gives (strategies : List AnnotationStrategy) (sources : List String)
    (probe : String → EvalM (Except String Probe)) (names : List String) :
    Gives (fun ms => ∀ m ∈ ms, RawMember.Plain m) (r.reflect strategies sources probe names) := by
  induction names with
  | nil => exact .pure (by simp)
  | cons name names ih =>
    unfold reflect
    split
    · exact ih
    · apply Gives.after
      intro found
      apply ih.bind
      intro ms hms
      apply Gives.pure
      intro m hm
      rcases List.mem_append.1 hm with hm | hm
      · exact plain_of_mem_membersOf hm
      · exact hms m hm

end TypeResolver

namespace FoundClass

def Plain (c : FoundClass) : Prop := ∀ m ∈ c.members, m.Plain

def Settled (c : FoundClass) : Prop := ∀ m ∈ c.members, m.Settled

theorem Settled.plain {c : FoundClass} (h : c.Settled) : c.Plain := fun m hm => (h m hm).plain

end FoundClass

theorem RecoverM.ofEval_eq_ok {α : Type} {step : EvalM α} {s s' : Store} {a : α}
    (h : RecoverM.ofEval step s = (.ok a, s')) : step s = (.ok a, s') := by
  unfold RecoverM.ofEval EvalM.runFrom at h
  rcases hout : step s with ⟨stop | b, s₁⟩
  · rw [hout] at h
    cases h
  · rw [hout] at h
    cases h
    rfl

theorem RecoverM.ofEval_gives {α : Type} {P : α → Prop} {step : EvalM α} (h : Gives P step) :
    Gives P (RecoverM.ofEval step) := by
  constructor
  intro s a s' hout
  exact h.ok s a s' (ofEval_eq_ok hout)

theorem staticNumbers_gives (c : Nat) :
    Gives (fun ms => ∀ m ∈ ms, RawMember.Settled m) (staticNumbers c) := by
  apply Gives.after
  intro names
  apply Gives.pure
  intro m hm
  obtain ⟨name, _, rfl⟩ := List.mem_map.1 hm
  exact RawMember.settled_staticNumber name

theorem findContext_gives (r : TypeResolver) (context : ContextClass) :
    Gives FoundClass.Plain (findContext r context) := by
  have hmembers : Gives (fun ms => ∀ m ∈ ms, RawMember.Plain m) (RecoverM.ofEval do
      let subject ← Subject.ofClass context.classRef
      subject.members r) := by
    apply RecoverM.ofEval_gives
    apply Gives.after
    intro subject
    apply Gives.after
    intro s
    apply Gives.after
    intro names
    exact TypeResolver.reflect_gives ..
  apply hmembers.bind
  intro ms hms
  exact .pure hms

theorem settled_of_mem_ruleMethods {s : Store} {r : TypeResolver} {c : Nat} {m : RawMember}
    (hm : m ∈ ruleMethods s r c) : m.Settled := by
  obtain ⟨name, _, hm⟩ := List.mem_filterMap.1 hm
  obtain ⟨f, _, hm⟩ := Option.bind_eq_some_iff.1 hm
  obtain ⟨⟨t, typeParam⟩, haccessor, hm⟩ := Option.bind_eq_some_iff.1 hm
  cases hm
  refine ⟨⟨t, rfl, TypeResolver.known_of_accessor? haccessor⟩, fun p hp => ?_⟩
  dsimp only [RawMember.method] at hp
  split at hp
  · cases List.mem_singleton.1 hp
    trivial
  · cases hp

theorem Callbacks.plain_of_member? {callbacks : Callbacks} {rules : RuleModel}
    {contexts : List String} {s : Store} {c : Nat} {name : String} {m : RawMember}
    (h : callbacks.member? rules contexts s c name = some m) : m.Plain := by
  obtain ⟨_, _, h⟩ := Option.bind_eq_some_iff.1 h
  obtain ⟨context, _, h⟩ := Option.bind_eq_some_iff.1 h
  cases h
  constructor
  · rintro t ⟨⟩
    cases callbacks <;> trivial
  · intro _
    rfl
  · intro p hp
    cases List.mem_singleton.1 hp
    dsimp only
    split
    · exact .inr trivial
    · exact .inl rfl

theorem LoadedModule.recover_ok {α : Type} {P : α → Prop} {module : LoadedModule}
    {step : RecoverM α} {a : α} (h : Gives P step) (hout : module.recover step = .ok a) : P a :=
  h.ok module.store a _ (Prod.ext hout rfl)

section
variable {t : FileTree} {options : RecoveryOptions} {path : Path}

theorem findLexer_settled {c : FoundClass} (h : findLexer t options path = .ok c) : c.Settled := by
  obtain ⟨module, _, h⟩ := bind_eq_ok h
  obtain ⟨c', _, h⟩ := bind_eq_ok h
  apply module.recover_ok _ h
  apply Gives.after
  intro _
  apply (staticNumbers_gives c').bind
  intro ms hms
  apply Gives.after
  intro s
  exact .pure hms

theorem findParser_settled {found : FoundParser} (h : findParser t options path = .ok found) :
    found.parser.Settled ∧ ∀ c ∈ found.contexts, c.Plain := by
  obtain ⟨module, _, h⟩ := bind_eq_ok h
  obtain ⟨c, _, h⟩ := bind_eq_ok h
  apply module.recover_ok _ h (P := fun found : FoundParser =>
    found.parser.Settled ∧ ∀ c ∈ found.contexts, c.Plain)
  apply Gives.after
  intro parser
  apply Gives.after
  intro _
  apply Gives.after
  intro rules
  apply Gives.after
  intro classes
  apply Gives.after
  intro s
  apply Gives.after
  intro _
  apply (Gives.mapM fun context _ => findContext_gives _ context).bind
  intro contexts hcontexts
  apply (staticNumbers_gives c).bind
  intro numbers hnumbers
  apply Gives.after
  intro s₁
  apply Gives.after
  intro s₂
  apply Gives.pure
  refine ⟨fun m hm => ?_, hcontexts⟩
  rcases List.mem_append.1 hm with hm | hm
  · exact hnumbers m hm
  · exact settled_of_mem_ruleMethods hm

theorem findCallbacks_plain {callbacks : Callbacks} {rules : RuleModel} {contexts : List String}
    {c : FoundClass} (h : findCallbacks t options callbacks rules contexts path = .ok c) :
    c.Plain := by
  obtain ⟨module, _, h⟩ := bind_eq_ok h
  obtain ⟨c', _, h⟩ := bind_eq_ok h
  cases h
  intro m hm
  obtain ⟨name, _, hm⟩ := List.mem_filterMap.1 hm
  exact Callbacks.plain_of_member? hm

end

/-- Nothing is open in the lexer and the parser class; elsewhere an unknown type stands alone. -/
structure FoundGrammar.Sound (found : FoundGrammar) : Prop where
  lexer : ∀ c, found.lexer = some c → c.Settled
  parser : ∀ p, found.parser = some p → p.parser.Settled ∧ ∀ c ∈ p.contexts, c.Plain
  listener : ∀ c, found.listener = some c → c.Plain
  visitor : ∀ c, found.visitor = some c → c.Plain

theorem forall_of_mapM_eq_ok {ε α β : Type} {f : α → Except ε β} {P : β → Prop} {a? : Option α}
    {b? : Option β} (h : a?.mapM f = .ok b?) (hf : ∀ a b, f a = .ok b → P b) :
    ∀ b, b? = some b → P b := by
  rintro b rfl
  cases a? with
  | none => cases h
  | some a =>
    rw [Option.mapM_some] at h
    cases hfa : f a with
    | error e =>
      rw [hfa] at h
      cases h
    | ok b' =>
      rw [hfa] at h
      cases h
      exact hf a b hfa

theorem runApart_eq_ok {α : Type} {pass : String} {result : Except RecoveryFault α} {a : α}
    (h : runApart pass result = .ok a) : result = .ok a := by
  cases result with
  | error fault => cases h
  | ok b =>
    cases h
    rfl

theorem sideBySide_eq_ok {α β : Type} {first : Except RecoveryFault α}
    {second : Except RecoveryFault β} {both : α × β} (h : sideBySide first second = .ok both) :
    first = .ok both.1 ∧ second = .ok both.2 := by
  cases first with
  | error fault =>
    cases second with
    | error other => cases h
    | ok b => cases h
  | ok a =>
    cases second with
    | error fault => cases h
    | ok b =>
      cases h
      exact ⟨rfl, rfl⟩

theorem findGrammar_sound {t : FileTree} {artifacts : GrammarArtifacts} {options : RecoveryOptions}
    {found : FoundGrammar} (h : findGrammar t artifacts options = .ok found) : found.Sound := by
  obtain ⟨⟨lexer, parser⟩, hfirst, h⟩ := bind_eq_ok h
  obtain ⟨⟨listener, visitor⟩, hsecond, h⟩ := bind_eq_ok h
  obtain ⟨hlexer, hparser⟩ := sideBySide_eq_ok hfirst
  obtain ⟨hlistener, hvisitor⟩ := sideBySide_eq_ok hsecond
  cases h
  exact {
    lexer := forall_of_mapM_eq_ok (runApart_eq_ok hlexer) fun _ _ => findLexer_settled
    parser := forall_of_mapM_eq_ok (runApart_eq_ok hparser) fun _ _ => findParser_settled
    listener := forall_of_mapM_eq_ok (runApart_eq_ok hlistener) fun _ _ => findCallbacks_plain
    visitor := forall_of_mapM_eq_ok (runApart_eq_ok hvisitor) fun _ _ => findCallbacks_plain }

namespace RawMember

theorem pairwise_mayPrecede_filter (k : MemberKind) (ms : List RawMember) :
    (ms.filter (·.kind = k)).Pairwise fun a b => a.mayPrecede b := by
  apply List.pairwise_iff_forall_sublist.2
  intro a b hsub
  have ha : a.kind = k := by simpa using (List.mem_filter.1 (hsub.subset (by simp))).2
  have hb : b.kind = k := by simpa using (List.mem_filter.1 (hsub.subset (by simp))).2
  cases k <;> simp [mayPrecede, ha, hb]

theorem mayPrecede_trans (a b c : RawMember) :
    a.mayPrecede b → b.mayPrecede c → a.mayPrecede c := by
  cases ha : a.kind <;> cases hb : b.kind <;> cases hc : c.kind <;> simp [mayPrecede, ha, hb, hc]

theorem mayPrecede_total (a b : RawMember) : a.mayPrecede b || b.mayPrecede a := by
  cases ha : a.kind <;> cases hb : b.kind <;> simp [mayPrecede, ha, hb]

theorem filter_mergeSort (k : MemberKind) (ms : List RawMember) :
    (ms.mergeSort mayPrecede).filter (·.kind = k) = ms.filter (·.kind = k) := by
  -- Sorting keeps the members of one kind in order, and it adds none.
  have hsub : (ms.filter (·.kind = k)).Sublist (ms.mergeSort mayPrecede) :=
    List.sublist_mergeSort mayPrecede_trans mayPrecede_total (pairwise_mayPrecede_filter k ms) List.filter_sublist
  have hkept := hsub.filter (·.kind = k)
  rw [List.filter_filter, show (fun m : RawMember => decide (m.kind = k) && decide (m.kind = k)) =
    fun m => decide (m.kind = k) by funext m; simp] at hkept
  exact (hkept.eq_of_length ((List.mergeSort_perm ms _).filter _).length_eq.symm).symm

theorem eq_fields_append_methods {ms : List RawMember}
    (h : ms.Pairwise fun a b => a.mayPrecede b) :
    ms = ms.filter (·.kind = .field) ++ ms.filter (·.kind = .method) := by
  induction h with
  | nil => rfl
  | @cons m ms hm _ ih =>
    cases hkind : m.kind with
    | field => simpa [hkind] using ih
    | method =>
      -- Only methods may follow a method.
      have hmethods : ∀ m' ∈ ms, m'.kind = .method := by
        intro m' hm'
        simpa [mayPrecede, hkind] using hm m' hm'
      have hfields : ms.filter (·.kind = .field) = [] := by
        apply List.filter_eq_nil_iff.2
        intro m' hm'
        simp [hmethods m' hm']
      have hall : ms.filter (·.kind = .method) = ms := by
        apply List.filter_eq_self.2
        intro m' hm'
        simp [hmethods m' hm']
      simp [hkind, hfields, hall]

theorem mergeSort_eq (ms : List RawMember) :
    ms.mergeSort mayPrecede = ms.filter (·.kind = .field) ++ ms.filter (·.kind = .method) := by
  have hsorted := List.pairwise_mergeSort mayPrecede_trans mayPrecede_total ms
  rw [eq_fields_append_methods hsorted, filter_mergeSort, filter_mergeSort]

end RawMember

/-- Places of unknown type in a member: the member itself if it is a field, and its parameters. -/
def Member.unknowns (className : String) (m : Member) : List Unresolved :=
  (if m.kind = .field ∧ m.ty = .unknown then [⟨className, m.name⟩] else []) ++
    (m.params.filter (·.ty = .unknown)).map fun p => ⟨className, m.name ++ "(" ++ p.name ++ ")"⟩

/-- Places of unknown type in a declaration, in the order of its members. -/
def Declaration.unknowns (d : Declaration) : List Unresolved := d.members.flatMap (·.unknowns d.name)

/-- An unknown type is that of a field or of a parameter, as a whole. -/
structure Member.Plain (m : Member) : Prop where
  type : m.kind = .field ∧ m.ty = .unknown ∨ m.ty.Known
  params : ∀ p ∈ m.params, p.ty = .unknown ∨ p.ty.Known

/-- Fields before methods, each in the order they were found. -/
structure FoundClass.Arranged (c : FoundClass) (d : Declaration) : Prop where
  header : d.toClassHeader = c.toClassHeader
  members : d.members = d.fields ++ d.methods
  fields : d.fields = (c.members.filter (·.kind = .field)).map (·.toMember)
  methods : d.methods = (c.members.filter (·.kind = .method)).map (·.toMember)

theorem RawMember.unresolved_eq (className : String) (m : RawMember) :
    m.unresolved className = m.toMember.unknowns className := by
  unfold unresolved Member.unknowns
  congr 1
  · apply if_congr _ rfl rfl
    simp [TypeRef.isUnknown_eq, toMember]
  · simp [TypeRef.isUnknown_eq, toMember]

theorem RawMember.Plain.toMember {m : RawMember} (h : m.Plain) : m.toMember.Plain := by
  refine ⟨?_, h.params⟩
  cases hty : m.ty with
  | some t => exact .inr (by simpa [RawMember.toMember, hty] using h.known t hty)
  | none =>
    cases hkind : m.kind with
    | field => exact .inl (by simp [RawMember.toMember, hty, hkind])
    | method => simpa [hty] using h.method hkind

namespace FoundClass

theorem assemble_unresolved (c : FoundClass) : c.assemble.2 = c.assemble.1.unknowns := by
  simp only [assemble, Declaration.unknowns, List.flatMap_map, RawMember.unresolved_eq]

theorem filter_members_assemble (c : FoundClass) (k : MemberKind) :
    c.assemble.1.members.filter (·.kind = k) =
      (c.members.filter (·.kind = k)).map (·.toMember) := by
  rw [← RawMember.filter_mergeSort]
  exact List.filter_map

theorem arranged_assemble (c : FoundClass) : c.Arranged c.assemble.1 := by
  have hfields := c.filter_members_assemble .field
  have hmethods := c.filter_members_assemble .method
  have hmembers : c.assemble.1.members = c.assemble.1.fields ++ c.assemble.1.methods := by
    rw [Declaration.fields, Declaration.methods, hfields, hmethods, ← List.map_append,
      ← RawMember.mergeSort_eq]
    rfl
  exact ⟨rfl, hmembers, hfields, hmethods⟩

theorem Settled.unresolved_eq_nil {c : FoundClass} (h : c.Settled) : c.assemble.2 = [] := by
  apply List.flatMap_eq_nil_iff.2
  intro m hm
  exact (h m (List.mem_mergeSort.1 hm)).unresolved_eq_nil c.name

theorem Plain.assemble {c : FoundClass} (h : c.Plain) : ∀ m ∈ c.assemble.1.members, m.Plain := by
  intro m hm
  obtain ⟨raw, hraw, rfl⟩ := List.mem_map.1 hm
  exact (h raw (List.mem_mergeSort.1 hraw)).toMember

end FoundClass

/-- The classes of a grammar: lexer, parser, contexts, listener, visitor. -/
def FoundGrammar.classes (found : FoundGrammar) : List FoundClass :=
  found.lexer.toList ++ (found.parser.toList.flatMap fun p => p.parser :: p.contexts) ++
    found.listener.toList ++ found.visitor.toList

namespace FoundGrammar

variable {found : FoundGrammar}

theorem declarations_assemble (grammar : String) :
    (found.assemble grammar).declarations = found.classes.map (·.assemble.1) := by
  rcases found with ⟨lexer, parser, listener, visitor⟩
  cases lexer <;> cases parser <;> cases listener <;> cases visitor <;>
    simp [assemble, classes, GrammarModel.declarations, FoundParser.assemble]

theorem Sound.plain (h : found.Sound) : ∀ c ∈ found.classes, c.Plain := by
  intro c hc
  simp only [classes, List.mem_append, Option.mem_toList, List.mem_flatMap] at hc
  rcases hc with ((hc | ⟨p, hp, hc⟩) | hc) | hc
  · exact (h.lexer c hc).plain
  · obtain ⟨hparser, hcontexts⟩ := h.parser p hp
    rcases List.mem_cons.1 hc with rfl | hc
    · exact hparser.plain
    · exact hcontexts c hc
  · exact h.listener c hc
  · exact h.visitor c hc

/-- The shares that are thrown away are empty. -/
theorem Sound.unresolved_eq (h : found.Sound) (grammar : String) :
    (found.assemble grammar).unresolved = found.classes.flatMap (·.assemble.2) := by
  have hlexer : found.lexer.toList.flatMap (·.assemble.2) = [] := by
    apply List.flatMap_eq_nil_iff.2
    intro c hc
    exact (h.lexer c (Option.mem_toList.1 hc)).unresolved_eq_nil
  have hparser : (found.parser.toList.flatMap fun p => p.parser :: p.contexts).flatMap
      (·.assemble.2) = (found.parser.map (·.assemble.2)).getD [] := by
    cases hp : found.parser with
    | none => rfl
    | some p => simp [FoundParser.assemble, (h.parser p hp).1.unresolved_eq_nil, List.flatMap_map]
  have hoption : ∀ c? : Option FoundClass,
      c?.toList.flatMap (·.assemble.2) = (c?.map (·.assemble.2)).getD [] := by
    intro c?
    cases c? <;> simp
  simp only [classes, List.flatMap_append, hlexer, hparser, hoption, List.nil_append]
  simp [assemble, Function.comp_def]

end FoundGrammar

/--
The report of a grammar is what a walk over its declarations finds, where every declaration has its
fields before its methods, each in the order they were found. An unknown type is never hidden in
another type or in a result.
-/
theorem report_is_complete {t : FileTree} {artifacts : GrammarArtifacts} {options : RecoveryOptions}
    {model : GrammarModel} (h : recoverGrammar t artifacts options = .ok model) :
    model.unresolved = model.declarations.flatMap (·.unknowns) ∧
    (∃ found, findGrammar t artifacts options = .ok found ∧
      List.Forall₂ FoundClass.Arranged found.classes model.declarations) ∧
    ∀ d ∈ model.declarations, ∀ m ∈ d.members, m.Plain := by
  obtain ⟨found, hfound, h⟩ := bind_eq_ok h
  cases h
  have hsound := findGrammar_sound hfound
  rw [FoundGrammar.declarations_assemble]
  refine ⟨?_, ⟨found, hfound, ?_⟩, ?_⟩
  · rw [hsound.unresolved_eq, List.flatMap_map]
    simp only [FoundClass.assemble_unresolved]
  · apply List.forall₂_map_right_iff.2
    apply List.forall₂_same.2
    intro c _
    exact c.arranged_assemble
  · intro d hd
    obtain ⟨c, hc, rfl⟩ := List.mem_map.1 hd
    exact (hsound.plain c hc).assemble

/-- A listener for a context that no parser has. -/
def FileTree.withListener : FileTree :=
  { entries := [(["L.js"], .file "export default class L { enterX(ctx) {} }".toUTF8)] }

theorem report_is_complete_withListener :
    let artifacts : GrammarArtifacts := { grammar := "G", listener := some ⟨"/L.js"⟩ }
    ∃ model, recoverGrammar .withListener artifacts {} = .ok model ∧
      model.unresolved = [⟨"L", "enterX(ctx)"⟩] ∧
      model.unresolved = model.declarations.flatMap (·.unknowns) := by
  intro artifacts
  let method : RawMember := .method "enterX" [⟨"ctx", .unknown, false⟩] .void
  let found : FoundGrammar :=
    { lexer := none, parser := none, visitor := none
      listener := some { name := "L", kind := .listener, members := [method] } }
  have hfound : findGrammar .withListener artifacts {} = .ok found := by decide +kernel
  have hout : recoverGrammar .withListener artifacts {} = .ok (found.assemble "G") := by
    unfold recoverGrammar
    rw [hfound]
    rfl
  have hreport : (found.assemble "G").unresolved = [⟨"L", "enterX(ctx)"⟩] := by cbv
  exact ⟨_, hout, hreport, (report_is_complete hout).1⟩

end Typings
