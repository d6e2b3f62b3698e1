import Mathlib.Data.List.Nodup
import Mathlib.Logic.Relation
import Typings.Proofs.Recover.View
import Typings.Proofs.Render.Closed

namespace Typings

namespace Sheet

def declaredNames (f : Sheet) : List String := f.classes.map (·.name)

/-- A class of the file extends another one. -/
def Extends (f : Sheet) (a b : String) : Prop :=
  ∃ c ∈ f.classes, c.name = a ∧ c.base = .declared b

instance (f : Sheet) (a b : String) : Decidable (f.Extends a b) :=
  inferInstanceAs (Decidable (∃ c ∈ f.classes, _))

end Sheet

/-- Types of the runtime that the file of a parser names without a look at the classes it declares. -/
def unaskedTypes : List String := ["Parser", "ParserRuleContext", "TerminalNode", "TokenStream"]

namespace TypeName

/-- A name that is imported from the runtime is none of the contexts, unless these are not asked. -/
def Asked (contexts : List String) : TypeName → Prop
  | runtime n => n ∈ runtimeTypes ∧ (n ∈ contexts → n ∈ unaskedTypes)
  | _ => True

theorem asked_of_mem {contexts : List String} {n : String} (h : n ∈ unaskedTypes) :
    (runtime n).Asked contexts := by
  have hall : ∀ n ∈ unaskedTypes, n ∈ runtimeTypes := by decide
  exact ⟨hall n h, fun _ => h⟩

variable (known : ContextNames)

theorem asked_ofClass (name : String) : (ofClass known name).Asked known.names := by
  unfold ofClass
  split
  · split
    · trivial
    · trivial
  · rename_i hunknown
    split
    · exact ⟨‹_›, fun hname => absurd hname hunknown⟩
    · trivial

theorem asked_ofSuperclass (superclass : Option String) {fallback : String}
    (h : fallback ∈ unaskedTypes) : (ofSuperclass known superclass fallback).Asked known.names := by
  unfold ofSuperclass
  split
  · split
    · exact asked_ofClass known _
    · exact asked_of_mem h
  · exact asked_of_mem h

theorem asked_ofType (t : TypeRef) : (WrittenType.ofType known t).typeName.Asked known.names := by
  induction t with
  | context name => exact asked_ofClass known name
  | named name => exact asked_ofClass known name
  | terminalNode => exact asked_of_mem (by decide)
  | list element ih => exact ih
  | _ => trivial

theorem asked_ofMember (m : Member) :
    ∀ n ∈ (Line.ofMember known m).typeNames, n.Asked known.names := by
  intro n hn
  unfold Line.ofMember at hn
  split at hn
  · rw [List.mem_singleton.1 hn]
    exact asked_ofType known m.ty
  · simp only [Line.typeNames, List.mem_append, List.mem_singleton, List.map_map, List.mem_map,
      Option.mem_toList, Option.map_map, Option.map_eq_some_iff] at hn
    rcases hn with (⟨p, _, rfl⟩ | ⟨p, _, rfl⟩) | rfl
    · exact asked_ofClass known p.bound
    · exact asked_ofType known p.ty
    · exact asked_ofType known m.ty

theorem asked_ofMembers (ms : List Member) :
    ∀ n ∈ (ms.map (Line.ofMember known)).flatMap (·.typeNames), n.Asked known.names := by
  intro n hn
  obtain ⟨l, hl, hn⟩ := List.mem_flatMap.1 hn
  obtain ⟨m, _, rfl⟩ := List.mem_map.1 hl
  exact asked_ofMember known m n hn

end TypeName

namespace ParserModel

variable (p : ParserModel)

theorem sheet_asked : ∀ n ∈ p.sheet.typeNames, n.Asked p.contextNames := by
  intro n hn
  let known : ContextNames := ⟨p.contextNames, true⟩
  rw [p.sheet_typeNames] at hn
  simp only [List.mem_append, List.mem_singleton, or_assoc] at hn
  rcases hn with rfl | hn | hn | rfl | hn | hn
  · exact TypeName.asked_ofSuperclass known _ (by decide)
  · exact TypeName.asked_ofMembers known _ n hn
  · obtain ⟨_, _, rfl⟩ := List.mem_map.1 hn
    trivial
  · exact TypeName.asked_of_mem (by decide)
  · exact TypeName.asked_ofMembers known _ n hn
  · obtain ⟨d, _, hn⟩ := List.mem_flatMap.1 hn
    rcases List.mem_append.1 hn with hn | hn
    · rw [List.mem_singleton.1 hn]
      exact TypeName.asked_ofSuperclass known _ (by decide)
    · exact TypeName.asked_ofMembers known _ n hn

theorem declaredNames_sheet : p.sheet.declaredNames = p.parser.name :: p.contextNames := by
  rw [← p.names_sheet_contexts]
  rfl

theorem clash_of_imported {n : String} (hn : n ∈ p.sheet.runtimeImports)
    (hdeclared : n ∈ p.sheet.declaredNames) :
    n ∈ runtimeTypes ∧ (n = p.parser.name ∨ n ∈ unaskedTypes) := by
  obtain ⟨htype, hasked⟩ := p.sheet_asked _ (Sheet.mem_runtimeImports.1 hn)
  rw [p.declaredNames_sheet] at hdeclared
  exact ⟨htype, (List.mem_cons.1 hdeclared).imp_right hasked⟩

end ParserModel

theorem TypeName.ofSuperclass_eq_declared {known : ContextNames} {superclass : Option String}
    {fallback n : String} (h : ofSuperclass known superclass fallback = .declared n) :
    superclass = some n ∧ n ∈ known.names := by
  unfold ofSuperclass at h
  split at h
  · rename_i name
    split at h
    · unfold ofClass at h
      split at h
      · rename_i hname
        split at h
        · cases h
          exact ⟨rfl, hname⟩
        · cases h
      · split at h
        · cases h
        · cases h
    · cases h
  · cases h

theorem ParserModel.extends_cases {p : ParserModel} {a b : String} (h : p.sheet.Extends a b) :
    b ∈ p.contextNames ∧
      (a = p.parser.name ∨ ∃ d ∈ p.contexts, d.name = a ∧ d.superclass = some b) := by
  obtain ⟨c, hc, rfl, hbase⟩ := h
  rcases List.mem_cons.1 hc with rfl | hc
  · exact ⟨(TypeName.ofSuperclass_eq_declared hbase).2, .inl rfl⟩
  · obtain ⟨d, hd, rfl⟩ := List.mem_map.1 hc
    obtain ⟨hsuper, hb⟩ := TypeName.ofSuperclass_eq_declared hbase
    exact ⟨hb, .inr ⟨d, hd, rfl, hsuper⟩⟩

structure ContextClass.Of (s : Store) (c : Nat) (k : ContextClass) : Prop where
  classRef : k.classRef = c
  name : k.name = (s.classCell c).name
  superclass : ∀ n, k.superclass = some n → s.superclassName? c = some n

theorem Store.Ready.lt_of_superclass {s : Store} (hs : s.Ready False) {c p : Nat}
    (h : (s.classCell c).superclass.class? = some p) : p < c := by
  cases hsuper : (s.classCell c).superclass with
  | classOf p' =>
    rw [hsuper] at h
    cases h
    exact hs.sound.toLines c p hsuper
  | _ =>
    rw [hsuper] at h
    cases h

theorem Store.superclassName?_of_parentName? {s : Store} {c : Nat} {n : String}
    (h : s.parentName? c = some n) : s.superclassName? c = some n := by
  unfold parentName? at h
  unfold superclassName?
  cases hsuper : (s.classCell c).superclass with
  | classOf p =>
    rw [hsuper] at h
    exact h
  | _ =>
    rw [hsuper] at h
    cases h

theorem contextClass?_of {s : Store} {rules : RuleModel} {c : Nat} {k : ContextClass}
    (h : contextClass? s rules c = some k) : k.Of s c := by
  unfold contextClass? at h
  dsimp only at h
  split at h
  · cases h
    exact ⟨rfl, rfl, fun _ => Store.superclassName?_of_parentName?⟩
  · cases h
    exact ⟨rfl, rfl, fun _ => id⟩
  · split at h
    · obtain ⟨_, _, rfl⟩ := Option.map_eq_some_iff.1 h
      exact ⟨rfl, rfl, fun _ => Store.superclassName?_of_parentName?⟩
    · cases h

namespace ParserView

variable {v : ParserView}

theorem of_mem_all {k : ContextClass} (hk : k ∈ v.partition.all) :
    k.Of v.store k.classRef := by
  have hfound : ∀ k, k ∈ v.classes.eraseDups.filterMap (contextClass? v.store v.rules) →
      k.Of v.store k.classRef := by
    intro k hk
    obtain ⟨c, _, hc⟩ := List.mem_filterMap.1 hk
    have hof := contextClass?_of hc
    rwa [hof.classRef]
  rcases List.mem_append.1 hk with hk | hk
  · obtain ⟨k', hk', rfl⟩ := List.mem_map.1 hk
    have hof := hfound k' (List.mem_filter.1 hk').1
    exact ⟨rfl, hof.name, hof.superclass⟩
  · exact hfound k (List.mem_filter.1 hk).1

theorem nodup_contexts (v : ParserView) : v.contexts.Nodup := by
  let found := v.classes.eraseDups.filterMap (contextClass? v.store v.rules)
  have hall : v.contexts = (found.filter (·.role = .canonical)).map (·.classRef) ++
      (found.filter (·.role = .label)).map (·.classRef) := by
    simp only [contexts, partition, ContextPartition.all, ContextPartition.ofClasses, List.map_append,
      List.map_map]
    rfl
  have hlabels : found.filter (·.role = .label) = found.filter fun k => !decide (k.role = .canonical) :=
    List.filter_congr fun k _ => by cases k.role <;> rfl
  have hperm : v.contexts.Perm (found.map (·.classRef)) := by
    rw [hall, hlabels, ← List.map_append]
    exact (List.filter_append_perm _ found).map _
  rw [hperm.nodup_iff, List.map_filterMap]
  refine (nodup_eraseDups v.classes).filterMap fun c c' b hb hb' => ?_
  obtain ⟨k, hk, rfl⟩ := Option.map_eq_some_iff.1 hb
  obtain ⟨k', hk', heq⟩ := Option.map_eq_some_iff.1 hb'
  rw [← (contextClass?_of hk).classRef, ← (contextClass?_of hk').classRef, heq]

theorem names_all (v : ParserView) : v.partition.all.map (·.name) = v.contexts.map v.name := by
  rw [contexts, List.map_map]
  exact List.map_congr_left fun k hk => (of_mem_all hk).name

/-- The classes of a file have different names: the parser, and each of the contexts. -/
def NamesDiffer (v : ParserView) (parser : String) : Prop :=
  parser ∉ v.contexts.map v.name ∧
    ∀ a ∈ v.contexts, ∀ b ∈ v.contexts, v.name a = v.name b → a = b

/-- A context that extends a class with the name of a context extends that context. -/
def ParentsNamed (v : ParserView) : Prop :=
  ∀ a ∈ v.contexts, ∀ b ∈ v.contexts, v.store.superclassName? a = some (v.name b) →
    (v.store.classCell a).superclass.class? = some b

instance (v : ParserView) (parser : String) : Decidable (v.NamesDiffer parser) :=
  inferInstanceAs (Decidable (_ ∧ ∀ a ∈ v.contexts, ∀ b ∈ v.contexts, _))

instance (v : ParserView) : Decidable v.ParentsNamed :=
  inferInstanceAs (Decidable (∀ a ∈ v.contexts, ∀ b ∈ v.contexts, _))

theorem nodup_iff_namesDiffer (v : ParserView) (parser : String) :
    (parser :: v.contexts.map v.name).Nodup ↔ v.NamesDiffer parser := by
  rw [List.nodup_cons, List.nodup_map_iff_inj_on v.nodup_contexts]
  exact Iff.rfl

/-- There is a class of the name `b` that is older than every context of the name `a`. -/
def Below (v : ParserView) (a b : String) : Prop :=
  ∃ q ∈ v.contexts, v.name q = b ∧ ∀ r ∈ v.contexts, v.name r = a → q < r

theorem Below.trans {a b c : String} (h : v.Below a b) (h' : v.Below b c) : v.Below a c := by
  obtain ⟨q, hq, hqb, hlt⟩ := h
  obtain ⟨q', hq', hqc, hlt'⟩ := h'
  exact ⟨q', hq', hqc, fun r hr hra => Nat.lt_trans (hlt' q hq hqb) (hlt r hr hra)⟩

theorem Below.irrefl {a : String} : ¬ v.Below a a := by
  rintro ⟨q, hq, hqa, hlt⟩
  exact Nat.lt_irrefl q (hlt q hq hqa)

end ParserView

section

variable {v : ParserView} {found : FoundParser}

theorem FoundParser.header_of_mem_contexts {d : Declaration} (hd : d ∈ found.assemble.1.contexts) :
    d.toClassHeader ∈ found.contexts.map (·.toClassHeader) := by
  obtain ⟨_, hassembled, rfl⟩ := List.mem_map.1 hd
  obtain ⟨c, hc, rfl⟩ := List.mem_map.1 hassembled
  exact List.mem_map_of_mem hc

theorem FoundParser.contextNames_assemble (found : FoundParser) :
    found.assemble.1.contextNames = (found.contexts.map (·.toClassHeader)).map (·.name) := by
  simp only [ParserModel.contextNames, assemble, List.map_map]
  rfl

variable (hheaders : found.contexts.map (·.toClassHeader) = v.partition.all.map (·.header))
include hheaders

theorem contextNames_of_view : found.assemble.1.contextNames = v.contexts.map v.name := by
  rw [found.contextNames_assemble, hheaders, ← v.names_all, List.map_map]
  rfl

theorem below_of_extends (hs : v.store.Ready False) (hnames : v.NamesDiffer found.parser.name)
    (hparents : v.ParentsNamed) {a b : String} (h : found.assemble.1.sheet.Extends a b) :
    v.Below a b := by
  obtain ⟨hb, ha⟩ := ParserModel.extends_cases h
  rw [contextNames_of_view hheaders] at hb
  obtain ⟨q, hq, rfl⟩ := List.mem_map.1 hb
  refine ⟨q, hq, rfl, fun r hr hra => ?_⟩
  rcases ha with rfl | ⟨d, hd, rfl, hsuper⟩
  · exact absurd (hra ▸ List.mem_map_of_mem hr) hnames.1
  · have hheader := FoundParser.header_of_mem_contexts hd
    rw [hheaders] at hheader
    obtain ⟨k, hk, hkd⟩ := List.mem_map.1 hheader
    have hof := ParserView.of_mem_all hk
    have hk' : k.classRef ∈ v.contexts := List.mem_map_of_mem hk
    have hname : v.name k.classRef = d.name := by
      rw [ParserView.name, ← hof.name]
      exact congrArg ClassHeader.name hkd
    have hsuper' : v.store.superclassName? k.classRef = some (v.name q) := by
      refine hof.superclass _ ?_
      rw [← hsuper, ← hkd]
      rfl
    have hsame : r = k.classRef := hnames.2 r hr _ hk' (hra.trans hname.symm)
    rw [hsame]
    exact hs.lt_of_superclass (hparents _ hk' q hq hsuper')

end

/--
The file of a parser declares the parser class and one class for each context, under the names that
they have in the program. So no name is declared twice just when these differ. A name that is both
imported and declared is a runtime type: the name of the parser, or one of four that the file uses
without a look at what it declares. If names differ and each context that extends a class
with the name of a context extends that context, no class extends itself, directly or through others.
-/
theorem parser_file_clashes {t : FileTree} {options : RecoveryOptions} {path : Path}
    {found : FoundParser} (h : findParser t options path = .ok found) :
    ∃ v, viewParser t options path = .ok v ∧
      let f := found.assemble.1.sheet
      renderParser found.assemble.1 = f.text ∧
      f.declaredNames = found.parser.name :: v.contexts.map v.name ∧
      (f.declaredNames.Nodup ↔ v.NamesDiffer found.parser.name) ∧
      (∀ n ∈ f.runtimeImports, n ∈ f.declaredNames →
        n ∈ runtimeTypes ∧ (n = found.parser.name ∨ n ∈ unaskedTypes)) ∧
      (v.NamesDiffer found.parser.name → v.ParentsNamed →
        ∀ n, ¬ Relation.TransGen f.Extends n n) := by
  obtain ⟨v, hv, hheaders⟩ := findParser_view h
  have hdeclared : found.assemble.1.sheet.declaredNames =
      found.parser.name :: v.contexts.map v.name := by
    rw [ParserModel.declaredNames_sheet, contextNames_of_view hheaders]
    rfl
  refine ⟨v, hv, renderParser_eq _, hdeclared, ?_, ?_, ?_⟩
  · rw [hdeclared, v.nodup_iff_namesDiffer]
  · exact fun n => found.assemble.1.clash_of_imported
  · intro hnames hparents n hcycle
    have hstep : ∀ {a b}, found.assemble.1.sheet.Extends a b → v.Below a b :=
      below_of_extends hheaders (viewParser_ready hv) hnames hparents
    have hbelow : ∀ {a b}, Relation.TransGen found.assemble.1.sheet.Extends a b → v.Below a b := by
      intro a b hab
      induction hab with
      | single h => exact hstep h
      | tail _ h ih => exact ih.trans (hstep h)
    exact ParserView.Below.irrefl (hbelow hcycle)

/-- In the parser with a context and a label of it all names tell. -/
theorem parser_file_clashes_withParser :
    ∃ found v, findParser .withParser {} ⟨"/P.js"⟩ = .ok found ∧
      viewParser .withParser {} ⟨"/P.js"⟩ = .ok v ∧ v.NamesDiffer found.parser.name ∧
      v.ParentsNamed ∧ found.assemble.1.sheet.declaredNames.Nodup ∧
      found.assemble.1.sheet.Extends "L" "AContext" ∧
      ∀ n, ¬ Relation.TransGen found.assemble.1.sheet.Extends n n := by
  have hplace : FileTree.withParser.locate ⟨"/P.js"⟩ = .ok ["P.js"] := by decide
  have hload (hosts : HostResolver) : loadModule .withParser hosts ⟨"/P.js"⟩ =
      loadChars .withParser hosts ⟨"/P.js"⟩ _ _ :=
    loadModule_eq (by decide) hplace rfl <| toList_append_eq
      (toList_append_eq String.toList_ofList String.toList_ofList) String.toList_ofList
  obtain ⟨hfound, hview⟩ : ((findParser .withParser {} ⟨"/P.js"⟩).toOption.any fun found =>
        found.parser.name = "P" ∧ found.assemble.1.sheet.Extends "L" "AContext") ∧
      (viewParser .withParser {} ⟨"/P.js"⟩).toOption.any fun v =>
        v.NamesDiffer "P" ∧ v.ParentsNamed := by
    rw [findParser, viewParser, loadForRecovery, hload]
    decide +kernel
  cases hrun : findParser .withParser {} ⟨"/P.js"⟩ with
  | error e =>
    rw [hrun] at hfound
    cases hfound
  | ok found =>
    obtain ⟨v, hv, _, _, hnodup, _, hacyclic⟩ := parser_file_clashes hrun
    rw [hrun] at hfound
    rw [hv] at hview
    obtain ⟨hname, hextends⟩ := of_decide_eq_true hfound
    obtain ⟨hnames, hparents⟩ := of_decide_eq_true hview
    rw [← hname] at hnames
    exact ⟨found, v, rfl, hv, hnames, hparents, hnodup.2 hnames, hextends, hacyclic hnames hparents⟩

/-- Two contexts of one name, that of a runtime type. The first extends the runtime type. -/
def FileTree.withClash : FileTree :=
  { entries := [(["P.js"], .file ("import a from 'antlr4'; " ++
    "const A = class ParserRuleContext extends a.ParserRuleContext {}; " ++
    "const B = class ParserRuleContext {}; " ++
    "export default class P \x7b static ruleNames = ['parserRule']; static a = A; static b = B; \x7d"
    ).toUTF8)] }

/-- The name is declared twice and also imported, and the first class of that name extends itself. -/
theorem context_extends_itself :
    ∃ found, findParser .withClash {} ⟨"/P.js"⟩ = .ok found ∧
      let f := found.assemble.1.sheet
      ¬ f.declaredNames.Nodup ∧ "ParserRuleContext" ∈ f.runtimeImports ∧
        "ParserRuleContext" ∈ f.declaredNames ∧ f.Extends "ParserRuleContext" "ParserRuleContext" := by
  let context (superclass : Option String) : FoundClass :=
    { name := "ParserRuleContext", superclass, rule := some "parserRule", members := [] }
  let found : FoundParser :=
    { parser := { name := "P", kind := .parser, members := [.staticNumber "EOF"] }
      contexts := [context (some "ParserRuleContext"), context none]
      rules := .ofNames ["parserRule"] []
      names := ["ParserRuleContext", "ParserRuleContext"] }
  have hplace : FileTree.withClash.locate ⟨"/P.js"⟩ = .ok ["P.js"] := by decide
  have hload (hosts : HostResolver) : loadModule .withClash hosts ⟨"/P.js"⟩ =
      loadChars .withClash hosts ⟨"/P.js"⟩ _ _ :=
    loadModule_eq (by decide) hplace rfl <| toList_append_eq (toList_append_eq (toList_append_eq
      String.toList_ofList String.toList_ofList) String.toList_ofList) String.toList_ofList
  have hfound : findParser .withClash {} ⟨"/P.js"⟩ = .ok found := by
    rw [findParser, loadForRecovery, hload]
    decide +kernel
  refine ⟨found, hfound, ?_, Sheet.mem_runtimeImports.2 ?_, ?_, ?_⟩
  · decide +kernel
  · decide +kernel
  · decide +kernel
  · decide +kernel

end Typings
