import Typings.Proofs.Render.Reading

namespace Typings

/-- The type words that every file knows. -/
def builtinTypes : List String := ["string", "boolean", "number", "void", "any", "unknown"]

def TypeRef.parameter? : TypeRef → Option String
  | .parameter n => some n
  | .list t => t.parameter?
  | _ => none

/-- The types of a member name no type parameter but its own. -/
def Member.BindsParameters (m : Member) : Prop :=
  ∀ t ∈ m.ty :: m.params.map (·.ty), ∀ n ∈ t.parameter?, m.typeParam.map (·.name) = some n

instance (m : Member) : Decidable m.BindsParameters :=
  inferInstanceAs (Decidable (∀ t ∈ _, ∀ n ∈ TypeRef.parameter? t, _))

def Declaration.BindsParameters (d : Declaration) : Prop := ∀ m ∈ d.members, m.BindsParameters

instance (d : Declaration) : Decidable d.BindsParameters :=
  inferInstanceAs (Decidable (∀ m ∈ d.members, m.BindsParameters))

def GrammarModel.BindsParameters (g : GrammarModel) : Prop :=
  ∀ d ∈ g.declarations, d.BindsParameters

instance (g : GrammarModel) : Decidable g.BindsParameters :=
  inferInstanceAs (Decidable (∀ d ∈ g.declarations, d.BindsParameters))

namespace Sheet

/-- A name means a type where it stands in a file; `own` is the type parameter of the member there. -/
def Knows (f : Sheet) (own : Option String) (n : String) : Prop :=
  n ∈ builtinTypes ∨ own = some n ∨ n ∈ f.contexts.map (·.name) ∨
    n ∈ f.runtimeImports ∨ n ∈ f.contextImports

/-- All names in a file are known where they stand, and what is imported is used. -/
structure Closed (f : Sheet) : Prop where
  bases : ∀ c ∈ f.classes, ∀ n ∈ c.baseNames, f.Knows none n.text
  lines : ∀ c ∈ f.classes, ∀ l ∈ c.lines, ∀ n ∈ l.typeNames, f.Knows l.own n.text
  runtimeUsed : ∀ n ∈ f.runtimeImports, .runtime n ∈ f.typeNames
  contextsUsed : ∀ n ∈ f.contextImports, .context n ∈ f.typeNames

end Sheet

/-- All type names in the text of a file are known where they stand, and what is imported is used. -/
structure DeclarationFile.Closed (file : DeclarationFile) : Prop where
  known : ∀ row ∈ file.rows, ∀ n ∈ Printed.typeNames row,
    n ∈ builtinTypes ∨ n ∈ Printed.ownTypes row ∨ n ∈ file.declared ∨
      ∃ source, n ∈ file.imports source
  used : ∀ source, ∀ n ∈ file.imports source, ∃ row ∈ file.rows, n ∈ Printed.typeNames row

/-- The text of a closed file can be read as one. -/
theorem Sheet.Closed.file_closed {f : Sheet} (h : f.Closed) (hlegible : f.Legible) :
    f.file.Closed where
  known row hrow n hn := by
    have hknows {own : Option String} (hown : own = some n → n ∈ Printed.ownTypes row)
        (hn : f.Knows own n) : n ∈ builtinTypes ∨ n ∈ Printed.ownTypes row ∨
          n ∈ f.file.declared ∨ ∃ source, n ∈ f.file.imports source := by
      rcases hn with hn | hn | hn | hn | hn
      · exact .inl hn
      · exact .inr (.inl (hown hn))
      · exact .inr (.inr (.inl (hlegible.mem_declared hn)))
      · exact .inr (.inr (.inr ⟨_, hlegible.mem_imports.2 (.inl ⟨rfl, hn⟩)⟩))
      · exact .inr (.inr (.inr ⟨_, hlegible.mem_imports.2 (.inr ⟨rfl, hn⟩)⟩))
    rcases hlegible.mem_typeNames hrow hn with ⟨c, hc, t, ht, rfl⟩ | ⟨c, hc, l, hl, rfl, hn'⟩
    · exact hknows (by simp) (h.bases c hc t ht)
    · have hown := ((hlegible.classes c hc).lines l hl).mem_ownTypes (n := n)
      rcases hn' with hn' | ⟨t, ht, rfl⟩
      · exact .inr (.inl (hown hn'))
      · exact hknows hown (h.lines c hc l hl t ht)
  used source n hn := by
    rcases hlegible.mem_imports.1 hn with ⟨-, hn⟩ | ⟨-, hn⟩
    · exact hlegible.exists_row (h.runtimeUsed n hn)
    · exact hlegible.exists_row (h.contextsUsed n hn)

/-- The place that a name comes from has it. -/
def TypeName.Sourced (g : GrammarModel) (f : Sheet) (own : Option String) : TypeName → Prop
  | .word w => w ∈ builtinTypes
  | .parameter n => own = some n
  | .declared n => n ∈ f.contexts.map (·.name)
  | .context n => ∃ p, g.parser = some p ∧ f.parserModule = p.parser.name ∧ n ∈ p.contextNames
  | .runtime n => n ∈ runtimeTypes

/-- Every name in a file comes from a place that has it. -/
structure Sheet.Sourced (g : GrammarModel) (f : Sheet) : Prop where
  bases : ∀ c ∈ f.classes, ∀ n ∈ c.baseNames, n.Sourced g f none
  lines : ∀ c ∈ f.classes, ∀ l ∈ c.lines, ∀ n ∈ l.typeNames, n.Sourced g f l.own

namespace Sheet.Sourced

variable {g : GrammarModel} {f : Sheet}

theorem knows {own : Option String} {n : TypeName} (hn : n ∈ f.typeNames) (h : n.Sourced g f own) :
    f.Knows own n.text := by
  cases n with
  | word w => exact .inl h
  | parameter n => exact .inr (.inl h)
  | declared n => exact .inr (.inr (.inl h))
  | context n => exact .inr (.inr (.inr (.inr (mem_contextImports.2 hn))))
  | runtime n => exact .inr (.inr (.inr (.inl (mem_runtimeImports.2 hn))))

theorem exists_sourced (h : f.Sourced g) {n : TypeName} (hn : n ∈ f.typeNames) :
    ∃ own, n.Sourced g f own := by
  obtain ⟨c, hc, hn⟩ := List.mem_flatMap.1 hn
  rcases List.mem_append.1 hn with hn | hn
  · exact ⟨none, h.bases c hc n hn⟩
  · obtain ⟨l, hl, hn⟩ := List.mem_flatMap.1 hn
    exact ⟨l.own, h.lines c hc l hl n hn⟩

theorem closed (h : f.Sourced g) : f.Closed where
  bases c hc n hn :=
    knows (List.mem_flatMap.2 ⟨c, hc, List.mem_append_left _ hn⟩) (h.bases c hc n hn)
  lines c hc l hl n hn :=
    knows (List.mem_flatMap.2 ⟨c, hc, List.mem_append_right _ (List.mem_flatMap.2 ⟨l, hl, hn⟩)⟩)
      (h.lines c hc l hl n hn)
  runtimeUsed _ := mem_runtimeImports.1
  contextsUsed _ := mem_contextImports.1

theorem runtime (h : f.Sourced g) {n : String} (hn : n ∈ f.runtimeImports) : n ∈ runtimeTypes := by
  obtain ⟨_, hn⟩ := h.exists_sourced (Sheet.mem_runtimeImports.1 hn)
  exact hn

theorem context (h : f.Sourced g) {n : String} (hn : n ∈ f.contextImports) :
    ∃ p, g.parser = some p ∧ f.parserModule = p.parser.name ∧ n ∈ p.contextNames := by
  obtain ⟨_, hn⟩ := h.exists_sourced (Sheet.mem_contextImports.1 hn)
  exact hn

end Sheet.Sourced

/-- The context classes that a file may name come from where they are said to. -/
def ContextNames.Sourced (g : GrammarModel) (f : Sheet) (known : ContextNames) : Prop :=
  ∀ n ∈ known.names, ∀ own,
    (if known.declaredHere then TypeName.declared n else .context n).Sourced g f own

section

variable {g : GrammarModel} {f : Sheet} {known : ContextNames} (hknown : known.Sourced g f)
include hknown

theorem TypeName.sourced_ofClass (name : String) (own : Option String) :
    (ofClass known name).Sourced g f own := by
  unfold ofClass
  split
  · exact hknown name ‹_› own
  · split
    · assumption
    · show "unknown" ∈ builtinTypes
      decide

theorem TypeName.sourced_ofSuperclass (superclass : Option String) {fallback : String}
    (hfallback : fallback ∈ runtimeTypes) (own : Option String) :
    (ofSuperclass known superclass fallback).Sourced g f own := by
  unfold ofSuperclass
  split
  · split
    · exact sourced_ofClass hknown _ own
    · exact hfallback
  · exact hfallback

theorem WrittenType.sourced_ofType {own : Option String} (t : TypeRef)
    (ht : ∀ n ∈ t.parameter?, own = some n) : (ofType known t).typeName.Sourced g f own := by
  induction t with
  | context name => exact TypeName.sourced_ofClass hknown name own
  | named name => exact TypeName.sourced_ofClass hknown name own
  | parameter name => exact ht name rfl
  | terminalNode =>
    show "TerminalNode" ∈ runtimeTypes
    decide
  | list element ih => exact ih ht
  | _ =>
    simp only [ofType, typeName, TypeName.Sourced]
    decide

theorem Line.sourced_ofMember {m : Member} (hm : m.BindsParameters) :
    ∀ n ∈ (Line.ofMember known m).typeNames, n.Sourced g f (Line.ofMember known m).own := by
  have hty := WrittenType.sourced_ofType hknown m.ty (hm _ List.mem_cons_self)
  intro n hn
  unfold Line.ofMember at hn ⊢
  cases hkind : m.kind with
  | field =>
    rw [hkind] at hn
    rw [List.mem_singleton.1 hn]
    exact hty
  | method =>
    rw [hkind] at hn
    have hown : (m.typeParam.map (WrittenGeneric.ofTypeParam known)).map (·.name) =
        m.typeParam.map (·.name) := by
      rw [Option.map_map]
      rfl
    simp only [Line.typeNames, Line.own, List.mem_append, List.mem_singleton, List.map_map,
      List.mem_map, Option.mem_toList, Option.map_map, Option.map_eq_some_iff] at hn ⊢
    rcases hn with (⟨p, -, rfl⟩ | ⟨p, hp, rfl⟩) | rfl
    · exact TypeName.sourced_ofClass hknown p.bound _
    · rw [← Option.map_map, hown]
      exact WrittenType.sourced_ofType hknown p.ty
        (hm _ (List.mem_cons_of_mem _ (List.mem_map_of_mem hp)))
    · rw [← Option.map_map, hown]
      exact hty

end

variable {g : GrammarModel}

theorem ParserModel.names_sheet_contexts (p : ParserModel) :
    p.sheet.contexts.map (·.name) = p.contextNames := by
  rw [ParserModel.sheet, List.map_map]
  rfl

/-- A class in a file is that of a declaration, and the classes that it may name are there. -/
def ClassSheet.IsOf (g : GrammarModel) (f : Sheet) (c : ClassSheet) : Prop :=
  ∃ d ∈ g.declarations, ∃ known : ContextNames, known.Sourced g f ∧ c.name = d.name ∧
    (∃ fallback ∈ runtimeTypes, c.base = .ofSuperclass known d.superclass fallback) ∧
    ∀ l ∈ c.lines, (∃ m ∈ d.members, l = .ofMember known m) ∨
      (∃ n ∈ f.contexts.map (·.name), l = .classValue n) ∨
      ∃ input ∈ runtimeTypes, l = .constructor (.runtime input)

theorem ParserModel.sheet_isOf {p : ParserModel} (hp : g.parser = some p) :
    ∀ c ∈ p.sheet.classes, c.IsOf g p.sheet := by
  have hmem {d : Declaration} (hd : d ∈ p.parser :: p.contexts) : d ∈ g.declarations := by
    simp only [GrammarModel.declarations, hp, List.mem_append, List.mem_flatMap]
    exact .inl (.inl (.inr ⟨p, by simp, hd⟩))
  have hknown : ContextNames.Sourced g p.sheet ⟨p.contextNames, true⟩ := by
    intro n hn own
    show n ∈ p.sheet.contexts.map (·.name)
    rwa [p.names_sheet_contexts]
  have hmember {q : Member → Bool} {l : Line}
      (hl : l ∈ (p.parser.members.filter q).map (.ofMember ⟨p.contextNames, true⟩)) :
      ∃ m ∈ p.parser.members, l = .ofMember ⟨p.contextNames, true⟩ m := by
    obtain ⟨m, hm, rfl⟩ := List.mem_map.1 hl
    exact ⟨m, (List.mem_filter.1 hm).1, rfl⟩
  intro c hc
  rcases List.mem_cons.1 hc with rfl | hc
  · refine ⟨p.parser, hmem List.mem_cons_self, _, hknown, rfl, ⟨"Parser", by decide, rfl⟩, ?_⟩
    intro l hl
    simp only [ParserModel.sheet, List.mem_append, List.mem_singleton, or_assoc] at hl
    rcases hl with hl | hl | hl | hl
    · exact .inl (hmember hl)
    · obtain ⟨n, hn, rfl⟩ := List.mem_map.1 hl
      exact .inr (.inl ⟨n, p.names_sheet_contexts ▸ hn, rfl⟩)
    · exact .inr (.inr ⟨"TokenStream", by decide, hl⟩)
    · exact .inl (hmember hl)
  · obtain ⟨d, hd, rfl⟩ := List.mem_map.1 hc
    refine ⟨d, hmem (List.mem_cons_of_mem _ hd), _, hknown, rfl,
      ⟨"ParserRuleContext", by decide, rfl⟩, fun l hl => .inl ?_⟩
    obtain ⟨m, hm, rfl⟩ := List.mem_map.1 hl
    exact ⟨m, hm, rfl⟩

theorem Declaration.callbacksSheet_isOf {d : Declaration} (hd : d ∈ g.declarations) :
    (d.callbacksSheet g.parserModule g.contextNames).main.IsOf g
      (d.callbacksSheet g.parserModule g.contextNames) := by
  refine ⟨d, hd, ⟨g.contextNames, false⟩, ?_, rfl, ⟨d.callbacksBase, ?_, rfl⟩, fun l hl => .inl ?_⟩
  · intro n hn own
    cases hp : g.parser with
    | none =>
      rw [GrammarModel.contextNames, hp] at hn
      cases hn
    | some p =>
      rw [GrammarModel.contextNames, hp] at hn
      refine ⟨p, hp, ?_, hn⟩
      show g.parserModule = _
      rw [GrammarModel.parserModule, hp]
      rfl
  · unfold Declaration.callbacksBase
    split <;> decide
  · obtain ⟨m, hm, rfl⟩ := List.mem_map.1 hl
    exact ⟨m, hm, rfl⟩

namespace GrammarModel

theorem sheets_isOf : ∀ f ∈ g.sheets, ∀ c ∈ f.classes, c.IsOf g f := by
  intro f hf c hc
  simp only [sheets, List.mem_append, List.mem_map, Option.mem_toList] at hf
  rcases hf with (⟨d, hd, rfl⟩ | ⟨p, hp, rfl⟩) | ⟨d, hd, rfl⟩
  · rw [List.mem_singleton.1 hc]
    refine ⟨d, by simp [declarations, hd], {}, by simp [ContextNames.Sourced], rfl,
      ⟨"Lexer", by decide, rfl⟩, fun l hl => ?_⟩
    rcases List.mem_append.1 hl with hl | hl
    · obtain ⟨m, hm, rfl⟩ := List.mem_map.1 hl
      exact .inl ⟨m, hm, rfl⟩
    · exact .inr (.inr ⟨"CharStream", by decide, List.mem_singleton.1 hl⟩)
  · exact ParserModel.sheet_isOf hp c hc
  · rw [List.mem_singleton.1 hc]
    refine Declaration.callbacksSheet_isOf ?_
    rcases hd with hd | hd <;> simp [declarations, hd]

theorem sheets_sourced (h : g.BindsParameters) : ∀ f ∈ g.sheets, f.Sourced g := by
  intro f hf
  constructor
  · intro c hc n hn
    obtain ⟨d, -, known, hknown, -, ⟨fallback, hfallback, hbase⟩, -⟩ := sheets_isOf f hf c hc
    unfold ClassSheet.baseNames at hn
    rcases List.mem_cons.1 hn with rfl | hn
    · rw [hbase]
      exact TypeName.sourced_ofSuperclass hknown _ hfallback _
    · split at hn
      · rw [List.mem_singleton.1 hn]
        show "any" ∈ builtinTypes
        decide
      · cases hn
  · intro c hc l hl n hn
    obtain ⟨d, hd, known, hknown, -, -, hlines⟩ := sheets_isOf f hf c hc
    rcases hlines l hl with ⟨m, hm, rfl⟩ | ⟨n', hn', rfl⟩ | ⟨input, hinput, rfl⟩
    · exact Line.sourced_ofMember hknown (h d hd m hm) n hn
    · rw [List.mem_singleton.1 hn]
      exact hn'
    · rw [List.mem_singleton.1 hn]
      exact hinput

end GrammarModel

section

open Printed

/-- The names of a member can be told from the text around them. A field does not show a type
parameter. -/
def Member.Legible (m : Member) : Prop :=
  wordLike m.name = true ∧ (∀ p ∈ m.params, wordLike p.name = true) ∧
    (∀ p ∈ m.typeParam, nameLike p.name = true) ∧ (m.kind = .field → m.typeParam = none)

instance (m : Member) : Decidable m.Legible := inferInstanceAs (Decidable (_ ∧ _))

def Declaration.Legible (d : Declaration) : Prop :=
  nameLike d.name = true ∧ ∀ m ∈ d.members, m.Legible

instance (d : Declaration) : Decidable d.Legible := inferInstanceAs (Decidable (_ ∧ _))

def GrammarModel.Legible (g : GrammarModel) : Prop := ∀ d ∈ g.declarations, d.Legible

instance (g : GrammarModel) : Decidable g.Legible :=
  inferInstanceAs (Decidable (∀ d ∈ g.declarations, d.Legible))

theorem Member.Legible.own {m : Member} (hm : m.Legible) {known : ContextNames} :
    ∀ n ∈ (Line.ofMember known m).own, nameLike n = true := by
  intro n hn
  have hown : (Line.ofMember known m).own = m.typeParam.map (·.name) := by
    unfold Line.ofMember
    cases m.kind with
    | field => rfl
    | method => exact Option.map_map ..
  rw [hown] at hn
  obtain ⟨p, hp, rfl⟩ := Option.map_eq_some_iff.1 hn
  exact hm.2.2.1 p hp

theorem Member.Legible.line {m : Member} (hm : m.Legible) {known : ContextNames}
    (h : ∀ n ∈ (Line.ofMember known m).typeNames, nameLike n.text = true) :
    (Line.ofMember known m).Legible := by
  obtain ⟨hname, hparams, hgeneric, hfield⟩ := hm
  unfold Line.ofMember at h ⊢
  cases hkind : m.kind with
  | field =>
    rw [hkind] at h
    simp only [hfield hkind, Option.map_none]
    exact .field hname (h _ (List.mem_singleton_self _))
  | method =>
    simp only [hkind, Line.typeNames, List.mem_append, List.mem_map, Option.mem_toList,
      List.mem_singleton] at h
    refine .method hname ?_ ?_ (h _ (.inr rfl))
    · intro p hp
      refine ⟨?_, h _ (.inl (.inl (Option.map_eq_some_iff.2 ⟨p, hp, rfl⟩)))⟩
      obtain ⟨p', hp', rfl⟩ := Option.map_eq_some_iff.1 hp
      exact hgeneric p' hp'
    · intro p hp
      obtain ⟨p', hp', rfl⟩ := List.mem_map.1 hp
      exact ⟨hparams p' hp', h _ (.inl (.inr ⟨_, ⟨p', hp', rfl⟩, rfl⟩))⟩

namespace GrammarModel

namespace Legible

variable (h : g.Legible)
include h

theorem declared_nameLike {p : ParserModel} (hp : g.parser = some p) :
    nameLike p.parser.name = true ∧ ∀ n ∈ p.contextNames, nameLike n = true := by
  have hmem {d : Declaration} (hd : d ∈ p.parser :: p.contexts) : d ∈ g.declarations := by
    simp only [declarations, hp, List.mem_append, List.mem_flatMap, Option.mem_toList]
    exact .inl (.inl (.inr ⟨p, rfl, hd⟩))
  refine ⟨(h _ (hmem (List.mem_cons_self ..))).1, fun n hn => ?_⟩
  obtain ⟨d, hd, rfl⟩ := List.mem_map.1 hn
  exact (h d (hmem (List.mem_cons_of_mem _ hd))).1

theorem typeName_nameLike {f : Sheet} (hf : f ∈ g.sheets) {own : Option String}
    (hown : ∀ n ∈ own, nameLike n = true) {n : TypeName} (hn : n.Sourced g f own) :
    nameLike n.text = true := by
  have hwords : ∀ w ∈ builtinTypes ++ runtimeTypes, nameLike w = true := by decide +kernel
  cases n with
  | word w => exact hwords w (List.mem_append_left _ hn)
  | parameter n => exact hown n hn
  | declared n =>
    obtain ⟨c, hc, rfl⟩ := List.mem_map.1 hn
    obtain ⟨d, hd, _, -, hname, -⟩ := sheets_isOf f hf c (List.mem_cons_of_mem _ hc)
    simp only [TypeName.text, hname]
    exact (h d hd).1
  | context n =>
    obtain ⟨p, hp, -, hn⟩ := hn
    exact (h.declared_nameLike hp).2 n hn
  | runtime n => exact hwords n (List.mem_append_right _ hn)

theorem sheet_legible {f : Sheet} (hf : f ∈ g.sheets) (hsourced : f.Sourced g) : f.Legible := by
  constructor
  · intro c hc
    obtain ⟨d, hd, known, -, hname, -, hlines⟩ := sheets_isOf f hf c hc
    refine ⟨hname ▸ (h d hd).1, ?_, fun l hl => ?_⟩
    · exact h.typeName_nameLike hf (by simp) (hsourced.bases c hc _ (List.mem_cons_self ..))
    · have hnames := hsourced.lines c hc l hl
      rcases hlines l hl with ⟨m, hm, rfl⟩ | ⟨n, -, rfl⟩ | ⟨input, -, rfl⟩
      · refine ((h d hd).2 m hm).line fun n hn => h.typeName_nameLike hf ?_ (hnames n hn)
        exact ((h d hd).2 m hm).own
      · exact .classValue (h.typeName_nameLike hf (by simp [Line.own]) (hnames _ (.head _)))
      · exact .constructor (h.typeName_nameLike hf (by simp [Line.own]) (hnames _ (.head _)))
  · intro hne
    obtain ⟨n, hn⟩ := List.exists_mem_of_ne_nil _ hne
    obtain ⟨p, hp, hmodule, -⟩ := hsourced.context hn
    rw [hmodule]
    exact nameLike_path (wordLike_of_nameLike (h.declared_nameLike hp).1)

end Legible

end GrammarModel

end

theorem ParserModel.sheet_mem {p : ParserModel} (hp : g.parser = some p) : p.sheet ∈ g.sheets := by
  simp [GrammarModel.sheets, hp]

/-- What is rendered for a grammar are closed files. Runtime types are imported from the runtime and
context classes from the file that declares them. Where the names of the grammar can be told from the
text around them, the same is read off the text of each file. -/
theorem rendered_files_closed (g : GrammarModel) (h : g.BindsParameters) :
    renderGrammar g = g.sheets.map (·.file) ∧
      (∀ f ∈ g.sheets, f.Closed ∧ (∀ n ∈ f.runtimeImports, n ∈ runtimeTypes) ∧
        ∀ n ∈ f.contextImports, ∃ p, g.parser = some p ∧ f.parserModule = p.parser.name ∧
          p.sheet ∈ g.sheets ∧ n ∈ p.sheet.contexts.map (·.name)) ∧
      (g.Legible → ∀ file ∈ renderGrammar g, file.Closed ∧ ∀ source, ∀ n ∈ file.imports source,
        source = runtimeModule ∧ n ∈ runtimeTypes ∨
          ∃ p, g.parser = some p ∧ source = "./" ++ p.parser.name ∧
            ∃ file' ∈ renderGrammar g, file'.fileName = p.parser.name ++ ".d.ts" ∧
              n ∈ file'.declared) := by
  have hsourced := GrammarModel.sheets_sourced h
  refine ⟨renderGrammar_eq g, fun f hf => ?_, fun hlegible file hfile => ?_⟩
  · refine ⟨(hsourced f hf).closed, fun n hn => (hsourced f hf).runtime hn, fun n hn => ?_⟩
    obtain ⟨p, hp, hmodule, hn⟩ := (hsourced f hf).context hn
    refine ⟨p, hp, hmodule, ParserModel.sheet_mem hp, ?_⟩
    rwa [p.names_sheet_contexts]
  · rw [renderGrammar_eq] at hfile ⊢
    obtain ⟨f, hf, rfl⟩ := List.mem_map.1 hfile
    have hread := hlegible.sheet_legible hf (hsourced f hf)
    refine ⟨(hsourced f hf).closed.file_closed hread, fun source n hn => ?_⟩
    rcases hread.mem_imports.1 hn with ⟨hsource, hn⟩ | ⟨hsource, hn⟩
    · exact .inl ⟨hsource, (hsourced f hf).runtime hn⟩
    · obtain ⟨p, hp, hmodule, hn⟩ := (hsourced f hf).context hn
      have hmem := ParserModel.sheet_mem hp
      refine .inr ⟨p, hp, hmodule ▸ hsource, p.sheet.file, List.mem_map_of_mem hmem, rfl, ?_⟩
      apply (hlegible.sheet_legible hmem (hsourced _ hmem)).mem_declared
      rwa [p.names_sheet_contexts]

/-- A context class with a generic method, and a listener that names it. -/
def GrammarModel.withListener : GrammarModel where
  grammar := "P"
  parser := some {
    parser := { name := "PParser", superclass := some "Parser", kind := .parser, members := [] }
    contexts := [{
      name := "AContext"
      superclass := some "ParserRuleContext"
      members := [{
        name := "children", kind := .method, arity := .list, isStatic := false
        params := [⟨"type", .any, false⟩]
        ty := .list (.parameter "T")
        typeParam := some ⟨"T", "ParserRuleContext"⟩ }] }] }
  listener := some {
    name := "PListener"
    superclass := some "ParseTreeListener"
    kind := .listener
    members := [{
      name := "enterA", kind := .method, arity := .single, isStatic := false
      params := [⟨"ctx", .context "AContext", false⟩]
      ty := .void
      typeParam := none }] }

theorem rendered_files_closed_withListener :
    GrammarModel.withListener.BindsParameters ∧ GrammarModel.withListener.Legible ∧
      renderGrammar .withListener = [
        ⟨"PParser.d.ts", textOfRows [
          "import \x7b Parser, ParserRuleContext, TokenStream \x7d from 'antlr4';", "",
          "export default class PParser extends Parser \x7b",
          "    static readonly AContext: typeof AContext;",
          "    constructor(input: TokenStream);", "\x7d", "",
          "export declare class AContext extends ParserRuleContext \x7b",
          "    children<T extends ParserRuleContext>(type: any): T[];", "\x7d"]⟩,
        ⟨"PListener.d.ts", textOfRows [
          "import \x7b ParseTreeListener \x7d from 'antlr4';",
          "import type \x7b AContext \x7d from './PParser';", "",
          "export default class PListener extends ParseTreeListener \x7b",
          "    enterA(ctx: AContext): void;", "\x7d"]⟩] ∧
      (∃ file ∈ renderGrammar .withListener, "AContext" ∈ file.imports "./PParser") ∧
      ∀ file ∈ renderGrammar .withListener, file.Closed := by
  have hbinds : GrammarModel.withListener.BindsParameters := by decide
  have hlegible : GrammarModel.withListener.Legible := by decide +kernel
  have hclosed := (rendered_files_closed _ hbinds).2.2 hlegible
  have hsorted (n : String) : sortedNames [n] = [n] := by
    simp [sortedNames, List.eraseDups_cons]
  have hsorted' : sortedNames ["Parser", "TokenStream", "ParserRuleContext", "ParserRuleContext"] =
      ["Parser", "ParserRuleContext", "TokenStream"] := by
    simp [sortedNames, List.mergeSort, List.MergeSort.Internal.splitInTwo]
    decide +kernel
  have hcontexts : GrammarModel.withListener.sheets[1].contextImports = _ := hsorted "AContext"
  have hparser : GrammarModel.withListener.sheets[0].importLines =
      ["import \x7b Parser, ParserRuleContext, TokenStream \x7d from 'antlr4';"] := by
    have hruntime : GrammarModel.withListener.sheets[0].runtimeImports = _ := hsorted'
    have hnone : GrammarModel.withListener.sheets[0].contextImports = [] :=
      sortedNames_eq_nil_iff.2 rfl
    rw [Sheet.importLines, hruntime, hnone]
    decide +kernel
  have hlistener : GrammarModel.withListener.sheets[1].importLines =
      ["import \x7b ParseTreeListener \x7d from 'antlr4';",
        "import type \x7b AContext \x7d from './PParser';"] := by
    have hruntime : GrammarModel.withListener.sheets[1].runtimeImports = _ :=
      hsorted "ParseTreeListener"
    rw [Sheet.importLines, hruntime, hcontexts]
    decide +kernel
  refine ⟨hbinds, hlegible, ?_, ?_, fun file hfile => (hclosed file hfile).1⟩
  · rw [renderGrammar_eq]
    refine (congrArg₂ (fun a b => [a, b]) (Sheet.file_eq hparser) (Sheet.file_eq hlistener)).trans ?_
    decide +kernel
  · have hmem : GrammarModel.withListener.sheets[1] ∈ GrammarModel.withListener.sheets :=
      List.getElem_mem _
    have hread := hlegible.sheet_legible hmem (GrammarModel.sheets_sourced hbinds _ hmem)
    rw [renderGrammar_eq]
    refine ⟨_, List.mem_map_of_mem hmem, hread.mem_imports.2 (.inr ⟨rfl, ?_⟩)⟩
    rw [hcontexts]
    exact List.mem_singleton_self _

end Typings
