import Typings.Proofs.Outcome
import Typings.Render.Declarations

namespace Typings

/-- A type name in a file, with the place that declares it. -/
inductive TypeName
  /-- Every file knows it. -/
  | word (w : String)
  /-- The member that it stands in. -/
  | parameter (name : String)
  /-- The file itself. -/
  | declared (name : String)
  /-- The file of the parser. -/
  | context (name : String)
  /-- The runtime. -/
  | runtime (name : String)
deriving DecidableEq, Repr, Inhabited

namespace TypeName

def text : TypeName → String
  | word n | parameter n | declared n | context n | runtime n => n

def runtime? : TypeName → Option String
  | runtime n => some n
  | _ => none

def context? : TypeName → Option String
  | context n => some n
  | _ => none

end TypeName

inductive WrittenType
  | name (n : TypeName)
  | list (element : WrittenType)
deriving DecidableEq, Repr, Inhabited

namespace WrittenType

def text : WrittenType → String
  | name n => n.text
  | list t => t.text ++ "[]"

def typeName : WrittenType → TypeName
  | name n => n
  | list t => t.typeName

end WrittenType

structure WrittenParameter where
  name : String
  optional : Bool
  ty : WrittenType
deriving DecidableEq, Repr, Inhabited

def WrittenParameter.text (p : WrittenParameter) : String :=
  p.name ++ (if p.optional then "?" else "") ++ ": " ++ p.ty.text

/-- A type parameter with its bound. -/
structure WrittenGeneric where
  name : String
  bound : TypeName
deriving DecidableEq, Repr, Inhabited

def WrittenGeneric.text (p : WrittenGeneric) : String :=
  "<" ++ p.name ++ " extends " ++ p.bound.text ++ ">"

/-- A line in the body of a class. -/
inductive Line
  /-- `own` is the type parameter of the member, which a field does not show. -/
  | field (own : Option String) (isStatic : Bool) (name : String) (ty : WrittenType)
  | method (isStatic : Bool) (name : String) (generic : Option WrittenGeneric)
    (params : List WrittenParameter) (ty : WrittenType)
  /-- A static that holds a class of the file. -/
  | classValue (name : String)
  | constructor (input : TypeName)
deriving DecidableEq, Repr, Inhabited

namespace Line

/-- How the line of a member starts. -/
def start (isStatic : Bool) (name : String) : String := (if isStatic then "static " else "") ++ name

def text : Line → String
  | field _ isStatic name ty => start isStatic name ++ ": " ++ ty.text ++ ";"
  | method isStatic name generic params ty =>
    start isStatic name ++ ((generic.map (·.text)).getD "") ++ "(" ++
      ", ".intercalate (params.map (·.text)) ++ "): " ++ ty.text ++ ";"
  | classValue name => "static readonly " ++ name ++ ": typeof " ++ name ++ ";"
  | constructor input => "constructor(input: " ++ input.text ++ ");"

theorem text_field (own : Option String) (isStatic : Bool) (name : String) (ty : WrittenType) :
    (field own isStatic name ty).text = start isStatic name ++ ": " ++ ty.text ++ ";" :=
  rfl

theorem text_method (isStatic : Bool) (name : String) (generic : Option WrittenGeneric)
    (params : List WrittenParameter) (ty : WrittenType) :
    (method isStatic name generic params ty).text =
      start isStatic name ++ ((generic.map (·.text)).getD "") ++ "(" ++
        ", ".intercalate (params.map (·.text)) ++ "): " ++ ty.text ++ ";" :=
  rfl

def typeNames : Line → List TypeName
  | field _ _ _ ty => [ty.typeName]
  | method _ _ generic params ty =>
    (generic.map (·.bound)).toList ++ params.map (·.ty.typeName) ++ [ty.typeName]
  | classValue name => [.declared name]
  | constructor input => [input]

/-- The type parameter of the member that a line is of. -/
def own : Line → Option String
  | field own .. => own
  | method _ _ generic .. => generic.map (·.name)
  | classValue _ | constructor _ => none

end Line

structure ClassSheet where
  name : String
  base : TypeName
  /-- Whether the base takes a type, which then is `any`. -/
  overAny : Bool := false
  lines : List Line
deriving DecidableEq, Repr, Inhabited

/-- The text of lines: each ends with a line feed. -/
def textOfRows (rows : List String) : String := String.join (rows.map (· ++ "\n"))

namespace ClassSheet

/-- What follows the word `extends`. -/
def baseText (c : ClassSheet) : String :=
  if c.overAny then c.base.text ++ "<any>" else c.base.text

def head (c : ClassSheet) (start : String) : String :=
  start ++ c.name ++ " extends " ++ c.baseText ++ " \x7b"

/-- The lines of the text of a class: its head, its members, and the brace that closes it. -/
def rows (c : ClassSheet) (start : String) : List String :=
  c.head start :: (c.lines.map ("    " ++ ·.text) ++ ["\x7d"])

def text (c : ClassSheet) (start : String) : String := textOfRows (c.rows start)

def baseNames (c : ClassSheet) : List TypeName :=
  c.base :: (if c.overAny then [.word "any"] else [])

def typeNames (c : ClassSheet) : List TypeName := c.baseNames ++ c.lines.flatMap (·.typeNames)

end ClassSheet

/-- A declaration file: the class that it is named after, and context classes beside it. -/
structure Sheet where
  /-- The module that context classes are imported from. -/
  parserModule : String := ""
  main : ClassSheet
  contexts : List ClassSheet := []
deriving DecidableEq, Repr, Inhabited

namespace Sheet

def classes (f : Sheet) : List ClassSheet := f.main :: f.contexts

def typeNames (f : Sheet) : List TypeName := f.classes.flatMap (·.typeNames)

def runtimeImports (f : Sheet) : List String := sortedNames (f.typeNames.filterMap (·.runtime?))

/-- The names that the file imports from the file of the parser. -/
def contextImports (f : Sheet) : List String := sortedNames (f.typeNames.filterMap (·.context?))

def importText (start : String) (names : List String) (source : String) : String :=
  start ++ " \x7b " ++ ", ".intercalate names ++ " \x7d from '" ++ source ++ "';"

def importLine (start : String) (names : List String) (source : String) : List String :=
  if names = [] then [] else [importText start names source]

def importLines (f : Sheet) : List String :=
  importLine "import" f.runtimeImports runtimeModule ++
    importLine "import type" f.contextImports ("./" ++ f.parserModule)

/-- The lines of the text of a file. An empty one is between import lines and classes. -/
def rows (f : Sheet) : List String :=
  f.importLines ++ (if f.importLines = [] then [] else [""]) ++ f.main.rows "export default class " ++
    f.contexts.flatMap ("" :: ·.rows "export declare class ")

def text (f : Sheet) : String := textOfRows f.rows

def file (f : Sheet) : DeclarationFile := ⟨f.main.name ++ ".d.ts", f.text⟩

end Sheet

def TypeName.ofClass (known : ContextNames) (name : String) : TypeName :=
  if name ∈ known.names then if known.declaredHere then .declared name else .context name
  else if name ∈ runtimeTypes then .runtime name
  else .word "unknown"

def TypeName.ofSuperclass (known : ContextNames) (superclass : Option String) (fallback : String) :
    TypeName :=
  match superclass with
  | some n => if n ∈ known.names ∨ n ∈ runtimeTypes then .ofClass known n else .runtime fallback
  | none => .runtime fallback

def WrittenType.ofType (known : ContextNames) : TypeRef → WrittenType
  | .context n | .named n => .name (.ofClass known n)
  | .parameter n => .name (.parameter n)
  | .terminalNode => .name (.runtime "TerminalNode")
  | .list t => .list (ofType known t)
  | .string => .name (.word "string")
  | .boolean => .name (.word "boolean")
  | .number => .name (.word "number")
  | .void => .name (.word "void")
  | .any => .name (.word "any")
  | .unknown => .name (.word "unknown")

def WrittenParameter.ofParameter (known : ContextNames) (p : Parameter) : WrittenParameter :=
  ⟨p.name, p.optional, .ofType known p.ty⟩

def WrittenGeneric.ofTypeParam (known : ContextNames) (p : TypeParam) : WrittenGeneric :=
  ⟨p.name, .ofClass known p.bound⟩

def Line.ofMember (known : ContextNames) (m : Member) : Line :=
  match m.kind with
  | .field => .field (m.typeParam.map (·.name)) m.isStatic m.name (.ofType known m.ty)
  | .method =>
    .method m.isStatic m.name (m.typeParam.map (.ofTypeParam known))
      (m.params.map (.ofParameter known)) (.ofType known m.ty)

def Declaration.lexerSheet (d : Declaration) : Sheet where
  main :=
    { name := d.name
      base := .ofSuperclass {} d.superclass "Lexer"
      lines := d.members.map (.ofMember {}) ++ [.constructor (.runtime "CharStream")] }

def Declaration.contextSheet (known : ContextNames) (d : Declaration) : ClassSheet where
  name := d.name
  base := .ofSuperclass known d.superclass "ParserRuleContext"
  lines := d.members.map (.ofMember known)

def ParserModel.sheet (p : ParserModel) : Sheet where
  main :=
    let known : ContextNames := ⟨p.contextNames, true⟩
    { name := p.parser.name
      base := .ofSuperclass known p.parser.superclass "Parser"
      lines := p.parser.fields.map (.ofMember known) ++ p.contextNames.map .classValue ++
        [.constructor (.runtime "TokenStream")] ++ p.parser.methods.map (.ofMember known) }
  contexts := p.contexts.map (·.contextSheet ⟨p.contextNames, true⟩)

/-- The type of the runtime that a listener or visitor extends when nothing else is known. -/
def Declaration.callbacksBase (d : Declaration) : String :=
  match d.kind with
  | .visitor => "ParseTreeVisitor"
  | _ => "ParseTreeListener"

/-- The file of a listener or visitor. -/
def Declaration.callbacksSheet (d : Declaration) (parserModule : String) (contexts : List String) :
    Sheet where
  parserModule
  main :=
    let known : ContextNames := ⟨contexts, false⟩
    let base := TypeName.ofSuperclass known d.superclass d.callbacksBase
    { name := d.name
      base
      overAny := base.text == "ParseTreeVisitor"
      lines := d.members.map (.ofMember known) }

namespace GrammarModel

def parserModule (g : GrammarModel) : String :=
  (g.parser.map (·.parser.name)).getD (g.grammar ++ "Parser")

def contextNames (g : GrammarModel) : List String := (g.parser.map (·.contextNames)).getD []

def sheets (g : GrammarModel) : List Sheet :=
  g.lexer.toList.map (·.lexerSheet) ++ g.parser.toList.map (·.sheet) ++
    (g.listener.toList ++ g.visitor.toList).map (·.callbacksSheet g.parserModule g.contextNames)

end GrammarModel

theorem textOfRows_append (rows rows' : List String) :
    textOfRows (rows ++ rows') = textOfRows rows ++ textOfRows rows' := by
  simp [textOfRows, String.join_append]

theorem textOfRows_blocks {α : Type} (rows : List String) (f : α → List String) (l : List α) :
    textOfRows (rows ++ l.flatMap ("" :: f ·)) =
      "\n".intercalate (textOfRows rows :: l.map fun a => textOfRows (f a)) := by
  induction l generalizing rows with
  | nil => simp
  | cons a l ih =>
    rw [List.flatMap_cons, List.cons_append, ← List.singleton_append, textOfRows_append,
      textOfRows_append, ih, List.map_cons, String.intercalate_cons_cons, String.append_assoc]
    rfl

theorem ClassSheet.text_eq (c : ClassSheet) (start : String) : c.text start =
    classBlock (start ++ c.name ++ " extends " ++ c.baseText) (c.lines.map (·.text)) := by
  have hmembers : String.join ((c.lines.map ("    " ++ ·.text)).map (· ++ "\n")) =
      String.join ((c.lines.map (·.text)).map fun line => "    " ++ line ++ "\n") := by
    rw [List.map_map, List.map_map]
    rfl
  have hopen (header : String) : header ++ " \x7b" ++ "\n" = header ++ " \x7b\n" := by
    rw [String.append_assoc]
    rfl
  rw [text, rows, textOfRows, List.map_cons, List.map_append, String.join_cons, String.join_append,
    hmembers, head, hopen, classBlock, ← String.append_assoc]
  rfl

theorem Sheet.file_eq {f : Sheet} {imports : List String} (h : f.importLines = imports) :
    f.file = ⟨f.main.name ++ ".d.ts", textOfRows (imports ++ (if imports = [] then [] else [""]) ++
      f.main.rows "export default class " ++
        f.contexts.flatMap ("" :: ·.rows "export declare class "))⟩ := by
  subst h
  rfl

/-- The names that have to be imported for type names, added to those that are known. -/
def References.add (r : References) (ns : List TypeName) : References :=
  ⟨r.runtime ++ ns.filterMap (·.runtime?), r.contexts ++ ns.filterMap (·.context?)⟩

theorem References.add_nil (r : References) : r.add [] = r := by
  simp [References.add]

theorem References.add_append (r : References) (ns ns' : List TypeName) :
    r.add (ns ++ ns') = (r.add ns).add ns' := by
  simp [References.add]

/-- Writing gives a text and notes the type names in it. -/
def Writes {α : Type} (x : Render α) (a : α) (ns : List TypeName) : Prop :=
  ∀ r : References, x r = (a, r.add ns)

namespace Writes

variable {α β : Type} {x : Render α} {a : α} {ns ns' : List TypeName}

theorem pure (a : α) : Writes (Pure.pure a : Render α) a [] := by
  intro r
  rw [r.add_nil]
  rfl

theorem bind {f : α → Render β} {b : β} (hx : Writes x a ns) (hf : Writes (f a) b ns') :
    Writes (x >>= f) b (ns ++ ns') := by
  intro r
  rw [stateM_bind, hx r, hf, r.add_append]

theorem map (hx : Writes x a ns) (f : α → β) :
    Writes (x >>= fun a => Pure.pure (f a)) (f a) ns := by
  intro r
  rw [stateM_bind, hx r]
  rfl

theorem atHome {home : List TypeName} (hhome : ∀ n ∈ home, n.runtime? = none ∧ n.context? = none)
    (hx : Writes x a (ns ++ ns')) : Writes x a (ns ++ (home ++ ns')) := by
  have hruntime : home.filterMap (·.runtime?) = [] :=
    List.filterMap_eq_nil_iff.2 fun n hn => (hhome n hn).1
  have hcontext : home.filterMap (·.context?) = [] :=
    List.filterMap_eq_nil_iff.2 fun n hn => (hhome n hn).2
  intro r
  rw [hx r]
  simp only [References.add, List.filterMap_append, hruntime, hcontext, List.nil_append]

theorem mapM {f : α → Render β} {g : α → β} {names : α → List TypeName} {l : List α}
    (h : ∀ a ∈ l, Writes (f a) (g a) (names a)) : Writes (l.mapM f) (l.map g) (l.flatMap names) := by
  induction l with
  | nil => exact .pure []
  | cons a l ih =>
    rw [List.mapM_cons]
    have hrest := ih fun a' ha' => h a' (List.mem_cons_of_mem _ ha')
    exact (h a List.mem_cons_self).bind (hrest.map (g a :: ·))

end Writes

namespace Render

theorem runtimeType_writes (name : String) : Writes (runtimeType name) name [.runtime name] := by
  intro r
  have hadd : r.add [.runtime name] = { r with runtime := r.runtime ++ [name] } := by
    simp [References.add, TypeName.runtime?, TypeName.context?]
  rw [hadd]
  rfl

variable (known : ContextNames)

theorem className_writes (name : String) :
    Writes (className known name) (TypeName.ofClass known name).text [.ofClass known name] := by
  unfold className TypeName.ofClass
  by_cases hknown : name ∈ known.names
  · intro r
    cases hhere : known.declaredHere with
    | true => simp [hknown, References.add, TypeName.runtime?, TypeName.context?, TypeName.text]; rfl
    | false =>
      simp [hknown, References.add, TypeName.runtime?, TypeName.context?, TypeName.text]; rfl
  · simp only [List.contains_iff_mem, hknown, ↓reduceIte]
    by_cases hruntime : name ∈ runtimeTypes
    · simp only [hruntime, ↓reduceIte]
      exact runtimeType_writes name
    · simp only [hruntime, ↓reduceIte]
      exact .pure "unknown"

theorem typeText_writes (t : TypeRef) :
    Writes (typeText known t) (WrittenType.ofType known t).text
      [(WrittenType.ofType known t).typeName] := by
  induction t with
  | context name => exact className_writes known name
  | named name => exact className_writes known name
  | parameter name => exact .pure name
  | terminalNode => exact runtimeType_writes "TerminalNode"
  | list element ih => exact ih.map (· ++ "[]")
  | _ => exact .pure _

theorem superclass_writes (name : Option String) (fallback : String) :
    Writes (superclass known name fallback) (TypeName.ofSuperclass known name fallback).text
      [.ofSuperclass known name fallback] := by
  unfold superclass TypeName.ofSuperclass
  cases name with
  | none => exact runtimeType_writes fallback
  | some n =>
    simp only [Bool.or_eq_true, List.contains_iff_mem]
    split
    · exact className_writes known n
    · exact runtimeType_writes fallback

theorem parameter_writes (p : Parameter) :
    Writes (parameter known p) (WrittenParameter.ofParameter known p).text
      [(WrittenParameter.ofParameter known p).ty.typeName] :=
  (typeText_writes known p.ty).map _

theorem typeParameter_writes (p : Option TypeParam) :
    Writes (typeParameter known p)
      (((p.map (WrittenGeneric.ofTypeParam known)).map (·.text)).getD "")
      ((p.map (WrittenGeneric.ofTypeParam known)).map (·.bound)).toList := by
  cases p with
  | none => exact .pure ""
  | some p => exact (className_writes known p.bound).map _

theorem member_writes (m : Member) :
    Writes (member known m) (Line.ofMember known m).text (Line.ofMember known m).typeNames := by
  unfold member Line.ofMember
  cases m.kind with
  | field =>
    rw [Line.text_field]
    exact (typeText_writes known m.ty).map (Line.start m.isStatic m.name ++ ": " ++ · ++ ";")
  | method =>
    have hgeneric := typeParameter_writes known m.typeParam
    have hparams : Writes (m.params.mapM (parameter known)) _ _ :=
      .mapM fun p _ => parameter_writes known p
    have hty := typeText_writes known m.ty
    have hnames : ((m.params.map (WrittenParameter.ofParameter known)).map (·.ty.typeName)) =
        m.params.flatMap fun p => [(WrittenParameter.ofParameter known p).ty.typeName] := by
      rw [List.map_map, List.map_eq_flatMap]
      rfl
    have htexts : ((m.params.map (WrittenParameter.ofParameter known)).map (·.text)) =
        m.params.map fun p => (WrittenParameter.ofParameter known p).text := by
      rw [List.map_map]
      rfl
    rw [Line.text_method, Line.typeNames, hnames, htexts, List.append_assoc]
    exact hgeneric.bind (hparams.bind (hty.map _))

theorem members_write (ms : List Member) :
    Writes (ms.mapM (member known)) ((ms.map (Line.ofMember known)).map (·.text))
      ((ms.map (Line.ofMember known)).flatMap (·.typeNames)) := by
  rw [List.map_map, List.flatMap_map]
  exact .mapM fun m _ => member_writes known m

end Render

theorem constructorLine_writes (input : String) :
    Writes (constructorLine input) (Line.constructor (.runtime input)).text [.runtime input] :=
  (Render.runtimeType_writes input).map _

theorem renderContext_writes (known : ContextNames) (d : Declaration) :
    Writes (renderContext known d) ((d.contextSheet known).text "export declare class ")
      (d.contextSheet known).typeNames := by
  rw [ClassSheet.text_eq]
  exact (Render.superclass_writes known d.superclass "ParserRuleContext").bind
    ((Render.members_write known d.members).map _)

theorem mem_sortedNames {names : List String} {n : String} : n ∈ sortedNames names ↔ n ∈ names := by
  rw [sortedNames, List.mem_eraseDups, List.mem_mergeSort]

theorem sortedNames_eq_nil_iff {names : List String} : sortedNames names = [] ↔ names = [] := by
  simp only [List.eq_nil_iff_forall_not_mem, mem_sortedNames]

namespace Sheet

variable {f : Sheet} {n : String}

theorem mem_runtimeImports : n ∈ f.runtimeImports ↔ .runtime n ∈ f.typeNames := by
  rw [runtimeImports, mem_sortedNames, List.mem_filterMap]
  constructor
  · rintro ⟨m, hm, hn⟩
    cases m with
    | runtime m' =>
      cases hn
      exact hm
    | _ => cases hn
  · exact fun h => ⟨_, h, rfl⟩

theorem mem_contextImports : n ∈ f.contextImports ↔ .context n ∈ f.typeNames := by
  rw [contextImports, mem_sortedNames, List.mem_filterMap]
  constructor
  · rintro ⟨m, hm, hn⟩
    cases m with
    | context m' =>
      cases hn
      exact hm
    | _ => cases hn
  · exact fun h => ⟨_, h, rfl⟩

end Sheet

theorem References.importLines_eq (f : Sheet) :
    (References.add {} f.typeNames).importLines f.parserModule = f.importLines := by
  have hline (start : String) (names : List String) (source : String) :
      Sheet.importLine start (sortedNames names) source = if names.isEmpty then [] else
        [start ++ " \x7b " ++ ", ".intercalate (sortedNames names) ++ " \x7d from '" ++ source ++
          "';"] := by
    simp only [Sheet.importLine, Sheet.importText, sortedNames_eq_nil_iff, List.isEmpty_iff]
  rw [Sheet.importLines, Sheet.runtimeImports, Sheet.contextImports, hline, hline]
  rfl

theorem renderFile_eq {parserModule : String} {blocks : Render (List String)} {f : Sheet}
    (hmodule : f.parserModule = parserModule)
    (h : Writes blocks (f.main.text "export default class " ::
      f.contexts.map (·.text "export declare class ")) f.typeNames) :
    renderFile parserModule blocks = f.text := by
  subst hmodule
  have hrun : blocks.run {} = _ := h {}
  have hspace : textOfRows (if f.importLines = [] then [] else [""]) =
      if f.importLines = [] then "" else "\n" := by
    split
    · rfl
    · rfl
  rw [Sheet.text, Sheet.rows, List.append_assoc, textOfRows_append, textOfRows_append, hspace,
    textOfRows_blocks]
  simp only [renderFile, hrun, References.importLines_eq, List.isEmpty_iff]
  rfl

theorem renderLexer_eq (d : Declaration) : renderLexer d = d.lexerSheet.text := by
  have hmembers := Render.members_write {} d.members
  have hconstructor := constructorLine_writes "CharStream"
  refine renderFile_eq rfl ?_
  simp only [ClassSheet.text_eq, Declaration.lexerSheet, Sheet.typeNames, Sheet.classes,
    List.flatMap_singleton, ClassSheet.typeNames, ClassSheet.baseNames, List.map_append,
    List.flatMap_append]
  exact (Render.superclass_writes {} d.superclass "Lexer").bind (hmembers.bind (hconstructor.map _))

section Parser

variable (p : ParserModel)

theorem ParserModel.sheet_typeNames : p.sheet.typeNames =
    ([p.sheet.main.base] ++
      (p.parser.fields.map (Line.ofMember ⟨p.contextNames, true⟩)).flatMap (·.typeNames)) ++
    (p.contextNames.map .declared ++ ([.runtime "TokenStream"] ++
      ((p.parser.methods.map (Line.ofMember ⟨p.contextNames, true⟩)).flatMap (·.typeNames) ++
        p.contexts.flatMap fun d => (d.contextSheet ⟨p.contextNames, true⟩).typeNames))) := by
  have hvalues : p.contextNames.map TypeName.declared =
      (p.contextNames.map Line.classValue).flatMap (·.typeNames) := by
    rw [List.flatMap_map, List.map_eq_flatMap]
    rfl
  rw [hvalues]
  simp [ParserModel.sheet, Sheet.typeNames, Sheet.classes, ClassSheet.typeNames,
    ClassSheet.baseNames, List.flatMap_map, Line.typeNames]

theorem ParserModel.sheet_texts : p.sheet.main.lines.map (·.text) =
    (p.parser.fields.map (Line.ofMember ⟨p.contextNames, true⟩)).map (·.text) ++
      p.contextNames.map (fun n => "static readonly " ++ n ++ ": typeof " ++ n ++ ";") ++
      [(Line.constructor (.runtime "TokenStream")).text] ++
      (p.parser.methods.map (Line.ofMember ⟨p.contextNames, true⟩)).map (·.text) := by
  have hvalues : (p.contextNames.map Line.classValue).map (·.text) =
      p.contextNames.map fun n => "static readonly " ++ n ++ ": typeof " ++ n ++ ";" := by
    rw [List.map_map]
    rfl
  simp only [ParserModel.sheet, List.map_append, hvalues]
  rfl

theorem renderParser_eq : renderParser p = p.sheet.text := by
  have hbase := Render.superclass_writes ⟨p.contextNames, true⟩ p.parser.superclass "Parser"
  have hfields := Render.members_write ⟨p.contextNames, true⟩ p.parser.fields
  have hconstructor := constructorLine_writes "TokenStream"
  have hmethods := Render.members_write ⟨p.contextNames, true⟩ p.parser.methods
  have hcontexts := Writes.mapM (l := p.contexts) fun d _ =>
    renderContext_writes ⟨p.contextNames, true⟩ d
  have hblocks : p.sheet.contexts.map (·.text "export declare class ") =
      p.contexts.map fun d =>
        (d.contextSheet ⟨p.contextNames, true⟩).text "export declare class " := by
    rw [ParserModel.sheet, List.map_map]
    rfl
  unfold renderParser
  refine renderFile_eq (f := p.sheet) rfl ?_
  rw [p.sheet_typeNames, hblocks, ClassSheet.text_eq, p.sheet_texts]
  refine .atHome (by simp [TypeName.runtime?, TypeName.context?]) ?_
  rw [List.append_assoc [_]]
  exact hbase.bind (hfields.bind (hconstructor.bind (hmethods.bind (hcontexts.map (_ :: ·)))))

end Parser

theorem renderCallbacks_eq (d : Declaration) (parserModule : String) (contexts : List String) :
    renderCallbacks d parserModule contexts = (d.callbacksSheet parserModule contexts).text := by
  have hbase := Render.superclass_writes ⟨contexts, false⟩ d.superclass d.callbacksBase
  have hmembers := Render.members_write ⟨contexts, false⟩ d.members
  unfold renderCallbacks
  refine renderFile_eq (f := d.callbacksSheet parserModule contexts) rfl ?_
  have hnames : (d.callbacksSheet parserModule contexts).typeNames =
      [.ofSuperclass ⟨contexts, false⟩ d.superclass d.callbacksBase] ++
      ((if (d.callbacksSheet parserModule contexts).main.overAny then [.word "any"] else []) ++
        (d.members.map (Line.ofMember ⟨contexts, false⟩)).flatMap (·.typeNames)) := by
    simp only [Sheet.typeNames, Sheet.classes, Declaration.callbacksSheet, List.flatMap_singleton]
    rfl
  rw [hnames, ClassSheet.text_eq]
  refine .atHome ?_ (hbase.bind (hmembers.map _))
  intro n hn
  split at hn
  · rw [List.mem_singleton.1 hn]
    exact ⟨rfl, rfl⟩
  · cases hn

theorem renderGrammar_eq (g : GrammarModel) : renderGrammar g = g.sheets.map (·.file) := by
  simp only [renderGrammar, GrammarModel.sheets, List.map_append, List.map_map, renderLexer_eq,
    renderParser_eq, renderCallbacks_eq]
  rfl

end Typings
