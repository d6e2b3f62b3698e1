import Mathlib.Data.List.SplitBy
import Typings.Proofs.Render.Sheet
import Typings.Text.Split

namespace Typings

namespace Printed

/-- A character that can stand in a word: none of those that the layout of a file is made of. -/
def isPlain (c : Char) : Bool :=
  c ∉ [' ', '\n', '\x7b', '\x7d', '(', ')', '<', '>', '[', ']', ':', ';', ',', '?', '\'']

/-- The words and marks of a line. -/
def wordsOf (row : String) : List String :=
  ((row.toList.splitBy fun a b => isPlain a && isPlain b).filter (· ≠ [' '])).map String.ofList

def wordLike (w : String) : Bool := w ≠ "" && w.toList.all isPlain

/-- A word that can be told from those of the layout. -/
def nameLike (w : String) : Bool := wordLike w && w ≠ "extends" && w ≠ "typeof"

/-- The names behind one of some words or marks. The first word stands behind `before`. -/
def namesBehind (leads : List String) (before : String) : List String → List String
  | [] => []
  | w :: ws => (if before ∈ leads ∧ nameLike w then [w] else []) ++ namesBehind leads w ws

/-- What a type name stands behind. -/
def typeLeads : List String := [":", "<", "extends", "typeof"]

/-- The type names in a line. -/
def typeNames (row : List String) : List String := namesBehind typeLeads "" row

/-- The type parameter that a line declares. -/
def ownTypes (row : List String) : List String := namesBehind ["<"] "" row

/-- The names that a line imports from a source. -/
def importsFrom (source : String) (row : List String) : List String :=
  if row.take 2 ∈ [["import", "\x7b"], ["import", "type"]] ∧
      row.reverse.take 4 = [";", "'", source, "'"] then namesBehind ["\x7b", ","] "" row
  else []

/-- The name of the class that a line declares beside the default export. -/
def declared? (row : List String) : Option String :=
  if row.take 3 = ["export", "declare", "class"] then row[3]? else none

end Printed

namespace DeclarationFile

/-- The lines of a file, each as its words and marks. -/
def rows (file : DeclarationFile) : List (List String) :=
  (splitChars '\n' file.contents.toList).map (Printed.wordsOf <| .ofList ·)

def imports (file : DeclarationFile) (source : String) : List String :=
  file.rows.flatMap (Printed.importsFrom source)

def declared (file : DeclarationFile) : List String := file.rows.filterMap Printed.declared?

end DeclarationFile

namespace Printed

variable {s t w : String}

theorem nameLike_iff : nameLike w = true ↔ wordLike w = true ∧ w ≠ "extends" ∧ w ≠ "typeof" := by
  simp [nameLike, and_assoc]

theorem wordLike_of_nameLike (h : nameLike w = true) : wordLike w = true := (nameLike_iff.1 h).1

theorem wordsOf_append (h : ∀ a ∈ s.toList.getLast?, ∀ b ∈ t.toList.head?,
    (isPlain a && isPlain b) = false) : wordsOf (s ++ t) = wordsOf s ++ wordsOf t := by
  rw [wordsOf, String.toList_append, List.splitBy_append h, List.filter_append, List.map_append]
  rfl

theorem wordsOf_word (h : wordLike w = true) : wordsOf w = [w] := by
  simp only [wordLike, Bool.and_eq_true, decide_eq_true_eq, List.all_eq_true] at h
  obtain ⟨hne, hplain⟩ := h
  have hne' : w.toList ≠ [] := by simpa using hne
  have hchain : w.toList.IsChain fun a b => (isPlain a && isPlain b) = true := by
    apply List.Pairwise.isChain
    apply List.pairwise_of_forall_mem_list
    intro a ha b hb
    rw [hplain a ha, hplain b hb, Bool.and_true]
  have hblank : w.toList ≠ [' '] := by
    intro h
    simpa [isPlain] using hplain ' ' (by simp [h])
  rw [wordsOf, List.splitBy_of_isChain hne' hchain, List.filter_cons_of_pos (by simpa using hblank)]
  simp

/-- A text on one line with the words `ws`. -/
structure Prints (s : String) (ws : List String) : Prop where
  words : wordsOf s = ws
  oneLine : '\n' ∉ s.toList

instance (s : String) (ws : List String) : Decidable (Prints s ws) :=
  decidable_of_iff (wordsOf s = ws ∧ '\n' ∉ s.toList)
    ⟨fun h => ⟨h.1, h.2⟩, fun h => ⟨h.words, h.oneLine⟩⟩

/-- Nothing that a text follows is gone on with by its first word. -/
def StartsWord (s : String) : Prop := ∀ c ∈ s.toList.head?, isPlain c = false

instance (s : String) : Decidable (StartsWord s) :=
  decidable_of_iff (s.toList.head?.all (!isPlain ·) = true) (by simp [StartsWord, Option.all_eq_true])

/-- A text with the words `m` that nothing behind it goes on with. -/
def Leads (s : String) (m : List String) : Prop :=
  Prints s m ∧ ∀ c ∈ s.toList.getLast?, isPlain c = false

/-- A text with the words `m` between others: none goes on with it, and it goes on with none. -/
def Separates (sep : String) (m : List String) : Prop :=
  Leads sep m ∧ StartsWord sep ∧ sep.toList ≠ []

instance (s : String) (m : List String) : Decidable (Leads s m) :=
  decidable_of_iff (Prints s m ∧ s.toList.getLast?.all (!isPlain ·) = true) (by simp [Leads, Option.all_eq_true])

instance (sep : String) (m : List String) : Decidable (Separates sep m) :=
  inferInstanceAs (Decidable (_ ∧ _))

theorem StartsWord.append (h : StartsWord s) (hne : s.toList ≠ []) (t : String) :
    StartsWord (s ++ t) := by
  unfold StartsWord
  rw [String.toList_append, List.head?_append_of_ne_nil _ hne]
  exact h

section

variable {ws ws' m : List String}

theorem Prints.word (h : wordLike w = true) : Prints w [w] := by
  refine ⟨wordsOf_word h, fun hmem => ?_⟩
  simp only [wordLike, Bool.and_eq_true, List.all_eq_true] at h
  simpa [isPlain] using h.2 _ hmem

theorem Prints.name (h : nameLike w = true) : Prints w [w] := .word (wordLike_of_nameLike h)

theorem Prints.oneLine_append (hs : Prints s ws) (ht : Prints t ws') : '\n' ∉ (s ++ t).toList := by
  rw [String.toList_append, List.mem_append, not_or]
  exact ⟨hs.oneLine, ht.oneLine⟩

theorem Leads.before (hs : Leads s m) (ht : Prints t ws) : Prints (s ++ t) (m ++ ws) := by
  refine ⟨?_, hs.1.oneLine_append ht⟩
  rw [wordsOf_append, hs.1.words, ht.words]
  intro a ha b _
  rw [hs.2 a ha, Bool.false_and]

theorem StartsWord.behind (ht : StartsWord t) (hs : Prints s ws) (ht' : Prints t m) :
    Prints (s ++ t) (ws ++ m) := by
  refine ⟨?_, hs.oneLine_append ht'⟩
  rw [wordsOf_append, hs.words, ht'.words]
  intro a _ b hb
  rw [ht b hb, Bool.and_false]

variable {sep : String} (hsep : Separates sep m)
include hsep

theorem Separates.behind (hs : Prints s ws) : Prints (s ++ sep) (ws ++ m) :=
  hsep.2.1.behind hs hsep.1.1

theorem Separates.around (hs : Prints s ws) (ht : Prints t ws') :
    Prints (s ++ sep ++ t) (ws ++ (m ++ ws')) := by
  rw [String.append_assoc]
  exact (hsep.2.1.append hsep.2.2 t).behind hs (hsep.1.before ht)

theorem Separates.intercalate {α : Type} {text : α → String} {words : α → List String} {l : List α}
    (h : ∀ a ∈ l, Prints (text a) (words a)) :
    Prints (sep.intercalate (l.map text)) (m.intercalate (l.map words)) := by
  induction l with
  | nil => exact ⟨rfl, List.not_mem_nil⟩
  | cons a l ih =>
    obtain ⟨ha, hl⟩ := List.forall_mem_cons.1 h
    cases l with
    | nil => simpa using ha
    | cons b l =>
      have hrest := hsep.around ha (ih hl)
      rw [← List.append_assoc] at hrest
      rwa [List.map_cons, List.map_cons, String.intercalate_cons_cons, List.map_cons, List.map_cons,
        List.intercalate_cons_cons]

end

theorem splitChars_line {line : List Char} (h : '\n' ∉ line) (rest : List Char) :
    splitChars '\n' (line ++ '\n' :: rest) = line :: splitChars '\n' rest := by
  induction line with
  | nil => rfl
  | cons c line ih =>
    have hc : (c == '\n') = false := by
      rw [beq_eq_false_iff_ne]
      rintro rfl
      exact h (List.mem_cons_self ..)
    rw [List.cons_append, splitChars, hc, ih fun hmem => h (List.mem_cons_of_mem _ hmem)]
    rfl

/-- The lines of a text are those it was made of, and an empty one behind the last line feed. -/
theorem splitChars_textOfRows {rows : List String} (h : ∀ row ∈ rows, '\n' ∉ row.toList) :
    splitChars '\n' (textOfRows rows).toList = rows.map (·.toList) ++ [[]] := by
  induction rows with
  | nil => rfl
  | cons row rows ih =>
    obtain ⟨hrow, hrows⟩ := List.forall_mem_cons.1 h
    have hsplit : (textOfRows (row :: rows)).toList =
        row.toList ++ '\n' :: (textOfRows rows).toList := by
      rw [textOfRows, List.map_cons, String.join_cons, String.toList_append, String.toList_append,
        List.append_assoc]
      rfl
    rw [hsplit, splitChars_line hrow, ih hrows]
    rfl

theorem nameLike_path (h : wordLike w = true) : nameLike ("./" ++ w) = true := by
  have hplain : ("./" ++ w).toList.all isPlain = true := by
    simp only [wordLike, Bool.and_eq_true] at h
    rw [String.toList_append, List.all_append, h.2, Bool.and_true]
    decide +kernel
  have hne {m : String} (hm : m.toList.head? ≠ some '.') : "./" ++ w ≠ m := by
    rintro rfl
    exact hm (by rw [String.toList_append]; rfl)
  rw [nameLike_iff, wordLike, Bool.and_eq_true, decide_eq_true_iff]
  exact ⟨⟨hne (by decide +kernel), hplain⟩, hne (by decide +kernel), hne (by decide +kernel)⟩

theorem nameLike_mark : nameLike "\x7b" = false ∧ nameLike "\x7d" = false ∧ nameLike "(" = false ∧
    nameLike ")" = false ∧ nameLike "<" = false ∧ nameLike ">" = false ∧ nameLike "[" = false ∧
    nameLike "]" = false ∧ nameLike ":" = false ∧ nameLike ";" = false ∧ nameLike "," = false ∧
    nameLike "?" = false ∧ nameLike "'" = false ∧ nameLike "extends" = false ∧
    nameLike "typeof" = false := by
  decide +kernel

theorem namesBehind_append (leads : List String) (before : String) (ws ws' : List String) :
    namesBehind leads before (ws ++ ws') =
      namesBehind leads before ws ++ namesBehind leads (ws.getLastD before) ws' := by
  induction ws generalizing before with
  | nil => rfl
  | cons w ws ih => rw [List.cons_append, namesBehind, ih, namesBehind, List.append_assoc,
      List.getLastD_cons]

theorem mem_namesBehind {leads pre post : List String} {lead : String} (hlead : lead ∈ leads)
    (hw : nameLike w = true) (before : String) :
    w ∈ namesBehind leads before (pre ++ lead :: w :: post) := by
  simp [namesBehind_append, namesBehind, hlead, hw]

end Printed

open Printed

namespace WrittenType

def words : WrittenType → List String
  | name n => [n.text]
  | list t => t.words ++ ["[", "]"]

def Legible (t : WrittenType) : Prop := nameLike t.typeName.text = true

variable {t : WrittenType} (h : t.Legible)
include h

theorem Legible.prints : Prints t.text t.words := by
  induction t with
  | name n => exact .name h
  | list t ih =>
    have hbrackets : Separates "[]" ["[", "]"] := by decide +kernel
    exact hbrackets.behind (ih h)

theorem Legible.namesBehind : namesBehind typeLeads ":" t.words = [t.typeName.text] := by
  induction t with
  | name n =>
    have hn : nameLike n.text = true := h
    simp [words, Printed.namesBehind, typeLeads, hn, typeName]
  | list t ih =>
    simp [words, namesBehind_append, ih h, Printed.namesBehind, nameLike_mark, typeName]

end WrittenType

namespace WrittenParameter

def words (p : WrittenParameter) : List String :=
  p.name :: (if p.optional then ["?"] else []) ++ ":" :: p.ty.words

structure Legible (p : WrittenParameter) : Prop where
  name : wordLike p.name = true
  ty : p.ty.Legible

theorem Legible.prints {p : WrittenParameter} (h : p.Legible) : Prints p.text p.words := by
  have hcolon : Separates ": " [":"] := by decide +kernel
  have hquestion : Separates "?" ["?"] := by decide +kernel
  have hstart : Prints (p.name ++ if p.optional then "?" else "")
      (p.name :: if p.optional then ["?"] else []) := by
    cases p.optional with
    | false => simpa using Prints.word h.name
    | true => exact hquestion.behind (.word h.name)
  exact hcolon.around hstart h.ty.prints

theorem namesBehind_all {params : List WrittenParameter} (h : ∀ p ∈ params, p.Legible)
    (before : String) (hbefore : before ∉ typeLeads) :
    namesBehind typeLeads before ([","].intercalate (params.map (·.words))) =
      params.map (·.ty.typeName.text) := by
  have hone {p : WrittenParameter} (hp : p.Legible) {before : String} (hbefore : before ∉ typeLeads) :
      namesBehind typeLeads before p.words = [p.ty.typeName.text] := by
    cases hoptional : p.optional <;>
      simp [words, namesBehind, hbefore, hoptional, nameLike_mark, hp.ty.namesBehind]
  induction params generalizing before with
  | nil => rfl
  | cons p params ih =>
    obtain ⟨hp, hparams⟩ := List.forall_mem_cons.1 h
    cases params with
    | nil => simpa using hone hp hbefore
    | cons p' params =>
      rw [List.map_cons, List.map_cons, List.intercalate_cons_cons, List.append_assoc,
        namesBehind_append, hone hp hbefore]
      simpa [namesBehind, nameLike_mark] using ih hparams "," (by decide)

end WrittenParameter

namespace WrittenGeneric

def words (p : WrittenGeneric) : List String := ["<", p.name, "extends", p.bound.text, ">"]

structure Legible (p : WrittenGeneric) : Prop where
  name : nameLike p.name = true
  bound : nameLike p.bound.text = true

theorem Legible.prints {p : WrittenGeneric} (h : p.Legible) : Prints p.text p.words := by
  have hopen : Separates "<" ["<"] := by decide +kernel
  have hextends : Separates " extends " ["extends"] := by decide +kernel
  have hclose : Separates ">" [">"] := by decide +kernel
  exact hclose.behind (hextends.around (hopen.1.before (.name h.name)) (.name h.bound))

end WrittenGeneric

namespace Line

def startWords (isStatic : Bool) (name : String) : List String :=
  (if isStatic then ["static"] else []) ++ [name]

theorem start_prints (isStatic : Bool) {name : String} (h : wordLike name = true) :
    Prints (start isStatic name) (startWords isStatic name) := by
  have hstart : Leads (if isStatic then "static " else "") (if isStatic then ["static"] else []) := by
    cases isStatic <;> decide +kernel
  exact hstart.before (.word h)

def words : Line → List String
  | field _ isStatic name ty => startWords isStatic name ++ ([":"] ++ ty.words) ++ [";"]
  | method isStatic name generic params ty =>
    (startWords isStatic name ++ (generic.map (·.words)).getD []) ++
      (["("] ++ [","].intercalate (params.map (·.words))) ++ ([")", ":"] ++ ty.words) ++ [";"]
  | classValue name => ["static", "readonly", name, ":", "typeof", name, ";"]
  | constructor input => ["constructor", "(", "input", ":", input.text, ")", ";"]

/-- The names in a line can be read, and it shows the type parameter that it has. -/
inductive Legible : Line → Prop
  | field {isStatic : Bool} {name : String} {ty : WrittenType} (hname : wordLike name = true)
    (hty : ty.Legible) : Legible (.field none isStatic name ty)
  | method {isStatic : Bool} {name : String} {generic : Option WrittenGeneric}
    {params : List WrittenParameter} {ty : WrittenType} (hname : wordLike name = true)
    (hgeneric : ∀ p ∈ generic, p.Legible) (hparams : ∀ p ∈ params, p.Legible) (hty : ty.Legible) :
    Legible (.method isStatic name generic params ty)
  | classValue {name : String} (hname : nameLike name = true) : Legible (.classValue name)
  | constructor {input : TypeName} (hinput : nameLike input.text = true) :
    Legible (.constructor input)

variable {l : Line}

theorem Legible.prints (h : l.Legible) : Prints l.text l.words := by
  have hcolon : Separates ": " [":"] := by decide +kernel
  have hend : Separates ";" [";"] := by decide +kernel
  cases h with
  | field hname hty => exact hend.behind (hcolon.around (start_prints _ hname) hty.prints)
  | @method isStatic name generic params ty hname hgeneric hparams hty =>
    have hopen : Separates "(" ["("] := by decide +kernel
    have hclose : Separates "): " [")", ":"] := by decide +kernel
    have hcomma : Separates ", " [","] := by decide +kernel
    have hstart : Prints (start isStatic name ++ (generic.map (·.text)).getD "")
        (startWords isStatic name ++ (generic.map (·.words)).getD []) := by
      cases generic with
      | none => simpa using start_prints isStatic hname
      | some p =>
        refine StartsWord.behind ?_ (start_prints isStatic hname) (hgeneric p rfl).prints
        simp only [Option.map_some, Option.getD_some, WrittenGeneric.text, String.append_assoc]
        exact StartsWord.append (by decide +kernel) (by decide +kernel) _
    have hparams := hcomma.intercalate fun p hp => (hparams p hp).prints
    exact hend.behind (hclose.around (hopen.around hstart hparams) hty.prints)
  | @classValue name hname =>
    have hstart : Leads "static readonly " ["static", "readonly"] := by decide +kernel
    have htypeof : Separates ": typeof " [":", "typeof"] := by decide +kernel
    exact hend.behind (htypeof.around (hstart.before (.name hname)) (.name hname))
  | @constructor input hinput =>
    have hstart : Leads "constructor(input: " ["constructor", "(", "input", ":"] := by decide +kernel
    have hclose : Separates ");" [")", ";"] := by decide +kernel
    exact hclose.behind (hstart.before (.name hinput))

theorem Legible.typeName_nameLike (h : l.Legible) : ∀ n ∈ l.typeNames, nameLike n.text = true := by
  intro n hn
  cases h with
  | field hname hty => exact List.mem_singleton.1 hn ▸ hty
  | method hname hgeneric hparams hty =>
    simp only [Line.typeNames, List.mem_append, List.mem_singleton, List.mem_map,
      Option.mem_toList, Option.map_eq_some_iff] at hn
    rcases hn with (⟨p, hp, rfl⟩ | ⟨p, hp, rfl⟩) | rfl
    · exact (hgeneric p hp).bound
    · exact (hparams p hp).ty
    · exact hty
  | classValue hname => exact List.mem_singleton.1 hn ▸ hname
  | constructor hinput => exact List.mem_singleton.1 hn ▸ hinput

/-- What is read off a line are its type names, and the type parameter that it declares. -/
theorem Legible.typeNames_words (h : l.Legible) :
    Printed.typeNames l.words = l.own.toList ++ l.typeNames.map (·.text) := by
  have hstart (isStatic : Bool) (name : String) :
      namesBehind typeLeads "" (startWords isStatic name) = [] := by
    cases isStatic <;> simp [startWords, namesBehind, typeLeads]
  unfold Printed.typeNames
  cases h with
  | field hname hty =>
    simp [words, namesBehind_append, hstart, namesBehind, nameLike_mark, hty.namesBehind, own,
      Line.typeNames]
  | @method isStatic name generic params ty hname hgeneric hparams hty =>
    have hparams' := WrittenParameter.namesBehind_all hparams "(" (by decide)
    cases generic with
    | none =>
      simp [words, namesBehind_append, hstart, namesBehind, nameLike_mark, hparams', hty.namesBehind,
        own, Line.typeNames]
    | some p =>
      have hp := hgeneric p rfl
      have hleads : "<" ∈ typeLeads ∧ "extends" ∈ typeLeads := by decide
      simp [words, WrittenGeneric.words, namesBehind_append, hstart, namesBehind, nameLike_mark,
        hparams', hty.namesBehind, own, Line.typeNames, hp.name, hp.bound, hleads]
  | classValue hname =>
    simp [words, namesBehind, nameLike_mark, hname, typeLeads, own, Line.typeNames, TypeName.text]
  | constructor hinput =>
    simp [words, namesBehind, nameLike_mark, hinput, typeLeads, own, Line.typeNames]

theorem Legible.mem_ownTypes (h : l.Legible) {n : String} (hn : l.own = some n) :
    n ∈ Printed.ownTypes l.words := by
  cases h with
  | @method isStatic name generic params ty hname hgeneric hparams hty =>
    obtain ⟨p, rfl, rfl⟩ := Option.map_eq_some_iff.1 hn
    simp only [words, Option.map_some, Option.getD_some, WrittenGeneric.words,
      List.append_assoc, List.cons_append]
    exact mem_namesBehind (by decide) (hgeneric p rfl).name ""
  | field => cases hn
  | classValue => cases hn
  | constructor => cases hn

theorem importsFrom_words (l : Line) (source : String) : importsFrom source l.words = [] := by
  apply if_neg
  rintro ⟨htake, -⟩
  cases l with
  | field own isStatic name ty => cases isStatic <;> simp [words, startWords] at htake
  | method isStatic name generic params ty =>
    cases isStatic <;> cases generic <;> simp [words, startWords, WrittenGeneric.words] at htake
  | classValue name => simp [words] at htake
  | constructor input => simp [words] at htake

end Line

namespace ClassSheet

structure Legible (c : ClassSheet) : Prop where
  name : nameLike c.name = true
  base : nameLike c.base.text = true
  lines : ∀ l ∈ c.lines, l.Legible

/-- The words of the first line of a class; `start` are those before its name. -/
def headWords (c : ClassSheet) (start : List String) : List String :=
  start ++ [c.name] ++ (["extends"] ++ (c.base.text :: if c.overAny then ["<", "any", ">"] else [])) ++
    ["\x7b"]

variable {c : ClassSheet} (h : c.Legible)
include h

theorem Legible.head_prints {start : String} {ws : List String} (hstart : Leads start ws) :
    Prints (c.head start) (c.headWords ws) := by
  have hextends : Separates " extends " ["extends"] := by decide +kernel
  have hany : Separates "<any>" ["<", "any", ">"] := by decide +kernel
  have hbrace : Separates " \x7b" ["\x7b"] := by decide +kernel
  have hbase : Prints c.baseText (c.base.text :: if c.overAny then ["<", "any", ">"] else []) := by
    unfold baseText
    cases c.overAny with
    | false => exact .name h.base
    | true => exact hany.behind (.name h.base)
  exact hbrace.behind (hextends.around (hstart.before (.name h.name)) hbase)

theorem Legible.typeNames_head {ws : List String} (hws : namesBehind typeLeads "" ws = [])
    (hlast : ws.getLast?.getD "" ∉ typeLeads) :
    Printed.typeNames (c.headWords ws) = c.baseNames.map (·.text) := by
  have hany : nameLike "any" = true ∧ (TypeName.word "any").text = "any" := by decide +kernel
  have hleads : "<" ∈ typeLeads ∧ "extends" ∈ typeLeads := by decide
  unfold Printed.typeNames
  cases hover : c.overAny <;>
    simp [headWords, namesBehind_append, namesBehind, hws, hlast, hover, nameLike_mark, h.base,
      baseNames, hleads, hany]

omit h in
theorem mem_rows {row start : String} :
    row ∈ c.rows start ↔ row = c.head start ∨ (∃ l ∈ c.lines, row = "    " ++ l.text) ∨ row = "\x7d" := by
  simp [rows, eq_comm]

end ClassSheet

namespace Sheet

/-- The words of a line that imports names. -/
def importWords (start names : List String) (source : String) : List String :=
  start ++ ("\x7b" :: [","].intercalate (names.map ([·]))) ++
    (["\x7d", "from", "'"] ++ [source]) ++ ["'", ";"]

section

variable {names : List String} {source : String} (hnames : ∀ n ∈ names, nameLike n = true)
include hnames

theorem importText_prints (hsource : nameLike source = true) {start : String} {ws : List String}
    (hstart : Prints start ws) :
    Prints (importText start names source) (importWords ws names source) := by
  have hopen : Separates " \x7b " ["\x7b"] := by decide +kernel
  have hfrom : Separates " \x7d from '" ["\x7d", "from", "'"] := by decide +kernel
  have hend : Separates "';" ["'", ";"] := by decide +kernel
  have hcomma : Separates ", " [","] := by decide +kernel
  have hlist := hcomma.intercalate fun n hn => Prints.name (hnames n hn)
  rw [List.map_id'] at hlist
  exact hend.behind (hfrom.around (hopen.around hstart hlist) (.name hsource))

theorem namesBehind_list (leads : List String) (before : String)
    (hcomma : "," ∈ leads ↔ before ∈ leads) :
    namesBehind leads before ([","].intercalate (names.map ([·]))) =
      if before ∈ leads then names else [] := by
  induction names generalizing before with
  | nil => simp [namesBehind]
  | cons n names ih =>
    obtain ⟨hn, hnames⟩ := List.forall_mem_cons.1 hnames
    cases names with
    | nil => simp [namesBehind, hn]
    | cons n' names =>
      have hrest := ih hnames "," Iff.rfl
      rw [List.map_cons, List.map_cons, List.intercalate_cons_cons, List.append_assoc,
        namesBehind_append]
      by_cases hbefore : before ∈ leads
      · simpa [namesBehind, hn, hbefore, hcomma.2 hbefore, nameLike_mark] using hrest
      · simpa [namesBehind, hbefore, mt hcomma.1 hbefore, nameLike_mark] using hrest

theorem typeNames_importWords {start : List String} (hstart : namesBehind typeLeads "" start = []) :
    Printed.typeNames (importWords start names source) = [] := by
  have hlist := namesBehind_list hnames typeLeads "\x7b" (by decide)
  have hleads : "\x7b" ∉ typeLeads ∧ "\x7d" ∉ typeLeads ∧ "'" ∉ typeLeads := by decide
  unfold Printed.typeNames
  simp [importWords, namesBehind_append, namesBehind, hstart, hlist, nameLike_mark, hleads]

theorem importsFrom_importWords (source source' : String) {start : List String}
    (hstart : start ∈ [["import"], ["import", "type"]]) :
    importsFrom source' (importWords start names source) =
      if source' = source then names else [] := by
  have hlist := namesBehind_list hnames ["\x7b", ","] "\x7b" (by decide)
  have htake : (importWords start names source).take 2 ∈ [["import", "\x7b"], ["import", "type"]] := by
    rcases List.mem_pair.1 hstart with rfl | rfl <;> simp [importWords]
  have hend : (importWords start names source).reverse.take 4 = [";", "'", source, "'"] := by
    simp [importWords]
  have hread : namesBehind ["\x7b", ","] "" (importWords start names source) = names := by
    rcases List.mem_pair.1 hstart with rfl | rfl <;>
      simp [importWords, namesBehind_append, namesBehind, hlist, nameLike_mark]
  unfold importsFrom
  rw [hend, hread]
  by_cases hsource : source' = source
  · simp [htake, hsource]
  · simp [hsource, Ne.symm hsource]

end

/-- A line of a file and its words, by what it is there for. -/
inductive HasRow (f : Sheet) : String → List String → Prop
  | runtimeImports (h : f.runtimeImports ≠ []) :
    HasRow f (importText "import" f.runtimeImports runtimeModule)
      (importWords ["import"] f.runtimeImports runtimeModule)
  | contextImports (h : f.contextImports ≠ []) :
    HasRow f (importText "import type" f.contextImports ("./" ++ f.parserModule))
      (importWords ["import", "type"] f.contextImports ("./" ++ f.parserModule))
  | main : HasRow f (f.main.head "export default class ")
      (f.main.headWords ["export", "default", "class"])
  | context {c : ClassSheet} (h : c ∈ f.contexts) :
    HasRow f (c.head "export declare class ") (c.headWords ["export", "declare", "class"])
  | line {c : ClassSheet} {l : Line} (hc : c ∈ f.classes) (hl : l ∈ c.lines) :
    HasRow f ("    " ++ l.text) l.words
  | close : HasRow f "\x7d" ["\x7d"]
  | blank : HasRow f "" []

theorem mem_importLine {row start source : String} {names : List String} :
    row ∈ importLine start names source ↔ names ≠ [] ∧ row = importText start names source := by
  unfold importLine
  split <;> simp_all

theorem exists_hasRow {f : Sheet} {row : String} (h : row ∈ f.rows) : ∃ ws, f.HasRow row ws := by
  simp only [rows, List.mem_append, List.mem_flatMap, List.mem_cons, ClassSheet.mem_rows,
    List.mem_ite_nil_left, List.not_mem_nil, or_false] at h
  rcases h with ((h | ⟨-, rfl⟩) | rfl | ⟨l, hl, rfl⟩ | rfl) |
    ⟨c, hc, rfl | rfl | ⟨l, hl, rfl⟩ | rfl⟩
  · simp only [importLines, List.mem_append, mem_importLine] at h
    rcases h with ⟨hne, rfl⟩ | ⟨hne, rfl⟩
    · exact ⟨_, .runtimeImports hne⟩
    · exact ⟨_, .contextImports hne⟩
  · exact ⟨_, .blank⟩
  · exact ⟨_, .main⟩
  · exact ⟨_, .line (List.mem_cons_self ..) hl⟩
  · exact ⟨_, .close⟩
  · exact ⟨_, .blank⟩
  · exact ⟨_, .context hc⟩
  · exact ⟨_, .line (List.mem_cons_of_mem _ hc) hl⟩
  · exact ⟨_, .close⟩

theorem HasRow.mem {f : Sheet} {row : String} {ws : List String} (h : f.HasRow row ws) :
    row ∈ f.rows ∨ ws = [] := by
  simp only [rows, importLines, List.mem_append, List.mem_flatMap, List.mem_cons, mem_importLine,
    ClassSheet.mem_rows]
  cases h with
  | runtimeImports h => simp [h]
  | contextImports h => simp [h]
  | main => simp
  | context hc => exact .inl (.inr ⟨_, hc, .inr (.inl rfl)⟩)
  | @line c l hc hl =>
    rcases List.mem_cons.1 hc with rfl | hc
    · exact .inl (.inl (.inr (.inr (.inl ⟨l, hl, rfl⟩))))
    · exact .inl (.inr ⟨c, hc, .inr (.inr (.inl ⟨l, hl, rfl⟩))⟩)
  | close => simp
  | blank => simp

/-- The names in a file can be read, and so can the place of the context classes it imports. -/
structure Legible (f : Sheet) : Prop where
  classes : ∀ c ∈ f.classes, c.Legible
  parserModule : f.contextImports ≠ [] → nameLike ("./" ++ f.parserModule) = true

namespace Legible

variable {f : Sheet} (h : f.Legible)
include h

theorem typeName_nameLike {n : TypeName} (hn : n ∈ f.typeNames) : nameLike n.text = true := by
  obtain ⟨c, hc, hn⟩ := List.mem_flatMap.1 hn
  rcases List.mem_append.1 hn with hn | hn
  · unfold ClassSheet.baseNames at hn
    rcases List.mem_cons.1 hn with rfl | hn
    · exact (h.classes c hc).base
    · split at hn
      · rw [List.mem_singleton.1 hn]
        decide +kernel
      · cases hn
  · obtain ⟨l, hl, hn⟩ := List.mem_flatMap.1 hn
    exact ((h.classes c hc).lines l hl).typeName_nameLike n hn

theorem runtimeImport_nameLike : ∀ n ∈ f.runtimeImports, nameLike n = true :=
  fun _ hn => h.typeName_nameLike (mem_runtimeImports.1 hn)

theorem contextImport_nameLike : ∀ n ∈ f.contextImports, nameLike n = true :=
  fun _ hn => h.typeName_nameLike (mem_contextImports.1 hn)

theorem prints {row : String} {ws : List String} (hrow : f.HasRow row ws) : Prints row ws := by
  have hmodule : nameLike runtimeModule = true := by decide +kernel
  have hindent : Leads "    " [] := by decide +kernel
  cases hrow with
  | runtimeImports => exact importText_prints h.runtimeImport_nameLike hmodule (by decide +kernel)
  | contextImports hne =>
    exact importText_prints h.contextImport_nameLike (h.parserModule hne) (by decide +kernel)
  | main => exact (h.classes _ (List.mem_cons_self ..)).head_prints (by decide +kernel)
  | context hc => exact (h.classes _ (List.mem_cons_of_mem _ hc)).head_prints (by decide +kernel)
  | line hc hl => exact hindent.before ((h.classes _ hc).lines _ hl).prints
  | close => decide +kernel
  | blank => decide +kernel

theorem mem_rows {ws : List String} : ws ∈ f.file.rows ↔ ∃ row, f.HasRow row ws := by
  have hlines : ∀ row ∈ f.rows, '\n' ∉ row.toList := by
    intro row hrow
    obtain ⟨ws, hrow⟩ := exists_hasRow hrow
    exact (h.prints hrow).oneLine
  have hblank : wordsOf "" = [] := by decide +kernel
  simp only [DeclarationFile.rows, file, text, splitChars_textOfRows hlines, List.map_append,
    List.map_map, List.mem_append, List.mem_map, List.map_singleton, List.mem_singleton,
    Function.comp_apply, String.ofList_toList]
  constructor
  · rintro (⟨row, hrow, rfl⟩ | rfl)
    · obtain ⟨ws, hrow⟩ := exists_hasRow hrow
      exact ⟨row, (h.prints hrow).words ▸ hrow⟩
    · exact ⟨"", .blank⟩
  · rintro ⟨row, hrow⟩
    rcases hrow.mem with hmem | rfl
    · exact .inl ⟨row, hmem, (h.prints hrow).words⟩
    · exact .inr rfl

theorem typeNames_main : Printed.typeNames (f.main.headWords ["export", "default", "class"]) =
    f.main.baseNames.map (·.text) :=
  (h.classes _ (List.mem_cons_self ..)).typeNames_head (by decide +kernel) (by decide)

theorem typeNames_context {c : ClassSheet} (hc : c ∈ f.contexts) :
    Printed.typeNames (c.headWords ["export", "declare", "class"]) = c.baseNames.map (·.text) :=
  (h.classes c (List.mem_cons_of_mem _ hc)).typeNames_head (by decide +kernel) (by decide)

theorem typeNames_line {c : ClassSheet} (hc : c ∈ f.classes) {l : Line} (hl : l ∈ c.lines) :
    Printed.typeNames l.words = l.own.toList ++ l.typeNames.map (·.text) :=
  ((h.classes c hc).lines l hl).typeNames_words

/-- The type names read off a line are those of the class or member that it prints. -/
theorem mem_typeNames {ws : List String} (hws : ws ∈ f.file.rows) {n : String}
    (hn : n ∈ Printed.typeNames ws) :
    (∃ c ∈ f.classes, ∃ t ∈ c.baseNames, n = t.text) ∨
      ∃ c ∈ f.classes, ∃ l ∈ c.lines, ws = l.words ∧
        (l.own = some n ∨ ∃ t ∈ l.typeNames, n = t.text) := by
  obtain ⟨row, hrow⟩ := h.mem_rows.1 hws
  cases hrow with
  | runtimeImports hne =>
    rw [typeNames_importWords h.runtimeImport_nameLike (by decide +kernel)] at hn
    cases hn
  | contextImports hne =>
    rw [typeNames_importWords h.contextImport_nameLike (by decide +kernel)] at hn
    cases hn
  | main =>
    rw [h.typeNames_main] at hn
    obtain ⟨t, ht, rfl⟩ := List.mem_map.1 hn
    exact .inl ⟨_, List.mem_cons_self .., t, ht, rfl⟩
  | context hc =>
    rw [h.typeNames_context hc] at hn
    obtain ⟨t, ht, rfl⟩ := List.mem_map.1 hn
    exact .inl ⟨_, List.mem_cons_of_mem _ hc, t, ht, rfl⟩
  | @line c l hc hl =>
    rw [h.typeNames_line hc hl] at hn
    refine .inr ⟨c, hc, l, hl, rfl, ?_⟩
    rcases List.mem_append.1 hn with hn | hn
    · exact .inl (Option.mem_toList.1 hn)
    · obtain ⟨t, ht, rfl⟩ := List.mem_map.1 hn
      exact .inr ⟨t, ht, rfl⟩
  | close => simp [Printed.typeNames, namesBehind, nameLike_mark] at hn
  | blank => cases hn

theorem exists_row {t : TypeName} (ht : t ∈ f.typeNames) :
    ∃ ws ∈ f.file.rows, t.text ∈ Printed.typeNames ws := by
  obtain ⟨c, hc, ht⟩ := List.mem_flatMap.1 ht
  rcases List.mem_append.1 ht with ht | ht
  · have ht' : t.text ∈ c.baseNames.map (·.text) := List.mem_map_of_mem ht
    rcases List.mem_cons.1 hc with rfl | hc
    · exact ⟨_, h.mem_rows.2 ⟨_, .main⟩, by rwa [h.typeNames_main]⟩
    · exact ⟨_, h.mem_rows.2 ⟨_, .context hc⟩, by rwa [h.typeNames_context hc]⟩
  · obtain ⟨l, hl, ht⟩ := List.mem_flatMap.1 ht
    refine ⟨_, h.mem_rows.2 ⟨_, .line hc hl⟩, ?_⟩
    rw [h.typeNames_line hc hl]
    exact List.mem_append_right _ (List.mem_map_of_mem ht)

theorem mem_imports {source n : String} : n ∈ f.file.imports source ↔
    source = runtimeModule ∧ n ∈ f.runtimeImports ∨
      source = "./" ++ f.parserModule ∧ n ∈ f.contextImports := by
  have hruntime := importsFrom_importWords h.runtimeImport_nameLike runtimeModule source
    (List.mem_pair.2 (.inl rfl))
  have hcontext := importsFrom_importWords h.contextImport_nameLike ("./" ++ f.parserModule) source
    (List.mem_pair.2 (.inr rfl))
  have hhead (c : ClassSheet) {start : List String} (hstart : start.head? = some "export") :
      importsFrom source (c.headWords start) = [] := by
    apply if_neg
    rintro ⟨htake, -⟩
    obtain ⟨start, rfl⟩ := List.head?_eq_some_iff.1 hstart
    simp [ClassSheet.headWords] at htake
  simp only [DeclarationFile.imports, List.mem_flatMap, h.mem_rows]
  constructor
  · rintro ⟨ws, ⟨row, hrow⟩, hn⟩
    cases hrow with
    | runtimeImports =>
      rw [hruntime] at hn
      split at hn
      · exact .inl ⟨‹_›, hn⟩
      · cases hn
    | contextImports =>
      rw [hcontext] at hn
      split at hn
      · exact .inr ⟨‹_›, hn⟩
      · cases hn
    | main =>
      rw [hhead _ rfl] at hn
      cases hn
    | context =>
      rw [hhead _ rfl] at hn
      cases hn
    | line => simp [Line.importsFrom_words] at hn
    | close => simp [importsFrom] at hn
    | blank => simp [importsFrom] at hn
  · rintro (⟨hsource, hn⟩ | ⟨hsource, hn⟩)
    · exact ⟨_, ⟨_, .runtimeImports (List.ne_nil_of_mem hn)⟩, by rwa [hruntime, if_pos hsource]⟩
    · exact ⟨_, ⟨_, .contextImports (List.ne_nil_of_mem hn)⟩, by rwa [hcontext, if_pos hsource]⟩

theorem mem_declared {n : String} (hn : n ∈ f.contexts.map (·.name)) : n ∈ f.file.declared := by
  obtain ⟨c, hc, rfl⟩ := List.mem_map.1 hn
  exact List.mem_filterMap.2 ⟨_, h.mem_rows.2 ⟨_, .context hc⟩, rfl⟩

end Legible

end Sheet

end Typings
