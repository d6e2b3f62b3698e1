import Mathlib.Data.String.Basic
import Typings.Compile.Tool
import Typings.Proofs.Text.Split

namespace Typings

/-- What a generated file holds. -/
inductive ArtifactRole
  | shared | lexer | parser | listener | visitor
deriving DecidableEq

namespace ArtifactRole

/-- What the name of a file says of it. -/
def word : ArtifactRole → List Char
  | shared => []
  | lexer => "Lexer".toList
  | parser => "Parser".toList
  | listener => "Listener".toList
  | visitor => "Visitor".toList

/-- The word where only the ending follows. -/
def mark (role : ArtifactRole) : List Char := role.word ++ ['.']

theorem word_not_suffix {role other : ArtifactRole} (hrole : role ≠ shared) (hne : other ≠ role) :
    ¬ role.word <:+ other.word := by
  revert hrole hne
  cases role <;> cases other <;> decide

end ArtifactRole

/-- The text ends as the names of listeners or visitors do that nobody wants. -/
def EndsUnwanted (listener visitor : Bool) (cs : List Char) : Prop :=
  (listener = false ∧ ArtifactRole.listener.word <:+ cs) ∨
    (visitor = false ∧ ArtifactRole.visitor.word <:+ cs)

/-- A file that is generated for a grammar. -/
structure Artifact where
  grammar : String
  role : ArtifactRole
  ending : String
  grammar_plain : '.' ∉ grammar.toList
  ending_plain : containsAny ([ArtifactRole.lexer, .parser, .listener, .visitor].map (·.mark))
    ending.toList = false

namespace Artifact

/-- The name without its ending. -/
def stem (a : Artifact) : List Char := a.grammar.toList ++ a.role.word

def name (a : Artifact) : String := String.ofList (a.stem ++ '.' :: a.ending.toList)

/-- Whether the file is asked for. -/
def isRequested (listener visitor : Bool) (a : Artifact) : Bool :=
  (listener || a.role ≠ .listener) && (visitor || a.role ≠ .visitor)

variable {a : Artifact} {role : ArtifactRole} {base : String} {listener visitor : Bool}

theorem stem_plain (a : Artifact) : '.' ∉ a.stem := by
  have hword : '.' ∉ a.role.word := by cases a.role <;> decide
  rw [stem, List.mem_append, not_or]
  exact ⟨a.grammar_plain, hword⟩

theorem toList_name (a : Artifact) : a.name.toList = a.stem ++ '.' :: a.ending.toList :=
  String.toList_ofList

/-- Roles are seen in a name exactly where the stem ends with the word of one. -/
theorem containsAny_name_iff {roles : List ArtifactRole} (hroles : .shared ∉ roles) :
    containsAny (roles.map (·.mark)) a.name.toList = true ↔
      ∃ role ∈ roles, role.word <:+ a.stem := by
  simp only [containsAny_iff, List.mem_map, exists_exists_and_eq_and]
  refine exists_congr fun role => and_congr_right fun hrole => ?_
  have hword : '.' ∉ role.word := by cases role <;> decide
  have hmem : role.mark ∈ [ArtifactRole.lexer, .parser, .listener, .visitor].map (·.mark) := by
    cases role with
    | shared => exact absurd hrole hroles
    | _ => simp
  have hending : ¬ role.mark <:+: a.ending.toList := fun h =>
    Bool.eq_false_iff.1 a.ending_plain (containsAny_iff.2 ⟨_, hmem, h⟩)
  rw [toList_name, ArtifactRole.mark, marked_infix_iff hword a.stem_plain]
  exact or_iff_left hending

/-- A stem ends with the word of its role, or with one that ends the name of the grammar. -/
theorem word_suffix_stem_iff (hrole : role ≠ .shared) :
    role.word <:+ a.stem ↔ a.role = role ∨ a.role = .shared ∧ role.word <:+ a.grammar.toList := by
  rw [stem]
  by_cases hsame : a.role = role
  · rw [hsame]
    exact iff_of_true (List.suffix_append ..) (.inl rfl)
  by_cases hshared : a.role = .shared
  · have hempty : a.role.word = [] := congrArg ArtifactRole.word hshared
    rw [hempty, List.append_nil, or_iff_right hsame]
    exact (and_iff_right hshared).symm
  · refine iff_of_false (fun h => ?_) (by simp [hsame, hshared])
    rcases List.suffix_or_suffix_of_suffix h (List.suffix_append ..) with h | h
    · exact ArtifactRole.word_not_suffix hrole hsame h
    · exact ArtifactRole.word_not_suffix hshared (Ne.symm hsame) h

theorem isGenerated_name_iff (hbase : '.' ∉ base.toList) :
    isGenerated base listener visitor a.name = true ↔
      base.toList <+: a.stem ∧ ¬ EndsUnwanted listener visitor a.stem := by
  have hlistener : ["Listener.".toList] = [ArtifactRole.listener].map (·.mark) := rfl
  have hvisitor : ["Visitor.".toList] = [ArtifactRole.visitor].map (·.mark) := rfl
  have hinit : base.toList <+: a.name.toList ↔ base.toList <+: a.stem := by
    rw [toList_name, prefix_marked_iff hbase]
  rw [isGenerated, hlistener, hvisitor, EndsUnwanted]
  simp only [Bool.and_eq_true, Bool.or_eq_true, Bool.not_eq_true', ← Bool.not_eq_true,
    List.isPrefixOf_iff_prefix, hinit]
  rw [containsAny_name_iff (by decide), containsAny_name_iff (by decide)]
  simp only [List.mem_singleton, exists_eq_left, not_or, not_and_or, not_not, and_assoc]

theorem endsUnwanted_stem_iff :
    EndsUnwanted listener visitor a.stem ↔ a.isRequested listener visitor = false ∨
      a.role = .shared ∧ EndsUnwanted listener visitor a.grammar.toList := by
  have hrequested : a.isRequested listener visitor = false ↔
      listener = false ∧ a.role = .listener ∨ visitor = false ∧ a.role = .visitor := by
    simp only [isRequested, Bool.and_eq_false_iff, Bool.or_eq_false_iff, decide_eq_false_iff_not,
      not_not]
  rw [EndsUnwanted, EndsUnwanted, word_suffix_stem_iff (by decide),
    word_suffix_stem_iff (by decide), hrequested, and_or_left, and_or_left, and_or_left,
    or_or_or_comm]
  exact or_congr_right (or_congr and_left_comm and_left_comm)

theorem isRecognizer_name_iff :
    isRecognizer a.name = true ↔ ∃ role ∈ [ArtifactRole.lexer, .parser],
      a.role = role ∨ a.role = .shared ∧ role.word <:+ a.grammar.toList := by
  have hmarks : ["Lexer.".toList, "Parser.".toList] =
      [ArtifactRole.lexer, .parser].map (·.mark) := rfl
  rw [isRecognizer, hmarks, containsAny_name_iff (by decide)]
  refine exists_congr fun role => and_congr_right fun hmem => word_suffix_stem_iff ?_
  rintro rfl
  exact absurd hmem (by decide)

/-- A recognizer tells its grammar unless the word for a recognizer stands in the grammar's name. -/
theorem recognizerBase_name_iff (h : isRecognizer a.name = true) :
    recognizerBase a.name = a.grammar ↔
      containsAny ["Lexer".toList, "Parser".toList] a.grammar.toList = false := by
  have hname : a.name.toList = a.grammar.toList ++ (a.role.word ++ '.' :: a.ending.toList) := by
    rw [toList_name, stem, List.append_assoc]
  rw [recognizerBase, hname, ← String.toList_inj, String.toList_ofList]
  constructor
  · intro heq
    by_contra hcontains
    rw [Bool.not_eq_false] at hcontains
    have hlt := length_beforeAny_lt (by decide) hcontains (a.role.word ++ '.' :: a.ending.toList)
    rw [heq] at hlt
    exact lt_irrefl _ hlt
  · intro hcontains
    obtain ⟨role, hmem, hrole | ⟨_, hsuffix⟩⟩ := isRecognizer_name_iff.1 h
    · rw [List.mem_pair] at hmem
      rcases hmem with rfl | rfl
      · rw [hrole]
        exact beforeAny_append (c := 'L') (by decide) hcontains
          (startsWithAny_iff.2 ⟨ArtifactRole.lexer.word, by decide, List.prefix_append ..⟩)
      · rw [hrole]
        exact beforeAny_append (c := 'P') (by decide) hcontains
          (startsWithAny_iff.2 ⟨ArtifactRole.parser.word, by decide, List.prefix_append ..⟩)
    · have hword : role.word ∈ ["Lexer".toList, "Parser".toList] := List.mem_map_of_mem hmem
      exact absurd (containsAny_iff.2 ⟨_, hword, hsuffix.isInfix⟩) (Bool.eq_false_iff.1 hcontains)

end Artifact

/-- A directory that holds the files of a grammar among those of others. -/
structure OutputListing (grammar : String) (own others : List Artifact) (names : List String) :
    Prop where
  distinct : names.Nodup
  mem_iff : ∀ name, name ∈ names ↔ ∃ a ∈ own ++ others, a.name = name
  of_own : ∀ a ∈ own, a.grammar = grammar
  of_others : ∀ b ∈ others, b.grammar ≠ grammar
  shared : ∃ a ∈ own, a.role = .shared
  recognizer : ∃ a ∈ own, a.role = .lexer ∨ a.role = .parser

/-- No other file is named as if it were of the grammar, and the name of the grammar has no word in
it by which its files are told apart. -/
structure Attributable (grammar : String) (listener visitor : Bool) (own others : List Artifact) :
    Prop where
  others_left : ∀ b ∈ others, grammar.toList <+: b.stem → EndsUnwanted listener visitor b.stem ∨
    ∃ a ∈ own, a.isRequested listener visitor = true ∧ a.name = b.name
  own_kept : ¬ EndsUnwanted listener visitor grammar.toList
  no_recognizer_word : containsAny ["Lexer".toList, "Parser".toList] grammar.toList = false

variable {grammar base : String} {own others : List Artifact} {names : List String}
  {listener visitor : Bool}

theorem mem_generatedNames {name : String} : name ∈ generatedNames base listener visitor names ↔
    name ∈ names ∧ isGenerated base listener visitor name = true := by
  rw [generatedNames, List.mem_mergeSort, List.mem_filter]

theorem pairwise_generatedNames (h : names.Nodup) :
    (generatedNames base listener visitor names).Pairwise (· < ·) := by
  unfold generatedNames
  set kept := names.filter (isGenerated base listener visitor)
  have hsorted : (kept.mergeSort fun a b => decide (a ≤ b)).Pairwise
      fun a b => decide (a ≤ b) = true :=
    List.pairwise_mergeSort (fun a b c => by simpa using String.le_trans)
      (fun a b => by simpa using String.le_total a b) kept
  have hdistinct : (kept.mergeSort fun a b => decide (a ≤ b)).Nodup :=
    (List.mergeSort_perm ..).nodup_iff.2 (h.filter _)
  exact hsorted.imp₂ (fun a b hle hne => Std.lt_of_le_of_ne (of_decide_eq_true hle) hne) hdistinct

theorem generatedFiles_eq {t : FileTree} {directory : Path} (h : t.names directory = .ok names) :
    generatedFiles t directory base listener visitor =
      .ok (generatedNames base listener visitor names) := by
  rw [generatedFiles, h]

namespace OutputListing

theorem isGenerated_own_iff (hlist : OutputListing grammar own others names) {a : Artifact}
    (ha : a ∈ own) : isGenerated grammar listener visitor a.name = true ↔
      a.isRequested listener visitor = true ∧
        ¬ (a.role = .shared ∧ EndsUnwanted listener visitor grammar.toList) := by
  obtain rfl := hlist.of_own a ha
  have hinit : a.grammar.toList <+: a.stem := List.prefix_append ..
  rw [Artifact.isGenerated_name_iff a.grammar_plain, Artifact.endsUnwanted_stem_iff, not_or,
    Bool.not_eq_false]
  exact and_iff_right hinit

theorem plain (hlist : OutputListing grammar own others names) : '.' ∉ grammar.toList := by
  obtain ⟨a, ha, _⟩ := hlist.shared
  exact hlist.of_own a ha ▸ a.grammar_plain

theorem mem_generatedNames_iff (hlist : OutputListing grammar own others names)
    (h : Attributable grammar listener visitor own others) (name : String) :
    name ∈ generatedNames grammar listener visitor names ↔
      ∃ a ∈ own, a.isRequested listener visitor = true ∧ a.name = name := by
  rw [mem_generatedNames, hlist.mem_iff]
  constructor
  · rintro ⟨⟨a, ha, rfl⟩, hgenerated⟩
    rcases List.mem_append.1 ha with ha | ha
    · exact ⟨a, ha, ((hlist.isGenerated_own_iff ha).1 hgenerated).1, rfl⟩
    · obtain ⟨hinit, hends⟩ := (Artifact.isGenerated_name_iff hlist.plain).1 hgenerated
      exact (h.others_left a ha hinit).resolve_left hends
  · rintro ⟨a, ha, hrequested, rfl⟩
    exact ⟨⟨a, List.mem_append_left _ ha, rfl⟩,
      (hlist.isGenerated_own_iff ha).2 ⟨hrequested, fun hends => h.own_kept hends.2⟩⟩

/-- Of what is found by such names, the first recognizer is one of the grammar. -/
theorem grammarName_iff (hlist : OutputListing grammar own others names) {found : List String}
    (hfound : ∀ name, name ∈ found ↔
      ∃ a ∈ own, a.isRequested listener visitor = true ∧ a.name = name) :
    grammarName found grammar = grammar ↔
      containsAny ["Lexer".toList, "Parser".toList] grammar.toList = false := by
  obtain ⟨a, ha, hrole⟩ := hlist.recognizer
  have hrequested : a.isRequested listener visitor = true := by
    rcases hrole with hrole | hrole <;> simp [Artifact.isRequested, hrole]
  have hrecognizer : isRecognizer a.name = true := by
    have hmem : a.role ∈ [ArtifactRole.lexer, .parser] := List.mem_pair.2 hrole
    exact Artifact.isRecognizer_name_iff.2 ⟨a.role, hmem, .inl rfl⟩
  have hsome : (found.find? isRecognizer).isSome = true :=
    List.find?_isSome.2 ⟨a.name, (hfound _).2 ⟨a, ha, hrequested, rfl⟩, hrecognizer⟩
  obtain ⟨first, hfirst⟩ := Option.isSome_iff_exists.1 hsome
  obtain ⟨b, hb, _, rfl⟩ := (hfound first).1 (List.mem_of_find?_eq_some hfirst)
  obtain rfl := hlist.of_own b hb
  rw [grammarName, hfirst]
  exact Artifact.recognizerBase_name_iff (List.find?_some hfirst)

end OutputListing

/-- Exactly the files of a grammar are found, in order, and tell the grammar back, just when their
names differ from those of others in how they start and end. -/
theorem output_attributed_iff {t : FileTree} {directory : Path}
    (hnames : t.names directory = .ok names) (hlist : OutputListing grammar own others names) :
    (∃ found, generatedFiles t directory grammar listener visitor = .ok found ∧
      found.Pairwise (· < ·) ∧
      (∀ name, name ∈ found ↔ ∃ a ∈ own, a.isRequested listener visitor = true ∧ a.name = name) ∧
      grammarName found grammar = grammar) ↔
    Attributable grammar listener visitor own others := by
  rw [generatedFiles_eq hnames]
  constructor
  · rintro ⟨found, hok, -, hfound, hgrammar⟩
    obtain rfl := Except.ok.inj hok
    refine ⟨fun b hb hinit => ?_, fun hends => ?_, (hlist.grammarName_iff hfound).1 hgrammar⟩
    · rw [or_iff_not_imp_left, ← hfound, mem_generatedNames, hlist.mem_iff]
      exact fun hends => ⟨⟨b, List.mem_append_right _ hb, rfl⟩,
        (Artifact.isGenerated_name_iff hlist.plain).2 ⟨hinit, hends⟩⟩
    · -- the files that lexer and parser share would be left out
      obtain ⟨a, ha, hrole⟩ := hlist.shared
      have hrequested : a.isRequested listener visitor = true := by
        simp [Artifact.isRequested, hrole]
      have hmem := (hfound a.name).2 ⟨a, ha, hrequested, rfl⟩
      exact ((hlist.isGenerated_own_iff ha).1 (mem_generatedNames.1 hmem).2).2 ⟨hrole, hends⟩
  · intro h
    have hfound := hlist.mem_generatedNames_iff h
    exact ⟨_, rfl, pairwise_generatedNames hlist.distinct, hfound,
      (hlist.grammarName_iff hfound).2 h.no_recognizer_word⟩

/-- The files of a grammar with a lexer and a parser. -/
def Artifact.ofCombined (grammar : String) (h : '.' ∉ grammar.toList) : List Artifact :=
  [⟨grammar, .shared, "tokens", h, by decide⟩, ⟨grammar, .lexer, "js", h, by decide⟩,
    ⟨grammar, .parser, "js", h, by decide⟩, ⟨grammar, .listener, "js", h, by decide⟩]

def FileTree.ofNames (names : List String) : FileTree :=
  { entries := names.map fun name => ([name], .file ByteArray.empty) }

theorem output_attributed_iff_otherName :
    ∃ found, generatedFiles (.ofNames ((Artifact.ofCombined "Calc" (by decide) ++
        Artifact.ofCombined "Json" (by decide)).map (·.name))) ⟨"."⟩ "Calc" false false =
          .ok found ∧
      found.Pairwise (· < ·) ∧
      (∀ name, name ∈ found ↔ ∃ a ∈ Artifact.ofCombined "Calc" (by decide),
        a.isRequested false false = true ∧ a.name = name) ∧
      grammarName found "Calc" = "Calc" := by
  have hnames : (FileTree.ofNames ((Artifact.ofCombined "Calc" (by decide) ++
      Artifact.ofCombined "Json" (by decide)).map (·.name))).names ⟨"."⟩ =
        .ok ((Artifact.ofCombined "Calc" (by decide) ++
          Artifact.ofCombined "Json" (by decide)).map (·.name)) := by
    decide +kernel
  have hlist : OutputListing "Calc" (Artifact.ofCombined "Calc" (by decide))
      (Artifact.ofCombined "Json" (by decide)) ((Artifact.ofCombined "Calc" (by decide) ++
        Artifact.ofCombined "Json" (by decide)).map (·.name)) := {
    distinct := by decide +kernel
    mem_iff := fun _ => List.mem_map
    of_own := by simp [Artifact.ofCombined]
    of_others := by simp [Artifact.ofCombined]
    shared := ⟨_, List.mem_cons_self, rfl⟩
    recognizer := ⟨_, List.mem_cons_of_mem _ List.mem_cons_self, .inl rfl⟩ }
  have hother : ∀ b ∈ Artifact.ofCombined "Json" (by decide), ¬ "Calc".toList <+: b.stem := by
    decide +kernel
  exact (output_attributed_iff hnames hlist).2 {
    others_left := fun b hb hinit => absurd hinit (hother b hb)
    own_kept := by
      unfold EndsUnwanted
      decide
    no_recognizer_word := by decide }

def namesOfTwo : List String :=
  ["Calc.tokens", "Calc2.tokens", "Calc2Lexer.js", "Calc2Listener.js", "Calc2Parser.js",
    "CalcLexer.js", "CalcListener.js", "CalcParser.js"]

/-- A grammar whose name is the start of another's gets the files of both, and the other's name. -/
theorem longer_grammar_taken :
    namesOfTwo.Perm ((Artifact.ofCombined "Calc" (by decide) ++
        Artifact.ofCombined "Calc2" (by decide)).map (·.name)) ∧
      generatedFiles (.ofNames namesOfTwo) ⟨"."⟩ "Calc" true true = .ok namesOfTwo ∧
      grammarName namesOfTwo "Calc" = "Calc2" := by
  have hnames : (FileTree.ofNames namesOfTwo).names ⟨"."⟩ = .ok namesOfTwo := by decide +kernel
  have hkept : namesOfTwo.filter (isGenerated "Calc" true true) = namesOfTwo := by decide +kernel
  have hsorted : namesOfTwo.Pairwise fun a b => decide (a ≤ b) = true := by decide +kernel
  refine ⟨by decide +kernel, ?_, by decide +kernel⟩
  rw [generatedFiles_eq hnames, generatedNames, hkept, List.mergeSort_of_pairwise hsorted]

end Typings
