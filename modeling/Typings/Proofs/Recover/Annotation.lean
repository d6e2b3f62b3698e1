import Typings.Proofs.Text.Pattern
import Typings.Recover.Annotation

namespace Typings

namespace AnnotationStrategy

theorem withinLine_pattern (strategy : AnnotationStrategy) :
    strategy.pattern.withinLine = true := by
  cases strategy <;> decide

theorem annotate?_lineFeed (strategy : AnnotationStrategy) (field a b : String) :
    strategy.annotate? field (a ++ "\n" ++ b) =
      (strategy.annotate? field a).or (strategy.annotate? field b) := by
  have hchars : (a ++ "\n" ++ b).toList = a.toList ++ '\n' :: b.toList := by simp
  rw [annotate?, annotate?, annotate?, hchars,
    Pattern.findAll_append_lineFeed strategy.withinLine_pattern, List.filter_append,
    List.findSome?_append]

end AnnotationStrategy

/--
What a strategy finds for a field in two texts with a line feed between them is what it finds in the
first, and else what it finds in the second. So a source gives the field the type that the first of
its lines does that gives one, and each line gives what it gives alone.
-/
theorem annotations_found_by_line (strategy : AnnotationStrategy) (field : String) :
    (∀ a b, strategy.annotate? field (a ++ "\n" ++ b) =
      (strategy.annotate? field a).or (strategy.annotate? field b)) ∧
    ∀ lines, strategy.annotate? field ("\n".intercalate lines) =
      lines.findSome? (strategy.annotate? field) := by
  refine ⟨strategy.annotate?_lineFeed field, fun lines => ?_⟩
  induction lines with
  | nil => rfl
  | cons line lines ih =>
    cases lines with
    | nil => simp
    | cons next lines =>
      rw [String.intercalate_cons_cons, strategy.annotate?_lineFeed, ih]
      cases hline : strategy.annotate? field line <;> simp [List.findSome?_cons, hline]

namespace Annotation

open Pattern

variable {before : Option Char} {cs v : List Char}

/-- A name of letters, digits, underscores and dollar signs that does not start with a digit. -/
def isPlainName (cs : List Char) : Bool :=
  cs.head?.any startsName && cs.all fun c => startsName c || isDigit c

theorem toNat_lt_of_le {c d : Char} (h : c ≤ d) (hd : d.toNat < 128) : c.toNat < 128 :=
  Nat.lt_of_le_of_lt (UInt32.le_iff_toNat_le.1 (Char.le_def.1 h)) hd

theorem continuesName_of_plain {c : Char} (h : startsName c = true ∨ isDigit c = true) :
    continuesName c = true := by
  have hlt : c.toNat < 128 := by
    simp only [startsName, isAsciiLetter, isDigit, Bool.or_eq_true, Bool.and_eq_true,
      decide_eq_true_eq, beq_iff_eq] at h
    rcases h with (((h | h) | rfl) | rfl) | h
    · exact toNat_lt_of_le h.2 (by decide)
    · exact toNat_lt_of_le h.2 (by decide)
    · decide
    · decide
    · exact toNat_lt_of_le h.2 (by decide)
  grind [startsName, continuesName, isWord]

theorem exists_of_isPlainName (h : isPlainName cs = true) :
    ∃ c rest, cs = c :: rest ∧ startsName c = true ∧ ∀ d ∈ cs, continuesName d = true := by
  simp only [isPlainName, Bool.and_eq_true, List.all_eq_true, Bool.or_eq_true] at h
  obtain ⟨hhead, hall⟩ := h
  cases cs with
  | nil => cases hhead
  | cons c rest => exact ⟨c, rest, rfl, hhead, fun d hd => continuesName_of_plain (hall d hd)⟩

theorem not_isGap_of_continuesName {c : Char} (h : continuesName c = true) : isGap c = false := by
  by_contra hgap
  simp only [isGap, Bool.not_eq_false, Bool.or_eq_true, beq_iff_eq] at hgap
  rcases hgap with rfl | rfl <;> revert h <;> decide

theorem isPlainName_append (h : isPlainName cs = true) : isPlainName (cs ++ ['s']) = true := by
  obtain ⟨c, rest, rfl, _, _⟩ := exists_of_isPlainName h
  have hs : startsName 's' = true := by decide
  simp only [isPlainName, List.cons_append, List.head?_cons, List.all_cons, List.all_append,
    Bool.and_eq_true] at h ⊢
  simp [h, hs]

theorem takes_name (hname : isPlainName cs = true) (hv : ∀ c ∈ v.head?, continuesName c = false) :
    Annotation.name.Takes before cs v [] := by
  obtain ⟨c, rest, rfl, hc, hrest⟩ := exists_of_isPlainName hname
  exact .seq (u := [c]) (.one hc _) (.many (fun d hd => hrest d (List.mem_cons_of_mem _ hd)) hv)

theorem takes_blank (hv : ∀ c ∈ v.head?, isGap c = false) : gap.Takes before [' '] v [] :=
  .many (by simp [isGap]) hv

theorem takes_nothing (hv : ∀ c ∈ v.head?, isGap c = false) : gap.Takes before [] v [] :=
  .many (by simp) hv

theorem takes_this (hbefore : before.any isWord = false) :
    receiver.Takes before "this.".toList v [] := by
  refine .altLeft (.seq (u := []) (v := "this.".toList) (.wordBoundary ?_) (.text _ _))
  have hword : isWord 't' = true := by decide
  simp [isWordBoundary, hbefore, hword]

theorem ways_of_eq_nil (h : ∀ c ∈ cs, isGap c = false) :
    (.text "of" ++ .one isGap ++ gap : Pattern).ways before cs = [] := by
  refine ways_seq_of_nil (ways_seq_eq_nil fun w _ => ?_)
  cases hrest : cs.drop w.1 with
  | nil => rfl
  | cons c rest =>
    have hc : c ∈ cs := List.mem_of_mem_drop (hrest ▸ List.mem_cons_self)
    simp [ways, h c hc]

structure GeneratedLine where
  indent : List Char
  field : List Char
  type : List Char
  isList : Bool
  isClosed : Bool
  isGap_of_mem : ∀ c ∈ indent, isGap c = true
  plainField : isPlainName field = true
  plainType : isPlainName type = true

namespace GeneratedLine

variable (line : GeneratedLine)

def value : List Char := if line.isList then "[]".toList else "null".toList

/-- What stands before the type. -/
def lead : List Char := if line.isList then "of ".toList else []

def name : List Char := if line.isList then line.type ++ ['s'] else line.type

def ending : List Char := if line.isClosed then ";".toList else []

/-- The line without its indentation. -/
def body : List Char :=
  "this.".toList ++ (line.field ++ (" = ".toList ++ (line.value ++ ("; // ".toList ++ (line.lead ++
    (line.name ++ line.ending))))))

def text : List Char := line.indent ++ line.body

/-- The type that the line is generated for. -/
def typeRef : TypeRef :=
  if line.isList then .list (.named (String.ofList line.type)) else .named (String.ofList line.type)

theorem plainName : isPlainName line.name = true := by
  rw [name]
  split
  · exact isPlainName_append line.plainType
  · exact line.plainType

theorem namedType_eq : namedType line.value line.name = line.typeRef := by
  cases h : line.isList <;> simp [namedType, value, name, typeRef, singular, h]

theorem takes_assigned (hbefore : before.any isWord = false) (hv : ∀ c ∈ v.head?, isGap c = false) :
    assigned.Takes before ("this.".toList ++ line.field ++ [' '] ++ "=".toList ++ [' ']) v
      [line.field] := by
  refine .seq (.seq (.seq (.seq (takes_this hbefore) (.group (takes_name line.plainField ?_)))
    (takes_blank ?_)) (.text _ _)) (takes_blank hv)
  · have hspace : continuesName ' ' = false := by decide
    simp [hspace]
  · simp [isGap]

theorem takes_value : emptyValue.Takes before line.value v [] := by
  rw [value]
  split
  · have hparts : emptyValue.Takes before ("[".toList ++ [] ++ "]".toList) v [] := by
      refine .altRight ?_ (.seq (.seq (.text _ _) (takes_nothing ?_)) (.text _ _))
      · simp [ways]
      · simp [isGap]
    exact hparts
  · exact .altLeft (.text _ _)

theorem takes_ending : semicolon.Takes before line.ending [] [] := by
  rw [ending]
  split
  · exact .optional (.text _ _)
  · exact .notOptional rfl

theorem not_isGap_of_mem : ∀ c ∈ line.name ++ line.ending, isGap c = false := by
  obtain ⟨_, _, _, _, hchars⟩ := exists_of_isPlainName line.plainName
  intro c hc
  rcases List.mem_append.1 hc with hc | hc
  · exact not_isGap_of_continuesName (hchars c hc)
  · rw [ending] at hc
    split at hc
    · cases List.mem_singleton.1 hc
      decide
    · cases hc

theorem takes_lead : (Pattern.optional (.text "of" ++ .one isGap ++ gap)).Takes before line.lead
    (line.name ++ line.ending) [] := by
  have hgap := line.not_isGap_of_mem
  rw [lead]
  split
  · have hparts : (Pattern.optional (.text "of" ++ .one isGap ++ gap)).Takes before
        ("of".toList ++ [' '] ++ []) (line.name ++ line.ending) [] := by
      refine .optional (.seq (.seq (.text _ _) (.one (by decide) _)) (takes_nothing fun c hc => ?_))
      exact hgap c (List.mem_of_mem_head? hc)
    exact hparts
  · exact .notOptional (ways_of_eq_nil hgap)

theorem takes_typedValue :
    typedValue.Takes before (line.value ++ [] ++ ";".toList ++ [' '] ++ "//".toList ++ [' '] ++
      line.lead ++ line.name ++ [] ++ line.ending) [] [line.value, line.name] := by
  have hlead (before : Option Char) : (Pattern.optional (.text "of" ++ .one isGap ++ gap)).Takes
      before line.lead (line.name ++ ([] ++ (line.ending ++ []))) [] := by
    simpa using line.takes_lead
  refine .seq (.seq (.seq (.seq (.seq (.seq (.seq (.seq (.seq (.group line.takes_value)
    (takes_nothing ?_)) (.optional (.text _ _))) (takes_blank ?_)) (.text _ _)) (takes_blank ?_))
    (hlead _)) (.group (takes_name line.plainName ?_))) (takes_nothing ?_)) line.takes_ending
  · simp [isGap]
  · simp [isGap]
  · rw [lead]
    split
    · simp [isGap]
    · intro c hc
      refine line.not_isGap_of_mem c (List.mem_of_mem_head? ?_)
      simpa using hc
  · rw [ending]
    split
    · have hsemicolon : continuesName ';' = false := by decide
      simp [hsemicolon]
    · simp
  · rw [ending]
    split <;> simp [isGap]

theorem takes_body (hbefore : before.any isWord = false) :
    commented.Takes before line.body [] [line.field, line.value, line.name] := by
  have hbody : line.body = "this.".toList ++ line.field ++ [' '] ++ "=".toList ++ [' '] ++
      (line.value ++ [] ++ ";".toList ++ [' '] ++ "//".toList ++ [' '] ++ line.lead ++ line.name ++
        [] ++ line.ending) := by
    have hequals : " = ".toList = [' '] ++ ("=".toList ++ [' ']) := by decide
    have hcomment : "; // ".toList = ";".toList ++ ([' '] ++ ("//".toList ++ [' '])) := by decide
    unfold body
    simp only [hequals, hcomment, List.append_assoc, List.nil_append]
  rw [hbody]
  refine Takes.seq (line.takes_assigned hbefore ?_) line.takes_typedValue
  rw [value]
  split <;> simp [isGap]

end GeneratedLine

theorem ways_this_eq_nil {c : Char} (hc : c ≠ 't') :
    (.wordBoundary ++ .text "this." : Pattern).ways before (c :: cs) = [] := by
  refine ways_seq_eq_nil fun w hw => ?_
  have hzero : w.1 = 0 := by
    rw [ways] at hw
    split at hw
    · rw [List.mem_singleton.1 hw]
    · cases hw
  simp [hzero, ways, List.isPrefixOf, Ne.symm hc]

theorem ways_name_eq_nil (h : ∀ c ∈ cs.head?, startsName c = false) :
    Annotation.name.ways before cs = [] := by
  refine ways_seq_of_nil ?_
  cases cs with
  | nil => rfl
  | cons c cs => simp [ways, h c rfl]

theorem ways_equals_eq_nil (h : ∀ c ∈ cs.head?, isGap c = false ∧ c ≠ '=') :
    (gap ++ (.text "=" ++ gap) : Pattern).ways before cs = [] := by
  refine ways_seq_eq_nil fun w hw => ways_seq_of_nil ?_
  rw [gap, ways_many_of_not fun c hc => (h c hc).1, List.mem_singleton] at hw
  rw [hw, List.drop_zero]
  cases cs with
  | nil => simp [ways]
  | cons c cs => simp [ways, List.isPrefixOf, Ne.symm (h c rfl).2]

theorem ways_field_this :
    (.group Annotation.name ++ (gap ++ (.text "=" ++ gap)) : Pattern).ways before
      ("this.".toList ++ v) = [] := by
  have hstarts : startsName 't' = true := by decide
  have hparts : [continuesName 'h', continuesName 'i', continuesName 's', continuesName '.'] =
      [true, true, true, false] := by decide
  simp only [List.cons.injEq, and_true] at hparts
  refine ways_seq_eq_nil fun w hw => ways_equals_eq_nil ?_
  have hways : Annotation.name.ways before ("this.".toList ++ v) =
      [(4, []), (3, []), (2, []), (1, [])] := by
    show (seq (one startsName) (many continuesName)).ways _ _ = _
    have hrange : List.range 4 = [0, 1, 2, 3] := rfl
    simp [ways, hstarts, hparts, hrange]
  rw [ways, hways] at hw
  simp only [List.map_cons, List.map_nil, List.mem_cons, List.not_mem_nil, or_false] at hw
  rcases hw with rfl | rfl | rfl | rfl
  all_goals simp [isGap]

theorem ne_of_isGap {c : Char} (h : isGap c = true) :
    c ≠ 't' ∧ startsName c = false ∧ isWord c = false := by
  simp only [isGap, Bool.or_eq_true, beq_iff_eq] at h
  rcases h with rfl | rfl <;> decide

section Indentation

variable {indent : List Char} (hindent : ∀ c ∈ indent, isGap c = true)
include hindent

theorem le_of_mem_ways_receiver {w : Nat × List (List Char)} (hne : indent ≠ [])
    (hw : w ∈ receiver.ways before (indent ++ ("this.".toList ++ v))) : w.1 ≤ indent.length := by
  have hthis : (.wordBoundary ++ .text "this." : Pattern).ways before
      (indent ++ ("this.".toList ++ v)) = [] := by
    obtain ⟨c, rest, rfl⟩ := List.exists_cons_of_ne_nil hne
    exact ways_this_eq_nil (ne_of_isGap (hindent c List.mem_cons_self)).1
  have htake : (indent ++ ("this.".toList ++ v)).takeWhile isGap = indent := by
    rw [List.takeWhile_append_of_pos hindent]
    simp [isGap]
  rw [receiver, ways, hthis, List.nil_append] at hw
  obtain ⟨x, hx, hw⟩ := List.mem_flatMap.1 hw
  obtain ⟨y, hy, rfl⟩ := List.mem_map.1 hw
  have hzero : x.1 = 0 := by
    rw [ways] at hx
    split at hx
    · rw [List.mem_singleton.1 hx]
    · cases hx
  rw [hzero, List.drop_zero, gap, ways, htake] at hy
  obtain ⟨n, hn, rfl⟩ := List.mem_map.1 hy
  rw [List.mem_reverse, List.mem_range] at hn
  show x.1 + n ≤ indent.length
  omega

theorem ways_assigned_indent (hne : indent ≠ []) :
    assigned.ways before (indent ++ ("this.".toList ++ v)) = [] := by
  rw [assigned, ways_append_assoc, ways_append_assoc, ways_append_assoc]
  refine ways_seq_eq_nil fun w hw => ?_
  have hle := le_of_mem_ways_receiver hindent hne hw
  rcases Nat.lt_or_eq_of_le hle with hlt | heq
  · -- A blank is left, and no name starts with it.
    refine ways_seq_of_nil ?_
    rw [ways, ways_name_eq_nil, List.map_nil]
    intro c hc
    rw [List.head?_drop, List.getElem?_append_left hlt] at hc
    exact (ne_of_isGap (hindent c (List.mem_of_getElem? hc))).2.1
  · rw [heq, List.drop_left]
    exact ways_field_this

theorem search_indent (hbefore : before.any isWord = false) :
    ∃ before' : Option Char, before'.any isWord = false ∧
      commented.search 0 before (indent ++ ("this.".toList ++ v)) =
        commented.search 0 before' ("this.".toList ++ v) := by
  induction indent generalizing before with
  | nil => exact ⟨before, hbefore, rfl⟩
  | cons c indent ih =>
    have hword : (some c).any isWord = false := (ne_of_isGap (hindent c List.mem_cons_self)).2.2
    obtain ⟨before', hbefore', hsearch⟩ :=
      ih (fun d hd => hindent d (List.mem_cons_of_mem _ hd)) hword
    refine ⟨before', hbefore', ?_⟩
    rw [← hsearch]
    refine search_of_no_match fun n groups hmatch => ?_
    have hways : commented.ways before (c :: indent ++ ("this.".toList ++ v)) = [] :=
      ways_seq_of_nil (ways_assigned_indent hindent (List.cons_ne_nil c indent))
    rw [match?_eq_head?] at hmatch
    cases hmatch.symm.trans (congrArg List.head? hways)

end Indentation

namespace GeneratedLine

variable (line : GeneratedLine)

theorem findAll_text : commented.findAll line.text = [[line.field, line.value, line.name]] := by
  have hnone : (none : Option Char).any isWord = false := rfl
  obtain ⟨before, hbefore, hsearch⟩ := search_indent line.isGap_of_mem hnone
  unfold text body
  rw [findAll, hsearch]
  exact (line.takes_body hbefore).search_eq

theorem annotate?_text {source : String} (hsource : source.toList = line.text) (other : String) :
    AnnotationStrategy.comment.annotate? other source =
      if other.toList = line.field then some line.typeRef else none := by
  have hfound : AnnotationStrategy.comment.pattern.findAll source.toList =
      [[line.field, line.value, line.name]] := by
    rw [hsource]
    exact line.findAll_text
  rw [AnnotationStrategy.annotate?, hfound]
  by_cases hother : other.toList = line.field
  · simp [hother, AnnotationStrategy.typeOf?, line.namedType_eq]
  · simp [hother, Ne.symm hother]

end GeneratedLine

end Annotation

/--
A generated line gives its field the type that it was made from, and no other field any: a null has
the type that is named, and an empty array is a list of what is named in the plural.
-/
theorem generated_lines_read {indent field type ending : String}
    (hindent : ∀ c ∈ indent.toList, c = ' ' ∨ c = '\t')
    (hfield : Annotation.isPlainName field.toList = true)
    (htype : Annotation.isPlainName type.toList = true) (hending : ending = "" ∨ ending = ";")
    (other : String) :
    AnnotationStrategy.comment.annotate? other
        (indent ++ "this." ++ field ++ " = null; // " ++ type ++ ending) =
      (if other = field then some (.named type) else none) ∧
    AnnotationStrategy.comment.annotate? other
        (indent ++ "this." ++ field ++ " = []; // of " ++ type ++ "s" ++ ending) =
      (if other = field then some (.list (.named type)) else none) := by
  let line (isList : Bool) : Annotation.GeneratedLine :=
    { indent := indent.toList
      field := field.toList
      type := type.toList
      isList
      isClosed := ending == ";"
      isGap_of_mem := by simpa [ Annotation.isGap] using hindent
      plainField := hfield
      plainType := htype }
  have hclosed (isList : Bool) : (line isList).ending = ending.toList := by
    rcases hending with rfl | rfl <;> simp [line, Annotation.GeneratedLine.ending]
  constructor
  · have hsource : (indent ++ "this." ++ field ++ " = null; // " ++ type ++ ending).toList =
        (line false).text := by
      have hparts : " = null; // ".toList = " = ".toList ++ ("null".toList ++ "; // ".toList) := by
        decide
      unfold Annotation.GeneratedLine.text Annotation.GeneratedLine.body
      rw [hclosed]
      simp only [String.toList_append, hparts, List.append_assoc]
      rfl
    rw [(line false).annotate?_text hsource]
    simp [line, Annotation.GeneratedLine.typeRef, String.toList_inj]
  · have hsource : (indent ++ "this." ++ field ++ " = []; // of " ++ type ++ "s" ++ ending).toList =
        (line true).text := by
      have hparts : " = []; // of ".toList =
          " = ".toList ++ ("[]".toList ++ ("; // ".toList ++ "of ".toList)) := by
        decide
      have hname : (line true).name = type.toList ++ "s".toList := rfl
      unfold Annotation.GeneratedLine.text Annotation.GeneratedLine.body
      rw [hclosed, hname]
      simp only [String.toList_append, hparts, List.append_assoc]
      rfl
    rw [(line true).annotate?_text hsource]
    simp [line, Annotation.GeneratedLine.typeRef, String.toList_inj]

/-- The words of the lines themselves are names as well. -/
theorem generated_lines_read_words :
    let single := " \t" ++ "this." ++ "this" ++ " = null; // " ++ "of" ++ ";"
    let several := " \t" ++ "this." ++ "this" ++ " = []; // of " ++ "of" ++ "s" ++ ";"
    (∀ c ∈ " \t".toList, c = ' ' ∨ c = '\t') ∧ Annotation.isPlainName "this".toList = true ∧
      Annotation.isPlainName "of".toList = true ∧
      (AnnotationStrategy.comment.annotate? "this" single = some (.named "of") ∧
        AnnotationStrategy.comment.annotate? "this" several = some (.list (.named "of"))) ∧
      (AnnotationStrategy.comment.annotate? "of" single = none ∧
        AnnotationStrategy.comment.annotate? "of" several = none) := by
  have hindent : ∀ c ∈ " \t".toList, c = ' ' ∨ c = '\t' := by simp
  have hthis : Annotation.isPlainName "this".toList = true := by decide
  have hof : Annotation.isPlainName "of".toList = true := by decide
  exact ⟨hindent, hthis, hof, generated_lines_read hindent hthis hof (.inr rfl) "this",
    generated_lines_read hindent hthis hof (.inr rfl) "of"⟩

end Typings
