import Mathlib.Data.List.Basic
import Typings.Text.Pattern

namespace Typings.Pattern

variable {α : Type} {p : Pattern} {before : Option Char} {cs a b : List Char}

/-- All ways to match a pattern at the start of a text, in the order in which they are tried. -/
def ways : Pattern → Option Char → List Char → List (Nat × List (List Char))
  | text word, _, cs => if word.toList.isPrefixOf cs then [(word.length, [])] else []
  | one accepts, _, cs => if cs.head?.any accepts then [(1, [])] else []
  | many accepts, _, cs => (List.range ((cs.takeWhile accepts).length + 1)).reverse.map (·, [])
  | seq p q, before, cs =>
    (p.ways before cs).flatMap fun w =>
      (q.ways ((cs.take w.1).getLast?.or before) (cs.drop w.1)).map fun v => (w.1 + v.1, w.2 ++ v.2)
  | alt p q, before, cs => p.ways before cs ++ q.ways before cs
  | optional p, before, cs => p.ways before cs ++ [(0, [])]
  | group p, before, cs => (p.ways before cs).map fun w => (w.1, cs.take w.1 :: w.2)
  | lineStart, before, _ => if isLineStart before then [(0, [])] else []
  | wordBoundary, before, cs => if isWordBoundary before cs.head? then [(0, [])] else []

theorem downFrom_eq (answer : Nat → Option α) (n : Nat) :
    downFrom answer n = (List.range (n + 1)).reverse.findSome? answer := by
  induction n with
  | zero => simp [downFrom]
  | succ n ih =>
    rw [downFrom, ih, List.range_succ (n := n + 1), List.reverse_append, List.reverse_singleton,
      List.singleton_append, List.findSome?_cons]
    cases answer (n + 1) <;> rfl

theorem findSome?_flatMap {β γ : Type} (f : β → Option γ) (g : α → List β) (l : List α) :
    (l.flatMap g).findSome? f = l.findSome? fun x => (g x).findSome? f := by
  simp only [← List.head?_filterMap, List.filterMap_flatMap, List.head?_flatMap]

/-- The ways are tried one after the other, until one has an answer. -/
theorem run_eq (p : Pattern) (before : Option Char) (cs : List Char)
    (next : Nat → List (List Char) → Option α) :
    p.run before cs next = (p.ways before cs).findSome? fun w => next w.1 w.2 := by
  induction p generalizing before cs next with
  | text | one | lineStart | wordBoundary =>
    rw [run, ways]
    split <;> simp
  | many accepts =>
    rw [run, ways, downFrom_eq, List.findSome?_map]
    rfl
  | seq p q ihp ihq =>
    rw [run, ways, ihp, findSome?_flatMap]
    congr
    funext w
    rw [ihq, List.findSome?_map]
    rfl
  | alt p q ihp ihq =>
    rw [run, ways, ihp, ihq, List.findSome?_append]
    exact Option.orElse_eq_or
  | optional p ih =>
    rw [run, ways, ih, List.findSome?_append, List.findSome?_singleton]
    exact Option.orElse_eq_or
  | group p ih =>
    rw [run, ways, ih, List.findSome?_map]
    rfl

theorem match?_eq_head? (p : Pattern) (before : Option Char) (cs : List Char) :
    p.match? before cs = (p.ways before cs).head? := by
  rw [match?, run_eq]
  cases p.ways before cs <;> rfl

theorem le_of_mem_ways {w : Nat × List (List Char)} (h : w ∈ p.ways before cs) :
    w.1 ≤ cs.length := by
  induction p generalizing before cs w with
  | text word =>
    rw [ways] at h
    split at h
    · rename_i hprefix
      cases List.mem_singleton.1 h
      rw [← String.length_toList]
      exact (List.isPrefixOf_iff_prefix.1 hprefix).length_le
    · cases h
  | one accepts =>
    rw [ways] at h
    split at h
    · rename_i hhead
      cases List.mem_singleton.1 h
      cases cs with
      | nil => cases hhead
      | cons => simp
    · cases h
  | many accepts =>
    obtain ⟨n, hn, rfl⟩ := List.mem_map.1 h
    have hle := (List.takeWhile_prefix accepts (l := cs)).length_le
    rw [List.mem_reverse, List.mem_range] at hn
    show n ≤ cs.length
    omega
  | seq p q ihp ihq =>
    obtain ⟨w, hw, h⟩ := List.mem_flatMap.1 h
    obtain ⟨v, hv, rfl⟩ := List.mem_map.1 h
    have hfirst := ihp hw
    have hsecond := ihq hv
    rw [List.length_drop] at hsecond
    show w.1 + v.1 ≤ cs.length
    omega
  | alt p q ihp ihq => exact (List.mem_append.1 h).elim ihp ihq
  | optional p ih =>
    rcases List.mem_append.1 h with h | h
    · exact ih h
    · cases List.mem_singleton.1 h
      exact Nat.zero_le _
  | group p ih =>
    obtain ⟨v, hv, rfl⟩ := List.mem_map.1 h
    exact ih (w := v) hv
  | lineStart | wordBoundary =>
    rw [ways] at h
    split at h
    · cases List.mem_singleton.1 h
      exact Nat.zero_le _
    · cases h

theorem ways_seq_eq_nil {q : Pattern}
    (h : ∀ w ∈ p.ways before cs, q.ways ((cs.take w.1).getLast?.or before) (cs.drop w.1) = []) :
    (p ++ q).ways before cs = [] := by
  show (seq p q).ways before cs = []
  rw [ways, List.flatMap_eq_nil_iff]
  intro w hw
  rw [h w hw, List.map_nil]

theorem ways_many_of_not {accepts : Char → Bool} (h : ∀ c ∈ cs.head?, accepts c = false) :
    (many accepts).ways before cs = [(0, [])] := by
  cases cs with
  | nil => rfl
  | cons c cs => simp [ways, List.takeWhile_cons_of_neg, h c rfl]

theorem ways_seq_of_nil {q : Pattern} (h : p.ways before cs = []) : (p ++ q).ways before cs = [] :=
  ways_seq_eq_nil (by simp [h])

theorem ways_append_assoc (p q r : Pattern) (before : Option Char) (cs : List Char) :
    (p ++ q ++ r).ways before cs = (p ++ (q ++ r)).ways before cs := by
  show (seq (seq p q) r).ways before cs = (seq p (seq q r)).ways before cs
  simp only [ways, List.flatMap_assoc, List.flatMap_map, List.map_flatMap, List.map_map]
  refine List.flatMap_congr fun w _ => List.flatMap_congr fun v _ => ?_
  have hlast : ((cs.take (w.1 + v.1)).getLast?.or before) =
      ((cs.drop w.1).take v.1).getLast?.or ((cs.take w.1).getLast?.or before) := by
    rw [List.take_add, List.getLast?_append, Option.or_assoc]
  rw [hlast, List.drop_drop]
  refine List.map_congr_left fun x _ => ?_
  simp [Nat.add_assoc]

/-- Whether no part of a pattern takes a line feed. -/
def withinLine : Pattern → Bool
  | text word => !word.toList.contains '\n'
  | one accepts | many accepts => !accepts '\n'
  | seq p q | alt p q => p.withinLine && q.withinLine
  | optional p | group p => p.withinLine
  | lineStart | wordBoundary => true

theorem isPrefixOf_append_lineFeed {word : List Char} (h : '\n' ∉ word) (a b : List Char) :
    word.isPrefixOf (a ++ '\n' :: b) = word.isPrefixOf a := by
  induction word generalizing a with
  | nil => simp
  | cons c word ih =>
    rw [List.mem_cons, not_or] at h
    cases a with
    | nil => simp [List.isPrefixOf, Ne.symm h.1]
    | cons d a => simp [List.isPrefixOf, ih h.2]

theorem head?_append_lineFeed {f : Char → Bool} (hf : f '\n' = false) (a b : List Char) :
    (a ++ '\n' :: b).head?.any f = a.head?.any f := by
  cases a <;> simp [hf]

theorem takeWhile_append_lineFeed {f : Char → Bool} (hf : f '\n' = false) (a b : List Char) :
    (a ++ '\n' :: b).takeWhile f = a.takeWhile f := by
  rw [List.takeWhile_append]
  split
  · rename_i hlength
    rw [List.takeWhile_cons_of_neg (by simp [hf]), List.append_nil]
    exact ((List.takeWhile_prefix f).eq_of_length hlength).symm
  · rfl

/-- A pattern that takes no line feed sees nothing beyond the line. -/
theorem ways_append_lineFeed (hp : p.withinLine = true) (before : Option Char) (a b : List Char) :
    p.ways before (a ++ '\n' :: b) = p.ways before a := by
  induction p generalizing before a with
  | text word =>
    have hword : '\n' ∉ word.toList := by simpa [withinLine] using hp
    rw [ways, ways, isPrefixOf_append_lineFeed hword]
  | one accepts =>
    rw [ways, ways, head?_append_lineFeed (by simpa [withinLine] using hp)]
  | many accepts =>
    rw [ways, ways, takeWhile_append_lineFeed (by simpa [withinLine] using hp)]
  | seq p q ihp ihq =>
    obtain ⟨hp, hq⟩ := Bool.and_eq_true_iff.1 hp
    rw [ways, ways, ihp hp]
    refine List.flatMap_congr fun w hw => ?_
    have hle := le_of_mem_ways hw
    rw [List.take_append_of_le_length hle, List.drop_append_of_le_length hle, ihq hq]
  | alt p q ihp ihq =>
    obtain ⟨hp, hq⟩ := Bool.and_eq_true_iff.1 hp
    rw [ways, ways, ihp hp, ihq hq]
  | optional p ih => rw [ways, ways, ih hp]
  | group p ih =>
    rw [ways, ways, ih hp]
    refine List.map_congr_left fun w hw => ?_
    rw [List.take_append_of_le_length (le_of_mem_ways hw)]
  | lineStart => rfl
  | wordBoundary =>
    have hfeed : isWord '\n' = false := by decide
    rw [ways, ways, isWordBoundary, isWordBoundary, head?_append_lineFeed hfeed]

/-- Behind a line feed a pattern does what it does at the start of a text. -/
theorem ways_lineFeed (p : Pattern) (cs : List Char) : p.ways (some '\n') cs = p.ways none cs := by
  induction p generalizing cs with
  | text | one | many => rfl
  | seq p q ihp ihq =>
    rw [ways, ways, ihp]
    refine List.flatMap_congr fun w hw => ?_
    cases hlast : (cs.take w.1).getLast? with
    | none => rw [Option.none_or, Option.none_or, ihq]
    | some c => rfl
  | alt p q ihp ihq => rw [ways, ways, ihp, ihq]
  | optional p ih => rw [ways, ways, ih]
  | group p ih => rw [ways, ways, ih]
  | lineStart => rfl
  | wordBoundary => rfl

variable {c : Char} {n : Nat} {groups : List (List Char)}

theorem search_of_match (h : p.match? before (c :: cs) = some (n + 1, groups)) :
    p.search 0 before (c :: cs) = groups :: p.search n (some c) cs := by
  rw [search, h]

theorem search_of_no_match (h : ∀ n groups, p.match? before (c :: cs) ≠ some (n + 1, groups)) :
    p.search 0 before (c :: cs) = p.search 0 (some c) cs := by
  rw [search]
  split
  · rename_i n groups hmatch
    exact absurd hmatch (h n groups)
  · rfl

theorem search_of_length_le {skip : Nat} (h : cs.length ≤ skip) : p.search skip before cs = [] := by
  induction cs generalizing skip before with
  | nil => rw [search]
  | cons c cs ih =>
    cases skip with
    | zero => cases h
    | succ skip => exact ih (Nat.le_of_succ_le_succ h)

theorem le_of_match? (h : p.match? before cs = some (n, groups)) : n ≤ cs.length := by
  rw [match?_eq_head?] at h
  exact le_of_mem_ways (List.mem_of_mem_head? h)

theorem match?_append_lineFeed (hp : p.withinLine = true) (before : Option Char) (a b : List Char) :
    p.match? before (a ++ '\n' :: b) = p.match? before a := by
  rw [match?_eq_head?, match?_eq_head?, ways_append_lineFeed hp]

theorem search_lineFeed (p : Pattern) (cs : List Char) :
    p.search 0 (some '\n') cs = p.findAll cs := by
  cases cs with
  | nil => rfl
  | cons c cs =>
    rw [findAll, search, search, match?_eq_head?, match?_eq_head?, ways_lineFeed]

/-- Behind the end of a line the search starts anew. -/
theorem search_append_lineFeed (hp : p.withinLine = true) {skip : Nat} (hskip : skip ≤ a.length)
    (before : Option Char) (b : List Char) :
    p.search skip before (a ++ '\n' :: b) = p.search skip before a ++ p.findAll b := by
  induction a generalizing skip before with
  | nil =>
    obtain rfl : skip = 0 := by simpa using hskip
    rw [List.nil_append, search_of_no_match, search_lineFeed]
    · rfl
    · intro n groups hmatch
      have hempty := match?_append_lineFeed hp before [] b
      rw [List.nil_append, hmatch] at hempty
      exact absurd (le_of_match? hempty.symm) (by simp)
  | cons c a ih =>
    cases skip with
    | succ skip => exact ih (by simpa using hskip) (some c)
    | zero =>
      have hsame := match?_append_lineFeed hp before (c :: a) b
      rw [List.cons_append] at hsame ⊢
      by_cases hmatch : ∃ n groups, p.match? before (c :: a) = some (n + 1, groups)
      · obtain ⟨n, groups, hmatch⟩ := hmatch
        have hle := le_of_match? hmatch
        rw [search_of_match (hsame.trans hmatch), search_of_match hmatch, List.cons_append,
          ih (by simpa using hle)]
      · have hmatch' : ∀ n groups, p.match? before (c :: a) ≠ some (n + 1, groups) :=
          fun n groups h => hmatch ⟨n, groups, h⟩
        rw [search_of_no_match (by rwa [hsame]), search_of_no_match hmatch', ih (Nat.zero_le _)]

theorem findAll_append_lineFeed (hp : p.withinLine = true) (a b : List Char) :
    p.findAll (a ++ '\n' :: b) = p.findAll a ++ p.findAll b :=
  search_append_lineFeed hp (Nat.zero_le _) none b

/-- The first way to match a pattern takes the text `u` before `v`. -/
def Takes (p : Pattern) (before : Option Char) (u v : List Char) (groups : List (List Char)) : Prop :=
  (p.ways before (u ++ v)).head? = some (u.length, groups)

namespace Takes

variable {p q : Pattern} {u v w : List Char} {groups groups' : List (List Char)}
  {accepts : Char → Bool}

theorem match?_eq (h : p.Takes before u [] groups) : p.match? before u = some (u.length, groups) := by
  rw [match?_eq_head?]
  simpa [Takes] using h

theorem search_eq (h : p.Takes before (c :: u) [] groups) :
    p.search 0 before (c :: u) = [groups] := by
  rw [search_of_match h.match?_eq, search_of_length_le (Nat.le_refl _)]

theorem text (word : String) (v : List Char) : (Pattern.text word).Takes before word.toList v [] := by
  simp [Takes, ways, List.isPrefixOf_iff_prefix, String.length_toList]

theorem one (hc : accepts c = true) (v : List Char) : (Pattern.one accepts).Takes before [c] v [] := by
  simp [Takes, ways, hc]

theorem many (hu : ∀ c ∈ u, accepts c = true) (hv : ∀ c ∈ v.head?, accepts c = false) :
    (Pattern.many accepts).Takes before u v [] := by
  have htake : (u ++ v).takeWhile accepts = u := by
    rw [List.takeWhile_append_of_pos hu]
    cases v with
    | nil => exact List.append_nil u
    | cons c v => rw [List.takeWhile_cons_of_neg (by simp [hv c rfl]), List.append_nil]
  rw [Takes, ways, htake, List.range_succ]
  simp

theorem wordBoundary (h : isWordBoundary before v.head? = true) :
    Pattern.wordBoundary.Takes before [] v [] := by
  simp [Takes, ways, h]

theorem seq (hp : p.Takes before u (v ++ w) groups)
    (hq : q.Takes (u.getLast?.or before) v w groups') :
    (p ++ q).Takes before (u ++ v) w (groups ++ groups') := by
  obtain ⟨others, hways⟩ := List.head?_eq_some_iff.1 hp
  have hfirst : (q.ways (((u ++ (v ++ w)).take u.length).getLast?.or before)
      ((u ++ (v ++ w)).drop u.length)).head? = some (v.length, groups') := by
    rwa [List.take_left, List.drop_left]
  show ((Pattern.seq p q).ways before _).head? = _
  rw [ways, List.head?_flatMap, List.append_assoc, hways, List.findSome?_cons, List.head?_map, hfirst,
    List.length_append]
  rfl

theorem altLeft (h : p.Takes before u v groups) : (Pattern.alt p q).Takes before u v groups := by
  rw [Takes] at h
  simp [Takes, ways, h]

theorem altRight (hp : p.ways before (u ++ v) = []) (h : q.Takes before u v groups) :
    (Pattern.alt p q).Takes before u v groups := by
  rw [Takes] at h
  simp [Takes, ways, hp, h]

theorem optional (h : p.Takes before u v groups) : (Pattern.optional p).Takes before u v groups := by
  rw [Takes] at h
  simp [Takes, ways, h]

theorem notOptional (h : p.ways before v = []) : (Pattern.optional p).Takes before [] v [] := by
  simp [Takes, ways, h]

theorem group (h : p.Takes before u v groups) : (Pattern.group p).Takes before u v (u :: groups) := by
  rw [Takes] at h
  simp [Takes, ways, h]

end Takes

end Typings.Pattern
