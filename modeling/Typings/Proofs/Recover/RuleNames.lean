import Typings.Proofs.Recover.Partition

namespace Typings

/-- The names in a list that have a property, each once, in the order of their first mention. -/
structure FirstMentions (all : List String) (p : String → Prop) (names : List String) : Prop where
  mem_iff : ∀ n, n ∈ names ↔ n ∈ all ∧ p n
  ordered : names.Pairwise fun a b => all.idxOf a < all.idxOf b

namespace FirstMentions

variable {all names : List String} {p : String → Prop} {n : String} (h : FirstMentions all p names)
include h

theorem ordered_append : names.Pairwise fun a b => (all ++ [n]).idxOf a < (all ++ [n]).idxOf b :=
  h.ordered.imp_of_mem fun {a b} ha hb hlt => by
    rwa [List.idxOf_append_of_mem ((h.mem_iff a).1 ha).1,
      List.idxOf_append_of_mem ((h.mem_iff b).1 hb).1]

theorem skip (hn : p n → n ∈ names) : FirstMentions (all ++ [n]) p names where
  mem_iff a := by grind [h.mem_iff a]
  ordered := h.ordered_append

theorem add (hp : p n) (hn : n ∉ names) : FirstMentions (all ++ [n]) p (names ++ [n]) where
  mem_iff a := by grind [h.mem_iff a]
  ordered := by
    have hall : n ∉ all := fun hmem => hn ((h.mem_iff n).2 ⟨hmem, hp⟩)
    refine List.pairwise_append.2 ⟨h.ordered_append, List.pairwise_singleton .., ?_⟩
    intro a ha b hb
    have hmem := ((h.mem_iff a).1 ha).1
    rw [List.mem_singleton.1 hb, List.idxOf_append_of_mem hmem, List.idxOf_append_of_notMem hall]
    exact Nat.lt_add_right _ (List.idxOf_lt_length_of_mem hmem)

end FirstMentions

/-- It begins with a small letter, as the name of a rule does. -/
def StartsSmall (n : String) : Prop := ∃ c ∈ n.toList.head?, 'a' ≤ c ∧ c ≤ 'z'

/-- A rule with its first letter in a capital, and `Context` behind it. -/
def capitalContext (rule : String) : String :=
  String.ofList (rule.toList.modifyHead Char.toUpper) ++ "Context"

theorem contextName_of_small {n : String} (h : StartsSmall n) :
    contextName n = capitalContext n := by
  obtain ⟨c, hc, hle, hle'⟩ := h
  obtain ⟨cs, hcs⟩ := List.head?_eq_some_iff.1 hc
  have hlt : c.toNat < 128 := Nat.lt_of_le_of_lt hle' (by decide)
  simp [contextName, capitalContext, hcs, capitalOf, hlt, ← String.toList_inj]

theorem toUpper_inj_of_small {c d : Char} (hc : 'a' ≤ c ∧ c ≤ 'z') (hd : 'a' ≤ d ∧ d ≤ 'z')
    (h : c.toUpper = d.toUpper) : c = d := by
  have hval : ∀ {c : Char}, 'a' ≤ c ∧ c ≤ 'z' → c.toUpper.val = c.val + ('A'.val - 'a'.val) := by
    intro c hc
    have hbounds : 'a'.val ≤ c.val ∧ c.val ≤ 'z'.val := hc
    delta Char.toUpper
    rw [dif_pos hbounds]
  have hsum := congrArg Char.val h
  rw [hval hc, hval hd] at hsum
  exact Char.ext (by simpa using hsum)

theorem capitalContext_inj {n n' : String} (hn : StartsSmall n) (hn' : StartsSmall n')
    (h : capitalContext n = capitalContext n') : n = n' := by
  obtain ⟨c, hc, hsmall⟩ := hn
  obtain ⟨d, hd, hsmall'⟩ := hn'
  obtain ⟨cs, hcs⟩ := List.head?_eq_some_iff.1 hc
  obtain ⟨ds, hds⟩ := List.head?_eq_some_iff.1 hd
  have hlist := congrArg String.toList h
  simp only [capitalContext, hcs, hds, String.toList_append, String.toList_ofList,
    List.append_cancel_right_eq, List.modifyHead_cons, List.cons.injEq] at hlist
  rw [← String.toList_inj, hcs, hds, toUpper_inj_of_small hsmall hsmall' hlist.1, hlist.2]

namespace RuleIndex

variable {key : RuleSymbol → String} {rules : List RuleSymbol} {x : RuleIndex key rules} {k : String}

theorem mem_of_get? {s : RuleSymbol} (h : x.get? k = some s) : s ∈ rules ∧ key s = k := by
  obtain ⟨i, hi, hs⟩ := Option.bind_eq_some_iff.1 h
  obtain ⟨t, ht, hkey⟩ := x.at_place k i hi
  obtain rfl := Option.some.inj (ht.symm.trans hs)
  exact ⟨List.mem_of_getElem? ht, hkey⟩

theorem exists_get?_iff : (∃ s, x.get? k = some s) ↔ k ∈ rules.map key := by
  rw [List.mem_map]
  constructor
  · rintro ⟨s, hs⟩
    exact ⟨s, mem_of_get? hs⟩
  · rintro ⟨s, hs, rfl⟩
    exact Option.isSome_iff_exists.1 ((x.isSome_get? _).trans (x.known s hs))

theorem has_iff : x.has k = true ↔ k ∈ rules.map key := by
  rw [← isSome_get?, Option.isSome_iff_exists, exists_get?_iff]

end RuleIndex

namespace RuleModel

/-- What a model holds once names and symbols are added. -/
structure Holds (names symbols : List String) (m : RuleModel) : Prop where
  rules : FirstMentions names (· ≠ "") m.ruleNames
  contexts : ∀ s ∈ m.rules, s.context = contextName s.name
  terminals : FirstMentions symbols (∃ c ∈ String.toList ·, isBlank c = false) m.terminals

namespace Holds

variable {names symbols : List String} {m : RuleModel} {n rule context : String}

theorem addRule (h : Holds names symbols m) (n : String) :
    Holds (names ++ [n]) symbols (m.addRule n) := by
  unfold RuleModel.addRule
  split
  · rename_i hn
    exact { h with rules := h.rules.skip fun hne => RuleIndex.has_iff.1 (by simpa [hne] using hn) }
  · rename_i hn
    rw [Bool.not_eq_true, Bool.or_eq_false_iff] at hn
    refine ⟨?_, ?_, h.terminals⟩
    · rw [ruleNames, List.map_append]
      refine h.rules.add (by simpa using hn.1) fun hmem => ?_
      exact Bool.false_ne_true (hn.2.symm.trans (RuleIndex.has_iff.2 hmem))
    · intro s hs
      rcases List.mem_append.1 hs with hs | hs
      · exact h.contexts s hs
      · rw [List.mem_singleton.1 hs]

theorem addTerminal (h : Holds names symbols m) (n : String) :
    Holds names (symbols ++ [n]) (m.addTerminal n) := by
  unfold RuleModel.addTerminal
  split
  · rename_i hn
    refine { h with terminals := h.terminals.skip fun hseen => ?_ }
    have hblank : n.toList.all isBlank = false := by simpa using hseen
    simpa [m.mem_terminalSet, hblank] using hn
  · rename_i hn
    rw [Bool.not_eq_true, Bool.or_eq_false_iff] at hn
    refine ⟨h.rules, h.contexts, h.terminals.add (by simpa using hn.1) ?_⟩
    simpa [m.mem_terminalSet] using hn.2

theorem ofNames (names : List String) (symbols : List (Option String)) :
    Holds names (symbols.filterMap id) (ofNames names symbols) := by
  unfold RuleModel.ofNames
  induction symbols.filterMap id using List.reverseRecOn with
  | nil =>
    induction names using List.reverseRecOn with
    | nil =>
      have hnone {p : String → Prop} : FirstMentions [] p [] := ⟨by simp, .nil⟩
      exact ⟨hnone, fun _ hs => (List.not_mem_nil hs).elim, hnone⟩
    | append_singleton names n ih =>
      rw [List.foldl_append]
      exact ih.addRule n
  | append_singleton symbols n ih =>
    rw [List.foldl_append]
    exact ih.addTerminal n

variable (h : Holds names symbols m)
include h

theorem contextForRule?_iff : m.contextForRule? rule = some context ↔
    rule ∈ m.ruleNames ∧ context = contextName rule := by
  rw [contextForRule?, Option.map_eq_some_iff]
  constructor
  · rintro ⟨s, hs, rfl⟩
    obtain ⟨hmem, rfl⟩ := RuleIndex.mem_of_get? hs
    exact ⟨List.mem_map_of_mem hmem, h.contexts s hmem⟩
  · rintro ⟨hrule, rfl⟩
    obtain ⟨s, hs⟩ := RuleIndex.exists_get?_iff.2 hrule
    obtain ⟨hmem, rfl⟩ := RuleIndex.mem_of_get? hs
    exact ⟨s, hs, h.contexts s hmem⟩

/-- Where no other rule has its context, a rule is found from it. -/
theorem ruleForContext?_iff (hinj : ∀ n ∈ m.ruleNames, ∀ n' ∈ m.ruleNames,
      contextName n = contextName n' → n = n') :
    m.ruleForContext? context = some rule ↔ rule ∈ m.ruleNames ∧ context = contextName rule := by
  rw [ruleForContext?, Option.map_eq_some_iff]
  constructor
  · rintro ⟨s, hs, rfl⟩
    obtain ⟨hmem, rfl⟩ := RuleIndex.mem_of_get? hs
    exact ⟨List.mem_map_of_mem hmem, h.contexts s hmem⟩
  · rintro ⟨hrule, rfl⟩
    obtain ⟨t, ht, rfl⟩ := List.mem_map.1 hrule
    have hcontext : contextName t.name ∈ m.rules.map (·.context) :=
      List.mem_map.2 ⟨t, ht, h.contexts t ht⟩
    obtain ⟨s, hs⟩ := RuleIndex.exists_get?_iff.2 hcontext
    obtain ⟨hmem, hkey⟩ := RuleIndex.mem_of_get? hs
    exact ⟨s, hs, hinj _ (List.mem_map_of_mem hmem) _ hrule ((h.contexts s hmem).symm.trans hkey)⟩

end Holds

/-- Every name and every context that a parser mentions is found, and no other: rules and terminals
stand in the order of their first mention, and a rule and its context are found from each other. -/
theorem lookups_of_ofNames (names : List String) (symbols : List (Option String))
    (hnames : ∀ n ∈ names, n = "" ∨ StartsSmall n) :
    let m := ofNames names symbols
    FirstMentions names (· ≠ "") m.ruleNames ∧
      FirstMentions (symbols.filterMap id) (∃ c ∈ String.toList ·, isBlank c = false) m.terminals ∧
      (∀ rule context, m.contextForRule? rule = some context ↔
        rule ∈ m.ruleNames ∧ context = capitalContext rule) ∧
      (∀ rule context, m.ruleForContext? context = some rule ↔
        m.contextForRule? rule = some context) ∧
      (∀ n, m.isRule n = true ↔ n ∈ m.ruleNames) ∧
      (∀ n, m.isRuleContext n = true ↔ n ∈ m.ruleNames.map capitalContext) ∧
      ∀ n, m.isTerminal n = true ↔ n ∈ m.terminals := by
  intro m
  have h : m.Holds names (symbols.filterMap id) := .ofNames names symbols
  have hsmall : ∀ n ∈ m.ruleNames, StartsSmall n := fun n hn =>
    have ⟨hmem, hne⟩ := (h.rules.mem_iff n).1 hn
    (hnames n hmem).resolve_left hne
  have hcontext : ∀ rule context, m.contextForRule? rule = some context ↔
      rule ∈ m.ruleNames ∧ context = capitalContext rule := fun rule context =>
    h.contextForRule?_iff.trans
      (and_congr_right fun hmem => by rw [contextName_of_small (hsmall rule hmem)])
  have hinverse : ∀ rule context, m.ruleForContext? context = some rule ↔
      m.contextForRule? rule = some context := fun rule context =>
    (h.ruleForContext?_iff fun n hn n' hn' heq => capitalContext_inj (hsmall n hn) (hsmall n' hn')
      (by rwa [← contextName_of_small (hsmall n hn), ← contextName_of_small (hsmall n' hn')])).trans
      h.contextForRule?_iff.symm
  have hcontexts : m.rules.map (·.context) = m.ruleNames.map capitalContext := by
    rw [ruleNames, List.map_map]
    refine List.map_congr_left fun s hs => ?_
    exact (h.contexts s hs).trans (contextName_of_small (hsmall _ (List.mem_map_of_mem hs)))
  exact ⟨h.rules, h.terminals, hcontext, hinverse, fun n => RuleIndex.has_iff,
    fun n => hcontexts ▸ RuleIndex.has_iff, fun n => by simp [isTerminal, m.mem_terminalSet]⟩

theorem lookups_of_prog_expr :
    let names := ["prog", "", "expr", "prog"]
    let m := ofNames names [none, some "NUM", some " ", some "WS", some "NUM"]
    (∀ n ∈ names, n = "" ∨ StartsSmall n) ∧ m.ruleNames = ["prog", "expr"] ∧
      m.terminals = ["NUM", "WS"] ∧ m.ruleForContext? "ExprContext" = some "expr" := by
  intro names m
  have hnames : ∀ n ∈ names, n = "" ∨ StartsSmall n := by
    simp [names, StartsSmall]
  obtain ⟨-, -, hcontext, hinverse, -⟩ := lookups_of_ofNames names _ hnames
  have hrules : m.ruleNames = ["prog", "expr"] := by decide
  refine ⟨hnames, hrules, by decide, (hinverse _ _).2 ((hcontext _ _).2 ⟨?_, by decide⟩)⟩
  exact hrules ▸ List.mem_cons_of_mem _ (List.mem_singleton_self _)

end RuleModel

end Typings
