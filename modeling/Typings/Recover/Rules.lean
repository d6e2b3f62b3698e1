import Typings.Text.Character

namespace Typings

/-- The context class of a rule: the rule in a capital, then `Context`. -/
def contextName (rule : String) : String :=
  match rule.toList with
  | [] => "Context"
  | c :: cs => String.ofList (capitalOf c ++ cs ++ "Context".toList)

structure RuleSymbol where
  name : String
  context : String
deriving DecidableEq, Repr, Inhabited

/-- Where the rules in a list stand, by a key of theirs: the last one where several share it. -/
structure RuleIndex (key : RuleSymbol → String) (rules : List RuleSymbol) where
  places : List (String × Nat)
  at_place : ∀ k i, places.lookup k = some i → ∃ s, rules[i]? = some s ∧ key s = k
  known : ∀ s ∈ rules, (places.lookup (key s)).isSome
deriving DecidableEq, Repr

namespace RuleIndex

variable {key : RuleSymbol → String} {rules : List RuleSymbol}

def empty : RuleIndex key [] := ⟨[], by simp, by simp⟩

def add (x : RuleIndex key rules) (s : RuleSymbol) : RuleIndex key (rules ++ [s]) where
  places := (key s, rules.length) :: x.places
  at_place k i h := by
    rw [List.lookup_cons] at h
    split at h
    · rename_i hk
      exact ⟨s, by simp [← Option.some.inj h], (beq_iff_eq.1 hk).symm⟩
    · obtain ⟨t, ht, hkey⟩ := x.at_place k i h
      have hi := (List.getElem?_eq_some_iff.1 ht).1
      exact ⟨t, by rw [List.getElem?_append_left hi, ht], hkey⟩
  known t ht := by
    rw [List.lookup_cons]
    split
    · rfl
    · rename_i hne
      rcases List.mem_append.1 ht with ht | ht
      · exact x.known t ht
      · simp [List.mem_singleton.1 ht] at hne

def has (x : RuleIndex key rules) (k : String) : Bool := (x.places.lookup k).isSome

def get? (x : RuleIndex key rules) (k : String) : Option RuleSymbol :=
  (x.places.lookup k).bind (rules[·]?)

theorem isSome_get? (x : RuleIndex key rules) (k : String) : (x.get? k).isSome = x.has k := by
  unfold get? has
  cases h : x.places.lookup k with
  | none => rfl
  | some i =>
    obtain ⟨s, hs, -⟩ := x.at_place k i h
    simp [hs]

end RuleIndex

/-- Rules and terminals of a parser, each once, in the order of their first mention. -/
structure RuleModel where
  rules : List RuleSymbol
  byRule : RuleIndex (·.name) rules
  byContext : RuleIndex (·.context) rules
  terminals : List String
  terminalSet : List String
  mem_terminalSet : ∀ n, n ∈ terminalSet ↔ n ∈ terminals
deriving DecidableEq, Repr

namespace RuleModel

instance : EmptyCollection RuleModel := ⟨⟨[], .empty, .empty, [], [], fun _ => .rfl⟩⟩

instance : Inhabited RuleModel := ⟨∅⟩

def addRule (m : RuleModel) (name : String) : RuleModel :=
  if name.isEmpty || m.byRule.has name then m
  else
    let symbol : RuleSymbol := ⟨name, contextName name⟩
    { m with
      rules := m.rules ++ [symbol]
      byRule := m.byRule.add symbol
      byContext := m.byContext.add symbol }

def addTerminal (m : RuleModel) (name : String) : RuleModel :=
  if name.toList.all isBlank || m.terminalSet.contains name then m
  else
    { m with
      terminals := m.terminals ++ [name]
      terminalSet := name :: m.terminalSet
      mem_terminalSet := by simp [m.mem_terminalSet, or_comm] }

/-- Empty rule names and blank or absent terminal names are left out. -/
def ofNames (ruleNames : List String) (symbolicNames : List (Option String)) : RuleModel :=
  (symbolicNames.filterMap id).foldl addTerminal (ruleNames.foldl addRule {})

def ruleNames (m : RuleModel) : List String := m.rules.map (·.name)

def contextForRule? (m : RuleModel) (rule : String) : Option String :=
  (m.byRule.get? rule).map (·.context)

def ruleForContext? (m : RuleModel) (context : String) : Option String :=
  (m.byContext.get? context).map (·.name)

def isRule (m : RuleModel) (name : String) : Bool := m.byRule.has name

def isTerminal (m : RuleModel) (name : String) : Bool := m.terminalSet.contains name

def isRuleContext (m : RuleModel) (name : String) : Bool := m.byContext.has name

end RuleModel

end Typings
