import Mathlib.Data.List.Chain
import Mathlib.Data.List.Perm.Subperm
import Mathlib.Logic.Relation
import Typings.Load.Graph
import Typings.Proofs.Association

namespace Typings.ImportGraph

variable {g : ImportGraph} {a b k key importer imported root : String}
variable {imports path path' order order' before after cycle found : List String} {n : Nat}
variable {wanted wanted' : String → Prop} {fault : GraphFault}

/-- One call that changes a graph. -/
inductive Change
  | add (key : String)
  | connect (importer imported : String)

def Change.apply (g : ImportGraph) : Change → ImportGraph
  | add key => g.add key
  | connect importer imported => g.connect importer imported

/-- The graph that a sequence of changes makes of the empty one. -/
def ofChanges (changes : List Change) : ImportGraph := changes.foldl Change.apply {}

/-- A module that a change speaks of. -/
def Change.Mentions (key : String) : Change → Prop
  | add k => key = k
  | connect importer imported => key = importer ∨ key = imported

def keys (g : ImportGraph) : List String := g.nodes.map (·.1)

def Edge (g : ImportGraph) (a b : String) : Prop :=
  ∃ imports, g.imports? a = some imports ∧ b ∈ imports

/-- `b` is `a`, or imported by it directly or through others. -/
def Reaches (g : ImportGraph) : String → String → Prop := Relation.ReflTransGen g.Edge

/-- Some module that `root` needs needs itself. -/
def CycleBelow (g : ImportGraph) (root : String) : Prop :=
  ∃ key, g.Reaches root key ∧ Relation.TransGen g.Edge key key

/-- Everything that `root` needs, once each, with imports first and the root last. -/
structure IsOrder (g : ImportGraph) (root : String) (order : List String) : Prop where
  mem_iff : ∀ key, key ∈ order ↔ g.Reaches root key
  nodup : order.Nodup
  importsFirst : ∀ before key after, order = before ++ key :: after →
    ∀ imported, g.Edge key imported → imported ∈ before
  last : order.getLast? = some root

/-- A way along imports, below `root`, that ends where it starts. -/
structure IsCycle (g : ImportGraph) (root : String) (cycle : List String) : Prop where
  two_le : 2 ≤ cycle.length
  closed : cycle.head? = cycle.getLast?
  edges : cycle.IsChain g.Edge
  reached : ∀ key ∈ cycle, g.Reaches root key

theorem contains_iff : g.contains key ↔ key ∈ g.keys := Association.lookup_isSome_iff_mem

theorem imports?_add (g : ImportGraph) (key k : String) :
    (g.add key).imports? k =
      if g.contains key then g.imports? k
      else (g.imports? k).or (if k = key then some [] else none) := by
  unfold add
  split
  · rfl
  · simp [imports?, List.lookup_append, Association.lookup_cons_eq]

theorem imports?_connect (g : ImportGraph) (importer imported k : String) :
    (g.connect importer imported).imports? k =
      (((g.add importer).add imported).imports? k).map fun imports =>
        if k = importer then addImport imported imports else imports := by
  simp only [connect, imports?]
  rw [← Association.lookup_map_values fun key imports =>
    if key = importer then addImport imported imports else imports]
  congr 1
  apply List.map_congr_left
  intro node _
  split <;> rfl

theorem keys_add (g : ImportGraph) (key : String) :
    (g.add key).keys = if g.contains key then g.keys else g.keys ++ [key] := by
  unfold add keys
  split <;> simp

theorem keys_connect (g : ImportGraph) (importer imported : String) :
    (g.connect importer imported).keys = ((g.add importer).add imported).keys := by
  simp only [connect, keys, List.map_map]
  apply List.map_congr_left
  intro node _
  simp only [Function.comp]
  split <;> rfl

theorem nodup_keys_add (h : g.keys.Nodup) : (g.add key).keys.Nodup := by
  rw [keys_add]
  split
  · exact h
  · rename_i hk
    rw [contains_iff] at hk
    exact h.append (List.nodup_singleton key) (by simpa using hk)

theorem mem_keys_add_self (g : ImportGraph) (key : String) : key ∈ (g.add key).keys := by
  rw [keys_add]
  split
  · rename_i hk
    exact contains_iff.1 hk
  · simp

theorem mem_keys_add (h : k ∈ g.keys) : k ∈ (g.add key).keys := by
  rw [keys_add]
  split
  · exact h
  · simp [h]

theorem contains_add : (g.add key).contains k ↔ g.contains k ∨ k = key := by
  rw [contains_iff, contains_iff, keys_add]
  split
  · rename_i hk
    rw [contains_iff] at hk
    constructor
    · exact .inl
    · rintro (h | rfl)
      · exact h
      · exact hk
  · simp

theorem contains_connect :
    (g.connect importer imported).contains k ↔ g.contains k ∨ k = importer ∨ k = imported := by
  rw [contains_iff, keys_connect, ← contains_iff, contains_add, contains_add, or_assoc]

/-- What is imported is a module of the graph too. -/
def Closed (g : ImportGraph) : Prop := ∀ a b, g.Edge a b → g.contains b

theorem edge_add : (g.add key).Edge a b ↔ g.Edge a b := by
  constructor
  · rintro ⟨imports, hi, hb⟩
    rw [imports?_add] at hi
    split at hi
    · exact ⟨imports, hi, hb⟩
    · rcases Option.or_eq_some_iff.1 hi with hi | ⟨_, hi⟩
      · exact ⟨imports, hi, hb⟩
      · split at hi
        · cases hi
          cases hb
        · cases hi
  · rintro ⟨imports, hi, hb⟩
    refine ⟨imports, ?_, hb⟩
    rw [imports?_add, hi]
    split <;> rfl

theorem mem_addImport : b ∈ addImport key imports ↔ b ∈ imports ∨ b = key := by
  unfold addImport
  split
  · rename_i hk
    have hk : key ∈ imports := by simpa using hk
    constructor
    · exact .inl
    · rintro (hb | rfl)
      · exact hb
      · exact hk
  · simp

theorem edge_connect : (g.connect importer imported).Edge a b ↔
    ((g.add importer).add imported).Edge a b ∨ a = importer ∧ b = imported := by
  have himporter : ((g.add importer).add imported).contains importer :=
    contains_iff.2 (mem_keys_add (mem_keys_add_self g importer))
  simp only [Edge, imports?_connect, Option.map_eq_some_iff]
  constructor
  · rintro ⟨_, ⟨imports, hi, rfl⟩, hb⟩
    by_cases ha : a = importer
    · rw [if_pos ha, mem_addImport] at hb
      rcases hb with hb | hb
      · exact .inl ⟨imports, hi, hb⟩
      · exact .inr ⟨ha, hb⟩
    · rw [if_neg ha] at hb
      exact .inl ⟨imports, hi, hb⟩
  · rintro (⟨imports, hi, hb⟩ | ⟨rfl, rfl⟩)
    · refine ⟨_, ⟨imports, hi, rfl⟩, ?_⟩
      split
      · exact mem_addImport.2 (.inl hb)
      · exact hb
    · obtain ⟨imports, hi⟩ := Option.isSome_iff_exists.1 himporter
      exact ⟨_, ⟨imports, hi, rfl⟩, by simp [mem_addImport]⟩

theorem Closed.add (h : Closed g) (key : String) : Closed (g.add key) := by
  intro a b hab
  exact contains_iff.2 (mem_keys_add (contains_iff.1 (h a b (edge_add.1 hab))))

theorem Closed.connect (h : Closed g) (importer imported : String) :
    Closed (g.connect importer imported) := by
  intro a b hab
  rw [contains_iff, keys_connect]
  rcases edge_connect.1 hab with hab | ⟨_, rfl⟩
  · exact contains_iff.1 ((h.add importer).add imported a b hab)
  · exact mem_keys_add_self _ _

/-- What every sequence of changes keeps: no module twice, and every import a module. -/
structure Sound (g : ImportGraph) : Prop where
  nodup : g.keys.Nodup
  closed : g.Closed

theorem Sound.empty : Sound {} := by
  refine ⟨List.nodup_nil, ?_⟩
  rintro a b ⟨imports, hi, _⟩
  cases hi

theorem Sound.add (h : Sound g) (key : String) : Sound (g.add key) :=
  ⟨nodup_keys_add h.nodup, h.closed.add key⟩

theorem Sound.connect (h : Sound g) (importer imported : String) :
    Sound (g.connect importer imported) := by
  refine ⟨?_, h.closed.connect importer imported⟩
  rw [keys_connect]
  exact nodup_keys_add (nodup_keys_add h.nodup)

theorem ofChanges_concat (changes : List Change) (change : Change) :
    ofChanges (changes ++ [change]) = change.apply (ofChanges changes) := by
  simp [ofChanges]

theorem sound_ofChanges (changes : List Change) : Sound (ofChanges changes) := by
  induction changes using List.reverseRecOn with
  | nil => exact .empty
  | append_singleton changes change ih =>
    rw [ofChanges_concat]
    cases change with
    | add key => exact ih.add key
    | connect importer imported => exact ih.connect importer imported

theorem contains_ofChanges (changes : List Change) :
    (ofChanges changes).contains key ↔ ∃ change ∈ changes, change.Mentions key := by
  induction changes using List.reverseRecOn with
  | nil => simp [contains_iff, ofChanges, keys]
  | append_singleton changes change ih =>
    have hlast : (change.apply (ofChanges changes)).contains key ↔
        (ofChanges changes).contains key ∨ change.Mentions key := by
      cases change with
      | add k => exact contains_add
      | connect importer imported => exact contains_connect
    rw [ofChanges_concat, hlast, ih]
    simp [or_and_right, exists_or]

theorem edge_ofChanges (changes : List Change) :
    (ofChanges changes).Edge a b ↔ .connect a b ∈ changes := by
  induction changes using List.reverseRecOn with
  | nil => simp [Edge, ofChanges, imports?]
  | append_singleton changes change ih =>
    rw [ofChanges_concat, List.mem_append, List.mem_singleton, ← ih]
    cases change with
    | add key => simp [Change.apply, edge_add]
    | connect importer imported => simp [Change.apply, edge_connect, edge_add]

/-- Modules without repetition, each after all it imports. -/
inductive Sorted (g : ImportGraph) : List String → Prop
  | nil : Sorted g []
  | snoc {order : List String} {key : String} (h : Sorted g order) (hkey : key ∉ order)
      (himports : ∀ b, g.Edge key b → b ∈ order) : Sorted g (order ++ [key])

theorem Sorted.nodup (h : Sorted g order) : order.Nodup := by
  induction h with
  | nil => exact List.nodup_nil
  | snoc _ hkey _ ih => exact ih.append (List.nodup_singleton _) (by simpa using hkey)

theorem Sorted.importsFirst (h : Sorted g order) (he : order = before ++ key :: after)
    (hb : g.Edge key b) : b ∈ before := by
  induction h generalizing after with
  | nil => simp at he
  | snoc h hkey himports ih =>
    rcases List.eq_nil_or_concat after with rfl | ⟨after, last, rfl⟩
    · obtain ⟨rfl, hk⟩ := List.append_inj' he rfl
      cases hk
      exact himports b hb
    · rw [List.concat_eq_append, ← List.cons_append, ← List.append_assoc] at he
      exact ih (List.append_inj' he rfl).1

theorem Sorted.mem_of_reaches (h : Sorted g (order ++ after)) (ha : a ∈ order)
    (hb : g.Reaches a b) : b ∈ order := by
  induction hb with
  | refl => exact ha
  | tail _ he ih =>
    obtain ⟨before, between, rfl⟩ := List.append_of_mem ih
    have hb := h.importsFirst (by rw [List.append_assoc, List.cons_append]) he
    exact List.mem_append_left _ hb

theorem Sorted.acyclic (h : Sorted g order) (ha : a ∈ order) : ¬ Relation.TransGen g.Edge a a := by
  induction h with
  | nil => cases ha
  | snoc h hkey himports ih =>
    rcases List.mem_append.1 ha with ha | ha
    · exact ih ha
    · cases List.mem_singleton.1 ha
      intro hc
      obtain ⟨b, hb, hba⟩ := Relation.TransGen.head'_iff.1 hc
      exact hkey (Sorted.mem_of_reaches (by rwa [List.append_nil]) (himports b hb) hba)

/-- A way from the root, innermost module first. -/
structure IsWay (g : ImportGraph) (root : String) (path : List String) : Prop where
  edges : path.IsChain fun a b => g.Edge b a
  reached : ∀ key ∈ path, g.Reaches root key
  contained : ∀ key ∈ path, g.contains key

theorem IsWay.cons (h : IsWay g root (key :: path)) (hs : g.Sound) (he : g.Edge key k) :
    IsWay g root (k :: key :: path) := by
  refine ⟨.cons_cons he h.edges, ?_, ?_⟩
  · rintro k' (_ | hk')
    · exact (h.reached key (by simp)).tail he
    · exact h.reached k' (by assumption)
  · rintro k' (_ | hk')
    · exact hs.closed key k he
    · exact h.contained k' (by assumption)

theorem IsWay.isCycle (h : IsWay g root (key :: path)) (hkey : key ∈ path) :
    IsCycle g root (cycleAt key path) := by
  obtain ⟨between, after, rfl, hb⟩ := List.eq_append_cons_of_mem hkey
  have hne : ∀ k ∈ between, decide (k ≠ key) = true := by
    intro k hk
    exact decide_eq_true fun he => hb (he ▸ hk)
  have ht : (between ++ key :: after).takeWhile (· ≠ key) = between := by
    rw [List.takeWhile_append_of_pos hne, List.takeWhile_cons_of_neg (by simp), List.append_nil]
  have hc : cycleAt key (between ++ key :: after) = (key :: between ++ [key]).reverse := by
    rw [cycleAt, ht]
    simp
  have hp : key :: (between ++ key :: after) = (key :: between ++ [key]) ++ after := by simp
  rw [hp] at h
  rw [hc]
  refine ⟨by simp, ?_, List.isChain_reverse.2 h.edges.left_of_append, ?_⟩
  · rw [List.head?_reverse, List.getLast?_reverse, List.getLast?_append]
    rfl
  intro k hk
  exact h.reached k (List.mem_append_left _ (List.mem_reverse.1 hk))

theorem IsCycle.cycleBelow (h : IsCycle g root cycle) : g.CycleBelow root := by
  obtain ⟨htwo, hclosed, hedges, hreached⟩ := h
  match cycle with
  | a :: b :: rest =>
    refine ⟨a, hreached a (by simp), ?_⟩
    have hlast : (b :: rest).getLast (by simp) = a := by
      simpa [List.getLast?_eq_some_getLast] using hclosed.symm
    have hchain := List.isChain_cons_cons.1 hedges
    have hback := List.relationReflTransGen_of_exists_isChain_cons rest hchain.2 hlast
    exact .head' hchain.1 hback

/-- The modules that are done after looking for some, when `order` was done before. -/
structure Found (g : ImportGraph) (path order : List String) (wanted : String → Prop)
    (found : List String) : Prop where
  sorted : g.Sorted found
  kept : ∀ key ∈ order, key ∈ found
  complete : ∀ key, wanted key → key ∈ found
  needed : ∀ key ∈ found, key ∈ order ∨ (∃ k, wanted k ∧ g.Reaches k key) ∧ key ∉ path

theorem Found.same (ho : g.Sorted order) (h : ∀ key, wanted key → key ∈ order) :
    Found g path order wanted order :=
  ⟨ho, fun _ hk => hk, h, fun _ hk => .inl hk⟩

/-- How looking for modules may end, when `path` is the way to them. -/
def Outcome (g : ImportGraph) (root : String) (path order : List String) (wanted : String → Prop) :
    Except GraphFault (List String) → Prop
  | .ok found => Found g path order wanted found
  | .error (.circular cycle) => IsCycle g root cycle
  | .error (.notFound _) => False

theorem Outcome.error (h : Outcome g root path order wanted (.error fault)) :
    Outcome g root path' order' wanted' (.error fault) := by
  cases fault with
  | circular cycle => exact h
  | notFound _ => exact h

theorem visit_done (h : key ∈ order) : g.visit n path order key = .ok order := by
  unfold visit
  rw [if_pos (by simpa using h)]

theorem visit_circular (h : key ∉ order) (hp : key ∈ path) :
    g.visit n path order key = .error (.circular (cycleAt key path)) := by
  unfold visit
  rw [if_neg (by simpa using h), if_pos (by simpa using hp)]

theorem visit_new (h : key ∉ order) (hp : key ∉ path) (hi : g.imports? key = some imports) :
    g.visit (n + 1) path order key =
      (imports.foldlM (g.visit n (key :: path)) order).map (· ++ [key]) := by
  unfold visit
  rw [if_neg (by simpa using h), if_neg (by simpa using hp)]
  simp only [hi]
  cases imports.foldlM (g.visit n (key :: path)) order <;> rfl

theorem length_lt_size (hw : IsWay g root (key :: path)) (hn : path.Nodup)
    (hkey : key ∉ path) : path.length < g.size := by
  have hsub : key :: path ⊆ g.keys := fun k hk => contains_iff.1 (hw.contained k hk)
  have hnodup : (key :: path).Nodup := List.nodup_cons.2 ⟨hkey, hn⟩
  have hle := (List.subperm_of_subset hnodup hsub).length_le
  simpa [keys, size, Nat.succ_le_iff] using hle

theorem foldlM_visit_outcome (keys : List String) (ho : g.Sorted order)
    (hvisit : ∀ key ∈ keys, ∀ order, g.Sorted order →
      Outcome g root path order (· = key) (g.visit n path order key)) :
    Outcome g root path order (· ∈ keys) (keys.foldlM (g.visit n path) order) := by
  induction keys generalizing order with
  | nil => exact .same ho fun _ hk => nomatch hk
  | cons key keys ih =>
    have hfirst := hvisit key (by simp) order ho
    rw [List.foldlM_cons]
    cases hv : g.visit n path order key with
    | error fault =>
      rw [hv] at hfirst
      exact hfirst.error
    | ok found =>
      rw [hv] at hfirst
      have hrest := ih hfirst.sorted fun k hk => hvisit k (List.mem_cons_of_mem _ hk)
      change Outcome g root path order (· ∈ key :: keys) (keys.foldlM (g.visit n path) found)
      cases hr : keys.foldlM (g.visit n path) found with
      | error fault =>
        rw [hr] at hrest
        exact hrest.error
      | ok last =>
        rw [hr] at hrest
        refine ⟨hrest.sorted, fun k hk => hrest.kept k (hfirst.kept k hk), ?_, ?_⟩
        · intro k hk
          rcases List.mem_cons.1 hk with rfl | hk
          · exact hrest.kept k (hfirst.complete k rfl)
          · exact hrest.complete k hk
        · intro k hk
          rcases hrest.needed k hk with hk | ⟨⟨k', hk', hr'⟩, hnot⟩
          · rcases hfirst.needed k hk with hk | ⟨⟨_, rfl, hr'⟩, hnot⟩
            · exact .inl hk
            · exact .inr ⟨⟨_, List.mem_cons_self, hr'⟩, hnot⟩
          · exact .inr ⟨⟨k', List.mem_cons_of_mem _ hk', hr'⟩, hnot⟩

/-- A module comes after its imports, which do not lead back to it. -/
theorem Found.snoc (h : Found g (key :: path) order (· ∈ imports) found)
    (hi : g.imports? key = some imports) (hdone : key ∉ order) (hpath : key ∉ path) :
    Found g path order (· = key) (found ++ [key]) := by
  have hnew : key ∉ found := by
    intro hk
    rcases h.needed key hk with hk | ⟨_, hk⟩
    · exact hdone hk
    · exact hk List.mem_cons_self
  have hfirst : ∀ b, g.Edge key b → b ∈ found := by
    rintro b ⟨imports', hi', hb⟩
    cases hi.symm.trans hi'
    exact h.complete b hb
  refine ⟨h.sorted.snoc hnew hfirst, fun k hk => List.mem_append_left _ (h.kept k hk), ?_, ?_⟩
  · rintro _ rfl
    simp
  · intro k hk
    rcases List.mem_append.1 hk with hk | hk
    · rcases h.needed k hk with hk | ⟨⟨k', hk', hr⟩, hnot⟩
      · exact .inl hk
      · refine .inr ⟨⟨key, rfl, .head ⟨imports, hi, hk'⟩ hr⟩, ?_⟩
        exact fun hk => hnot (List.mem_cons_of_mem _ hk)
    · cases List.mem_singleton.1 hk
      exact .inr ⟨⟨_, rfl, .refl⟩, hpath⟩

theorem visit_outcome (hs : g.Sound) (hw : IsWay g root (key :: path)) (hn : path.Nodup)
    (ho : g.Sorted order) (hlevels : g.size ≤ n + path.length) :
    Outcome g root path order (· = key) (g.visit n path order key) := by
  induction n using Nat.strong_induction_on generalizing path order key with
  | _ n ih =>
    by_cases hdone : key ∈ order
    · rw [visit_done hdone]
      exact .same ho fun _ hk => hk ▸ hdone
    by_cases hpath : key ∈ path
    · rw [visit_circular hdone hpath]
      exact hw.isCycle hpath
    -- the way is shorter than the graph, so a level is left
    have hlt := length_lt_size hw hn hpath
    obtain ⟨m, rfl⟩ : ∃ m, n = m + 1 := ⟨n - 1, by omega⟩
    obtain ⟨imports, hi⟩ := Option.isSome_iff_exists.1 (hw.contained key (by simp))
    rw [visit_new hdone hpath hi]
    have hfold : Outcome g root (key :: path) order (· ∈ imports)
        (imports.foldlM (g.visit m (key :: path)) order) := by
      apply foldlM_visit_outcome imports ho
      intro k hk order ho
      have hway := hw.cons hs (⟨imports, hi, hk⟩ : g.Edge key k)
      exact ih m (by omega) hway (List.nodup_cons.2 ⟨hpath, hn⟩) ho
        (by rw [List.length_cons]; omega)
    cases hr : imports.foldlM (g.visit m (key :: path)) order with
    | error fault =>
      rw [hr] at hfold
      exact hfold.error
    | ok found =>
      rw [hr] at hfold
      exact Found.snoc hfold hi hdone hpath

theorem isWay_root (h : g.contains root) : IsWay g root [root] := by
  refine ⟨.singleton root, ?_, ?_⟩
  · intro key hkey
    cases List.mem_singleton.1 hkey
    exact .refl
  · intro key hkey
    cases List.mem_singleton.1 hkey
    exact h

theorem order_outcome (hs : g.Sound) (h : g.contains root) :
    Outcome g root [] [] (· = root) (g.order root) :=
  visit_outcome hs (isWay_root h) List.nodup_nil .nil (by simp)

theorem order_of_not_contains (h : ¬ g.contains root) : g.order root = .error (.notFound root) := by
  have hi : g.imports? root = none := by simpa [contains] using h
  unfold order visit
  simp [hi]

theorem Found.reaches (h : Found g [] [] (· = root) order) (hk : key ∈ order) :
    g.Reaches root key := by
  rcases h.needed key hk with hk | ⟨⟨_, rfl, hr⟩, _⟩
  · cases hk
  · exact hr

theorem Found.isOrder (h : Found g [] [] (· = root) order) : IsOrder g root order := by
  have hroot := h.complete root rfl
  refine ⟨fun key => ⟨h.reaches, ?_⟩, h.sorted.nodup, ?_, ?_⟩
  · exact Sorted.mem_of_reaches (by rw [List.append_nil]; exact h.sorted) hroot
  · intro before key after he imported himported
    exact h.sorted.importsFirst he himported
  -- what the root reaches through an import stands before the root, so nothing stands behind it
  obtain ⟨before, after, rfl⟩ := List.append_of_mem hroot
  rcases List.eq_nil_or_concat after with rfl | ⟨after, last, rfl⟩
  · simp
  · rw [List.concat_eq_append] at h
    have hlast : g.Reaches root last := h.reaches (by simp)
    have hnodup := h.sorted.nodup
    rcases Relation.ReflTransGen.cases_head hlast with rfl | ⟨b, hb, hr⟩
    · simp [List.nodup_append] at hnodup
    · have hbefore := Sorted.mem_of_reaches h.sorted (h.sorted.importsFirst rfl hb) hr
      have hne := (List.nodup_append.1 hnodup).2.2 last hbefore last (by simp)
      exact absurd rfl hne

/--
A graph has the modules and the imports of its changes. Its order: none without its root, all that
the root needs when no cycle lies below it, and otherwise a cycle. A module that is missing further in
is never told.
-/
theorem order_of_changes (changes : List Change) (root : String) :
    let g := ofChanges changes
    (∀ key, g.contains key ↔ ∃ change ∈ changes, change.Mentions key) ∧
    (∀ a b, g.Edge a b ↔ .connect a b ∈ changes) ∧
    (g.order root = .error (.notFound root) ↔ ¬ g.contains root) ∧
    (∀ key, g.order root = .error (.notFound key) → key = root) ∧
    (g.contains root →
      ((∃ order, g.order root = .ok order) ↔ ¬ g.CycleBelow root) ∧
      (∀ order, g.order root = .ok order → g.IsOrder root order) ∧
      (g.CycleBelow root → ∃ cycle, g.order root = .error (.circular cycle) ∧
        g.IsCycle root cycle)) := by
  intro g
  refine ⟨fun _ => contains_ofChanges changes, fun _ _ => edge_ofChanges changes, ?_⟩
  have hs : g.Sound := sound_ofChanges changes
  by_cases hroot : g.contains root
  · have ho := order_outcome hs hroot
    cases hr : g.order root with
    | ok order =>
      rw [hr] at ho
      have hfound : g.Found [] [] (· = root) order := ho
      have hacyclic : ¬ g.CycleBelow root := by
        rintro ⟨key, hkey, hcycle⟩
        exact hfound.sorted.acyclic ((hfound.isOrder.mem_iff key).2 hkey) hcycle
      refine ⟨by simp [hroot], fun key h => (nomatch h), fun _ =>
        ⟨?_, ?_, fun h => absurd h hacyclic⟩⟩
      · exact ⟨fun _ => hacyclic, fun _ => ⟨order, rfl⟩⟩
      · rintro _ ⟨⟩
        exact hfound.isOrder
    | error fault =>
      rw [hr] at ho
      cases fault with
      | notFound key => exact ho.elim
      | circular cycle =>
        have hcycle : g.IsCycle root cycle := ho
        refine ⟨by simp [hroot], fun key h => (nomatch h), fun _ =>
          ⟨?_, fun _ h => (nomatch h), ?_⟩⟩
        · exact ⟨fun ⟨_, h⟩ => (nomatch h), fun h => absurd hcycle.cycleBelow h⟩
        · exact fun _ => ⟨cycle, rfl, hcycle⟩
  · rw [order_of_not_contains hroot]
    refine ⟨by simp [hroot], ?_, fun h => absurd h hroot⟩
    rintro key ⟨⟩
    rfl

end Typings.ImportGraph
