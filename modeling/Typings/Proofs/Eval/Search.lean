import Mathlib.Data.List.Chain
import Mathlib.Data.List.Perm.Subperm
import Typings.Proofs.Eval.Change

namespace Typings

theorem exists_cycle_of_length_lt {α : Type} {R : α → α → Prop} {chain places : List α}
    (hchain : chain.IsChain R) (hsub : ∀ a ∈ chain, a ∈ places)
    (hlt : places.length < chain.length) :
    ∃ a ∈ chain, Relation.TransGen R a a := by
  by_contra hno
  have hpairs : chain.Pairwise (Relation.TransGen R) :=
    List.isChain_iff_pairwise.1 (hchain.imp fun _ _ => Relation.TransGen.single)
  have hnodup : chain.Nodup := by
    refine hpairs.imp_of_mem ?_
    rintro a _ ha _ hab rfl
    exact hno ⟨a, ha, hab⟩
  have hle := (List.subperm_of_subset hnodup hsub).length_le
  omega

namespace Store

variable {lax : Prop} {s s' : Store} {r r' t target hops : Nat} {name name' : String} {v : Value}

/-- The name is bound in the scope itself, to `name'` of the scope `target`. -/
def Imports (s : Store) (r : Nat) (name : String) (target : Nat) (name' : String) : Prop :=
  (s.scope r).bindings[name]? = some (.imported target name')

/-- What an import is bound to is an import again. -/
def Hop (s : Store) (a b : Nat × String) : Prop :=
  ∃ target target' name', s.Imports a.1 a.2 target b.2 ∧ s.nearest? target b.2 = some b.1 ∧
    s.Imports b.1 b.2 target' name'

/-- No import leads back to itself. -/
def ImportsAcyclic (s : Store) : Prop := ∀ a, ¬ Relation.TransGen s.Hop a a

/-- Imports lead to scopes that are there, and no more were made than are counted. -/
structure ImportsSound (s : Store) : Prop where
  targets : ∀ r name target name', s.Imports r name target name' → target < s.scopes.size
  counted : ∃ sites : List (Nat × String), sites.length ≤ s.imports ∧
    ∀ r name target name', s.Imports r name target name' → (r, name) ∈ sites

/-- What evaluation keeps of the imports. -/
structure ImportsKept (s s' : Store) : Prop where
  count : s'.imports = s.imports
  size : s.scopes.size ≤ s'.scopes.size
  outer : ∀ r < s.scopes.size, (s'.scope r).outer = (s.scope r).outer
  imports : ∀ r name target name', s'.Imports r name target name' → s.Imports r name target name'
  binds : ∀ r name, s.binds name r → s'.binds name r

theorem ImportsKept.refl : ImportsKept s s :=
  ⟨rfl, Nat.le_refl _, fun _ _ => rfl, fun _ _ _ _ h => h, fun _ _ h => h⟩

theorem ImportsKept.trans {s'' : Store} (h : ImportsKept s s') (h' : ImportsKept s' s'') :
    ImportsKept s s'' where
  count := h'.count.trans h.count
  size := Nat.le_trans h.size h'.size
  outer r hr := (h'.outer r (Nat.lt_of_lt_of_le hr h.size)).trans (h.outer r hr)
  imports _ _ _ _ hi := h.imports _ _ _ _ (h'.imports _ _ _ _ hi)
  binds r name hb := h'.binds r name (h.binds r name hb)

theorem ImportsKept.of_scopes (hc : s'.imports = s.imports) (hs : s'.scopes = s.scopes) :
    ImportsKept s s' := by
  have hscope : s'.scope = s.scope := by
    funext r
    simp [Store.scope, hs]
  refine ⟨hc, by rw [hs], fun r _ => by rw [hscope], ?_, ?_⟩
  · intro r name target name' hi
    rwa [Store.Imports, hscope] at hi
  · intro r name hb
    rwa [Store.binds, hscope]

theorem scope_addScope (s : Store) (c : Scope) (r : Nat) :
    (s.addScope c).2.scope r = if r = s.scopes.size then c else s.scope r :=
  getD_push ..

theorem scope_setBinding (s : Store) (r : Nat) (name : String) (b : Binding) (r' : Nat) :
    (s.setBinding r name b).scope r' =
      if r = r' ∧ r' < s.scopes.size then
        { s.scope r' with bindings := (s.scope r').bindings.insert name b }
      else s.scope r' :=
  getD_modify ..

theorem ImportsKept.setBinding {b : Binding} (hb : ∀ target name', b ≠ .imported target name')
    (r : Nat) (name : String) : ImportsKept s (s.setBinding r name b) := by
  refine ⟨rfl, by simp [Store.setBinding, Store.setScope], ?_, ?_, ?_⟩
  · intro r' _
    rw [scope_setBinding]
    split <;> rfl
  · intro r' name₁ target name' hi
    rw [Store.Imports, scope_setBinding] at hi
    split at hi
    · rw [Std.TreeMap.getElem?_insert] at hi
      split at hi
      · cases hi
        exact absurd rfl (hb target name')
      · exact hi
    · exact hi
  · intro r' name₁ hn
    rw [Store.binds, scope_setBinding]
    split
    · rw [Std.TreeMap.contains_insert]
      simp only [Store.binds] at hn
      simp [hn]
    · exact hn

theorem ImportsKept.addScope {c : Scope} (hc : c.bindings = {}) :
    ImportsKept s (s.addScope c).2 := by
  -- a reference beyond the scopes stands for an empty scope
  have hnew : ∀ r name, s.binds name r → r < s.scopes.size := by
    intro r name hb
    by_contra hr
    simp [Store.binds, Store.scope, Array.getD_eq_getD_getElem?, hr] at hb
  refine ⟨rfl, by simp [Store.addScope], ?_, ?_, ?_⟩
  · intro r hr
    rw [scope_addScope, if_neg (Nat.ne_of_lt hr)]
  · intro r name target name' hi
    rw [Store.Imports, scope_addScope] at hi
    split at hi
    · simp [hc] at hi
    · exact hi
  · intro r name hb
    rw [Store.binds, scope_addScope, if_neg (Nat.ne_of_lt (hnew r name hb))]
    exact hb

theorem Change.importsKept (h : Change lax s s') : ImportsKept s s' := by
  cases h with
  | addScope c hc => exact .addScope hc
  | declare r name v hv => exact .setBinding (by simp) r name
  | declareConstant r name v hv => exact .setBinding (by simp) r name
  | _ => exact .of_scopes rfl rfl

theorem Evolves.importsKept (h : s.Evolves lax s') : ImportsKept s s' := by
  induction h with
  | refl => exact .refl
  | tail _ hc ih => exact ih.trans hc.importsKept

theorem ImportsSound.later (hs : s.ImportsSound) (h : ImportsKept s s') : s'.ImportsSound := by
  refine ⟨?_, ?_⟩
  · intro r name target name' hi
    exact Nat.lt_of_lt_of_le (hs.targets r name target name' (h.imports _ _ _ _ hi)) h.size
  · obtain ⟨sites, hlen, hsites⟩ := hs.counted
    exact ⟨sites, h.count ▸ hlen, fun r name target name' hi =>
      hsites r name target name' (h.imports _ _ _ _ hi)⟩

theorem Imports.binds (h : s.Imports r name target name') : s.binds name r := by
  rw [Store.binds, Std.TreeMap.contains_eq_isSome_getElem?, h]
  rfl

theorem ImportsKept.nearest? (h : ImportsKept s s') (ht : t < s.scopes.size)
    (hn : s'.nearest? t name = some r) (hb : s.binds name r) : s.nearest? t name = some r := by
  have hchain : s'.chain t = s.chain t := by rw [Store.chain, h.outer t ht, Store.chain]
  rw [Store.nearest?, List.find?_eq_some_iff_append] at hn ⊢
  obtain ⟨_, before, after, hsplit, hbefore⟩ := hn
  refine ⟨hb, before, after, hchain ▸ hsplit, ?_⟩
  intro r' hr'
  have hnot : s'.binds name r' = false := by simpa using hbefore r' hr'
  by_contra hbinds
  exact absurd (h.binds r' name (by simpa using hbinds)) (by simp [hnot])

theorem ImportsKept.hop {a b : Nat × String} (h : ImportsKept s s') (hs : s.ImportsSound)
    (hab : s'.Hop a b) : s.Hop a b := by
  obtain ⟨target, target', name', ha, hn, hb⟩ := hab
  have ha := h.imports _ _ _ _ ha
  have hb := h.imports _ _ _ _ hb
  exact ⟨target, target', name', ha, h.nearest? (hs.targets _ _ _ _ ha) hn hb.binds, hb⟩

theorem ImportsAcyclic.later (ha : s.ImportsAcyclic) (hs : s.ImportsSound) (h : ImportsKept s s') :
    s'.ImportsAcyclic :=
  fun a hcycle => ha a (Relation.TransGen.mono (fun _ _ hab => h.hop hs hab) a a hcycle)

theorem binding?_imported (h : s.follow hops r name = none) :
    ∃ r₁ target name', s.nearest? r name = some r₁ ∧ s.Imports r₁ name target name' ∧
      ∀ hops', hops = hops' + 1 → s.follow hops' target name' = none := by
  unfold follow at h
  cases hb : s.binding? r name with
  | none => simp [hb] at h
  | some b =>
    rw [hb] at h
    obtain ⟨r₁, hn, hb⟩ := Option.bind_eq_some_iff.1 hb
    cases b with
    | mutable v => cases h
    | constant v => cases h
    | imported target name' =>
      refine ⟨r₁, target, name', hn, hb, ?_⟩
      rintro hops' rfl
      exact h

theorem follow_eq_none (h : s.follow hops r name = none) :
    ∃ r₁ rest, s.nearest? r name = some r₁ ∧ rest.length = hops ∧
      ((r₁, name) :: rest).IsChain s.Hop ∧
      ∀ a ∈ (r₁, name) :: rest, ∃ target name', s.Imports a.1 a.2 target name' := by
  induction hops generalizing r name with
  | zero =>
    obtain ⟨r₁, target, name', hn, hi, _⟩ := binding?_imported h
    exact ⟨r₁, [], hn, rfl, .singleton _, by simpa using ⟨target, name', hi⟩⟩
  | succ hops ih =>
    obtain ⟨r₁, target, name', hn, hi, hrest⟩ := binding?_imported h
    obtain ⟨r₂, rest, hn₂, hlen, hchain, himports⟩ := ih (hrest hops rfl)
    obtain ⟨target₂, name₂, hi₂⟩ := himports (r₂, name') (by simp)
    refine ⟨r₁, (r₂, name') :: rest, hn, by simp [hlen], .cons_cons ?_ hchain, ?_⟩
    · exact ⟨target, target₂, name₂, hi, hn₂, hi₂⟩
    · rintro a (_ | ha)
      · exact ⟨target, name', hi⟩
      · exact himports a (by assumption)

theorem search?_congr (s s' : Store) (hscopes : s'.scopes = s.scopes)
    (himports : s'.imports = s.imports) (r : Nat) (name : String) :
    s'.search? r name = s.search? r name := by
  have hscope : s'.scope = s.scope := by
    funext r
    rw [scope, scope, hscopes]
  have hbinding : ∀ r name, s'.binding? r name = s.binding? r name := by
    intro r name
    have hbinds : s'.binds name = s.binds name := by
      funext r
      rw [binds, binds, hscope]
    rw [binding?, binding?, nearest?, nearest?, chain, chain, hbinds, hscope]
  have hfollow : ∀ hops r name, s'.follow hops r name = s.follow hops r name := by
    intro hops
    induction hops with
    | zero =>
      intro r name
      rw [follow, follow, hbinding]
    | succ hops ih =>
      intro r name
      rw [follow, follow, hbinding]
      simp only [ih]
  rw [search?, search?, himports, hfollow]

theorem search?_isSome (hs : s.ImportsSound) (ha : s.ImportsAcyclic) (r : Nat) (name : String) :
    (s.search? r name).isSome := by
  rw [Option.isSome_iff_ne_none]
  intro hnone
  obtain ⟨r₁, rest, _, hlen, hchain, himports⟩ := follow_eq_none hnone
  obtain ⟨sites, hle, hsites⟩ := hs.counted
  have hsub : ∀ a ∈ (r₁, name) :: rest, a ∈ sites := by
    intro a hmem
    obtain ⟨target, name', hi⟩ := himports a hmem
    exact hsites _ _ _ _ hi
  obtain ⟨a, _, hcycle⟩ := exists_cycle_of_length_lt hchain hsub (by rw [List.length_cons]; omega)
  exact ha a hcycle

def HoldsArray (s : Store) (r r' : Nat) : Prop := Value.array r' ∈ s.array r

/-- A value leads to an array that holds itself, directly or through others. -/
def Circular (s : Store) (v : Value) : Prop :=
  ∃ r r', v = .array r ∧ Relation.ReflTransGen s.HoldsArray r r' ∧
    Relation.TransGen s.HoldsArray r' r'

/-- Arrays that are not empty, each in the one before. -/
structure ArrayChain (s : Store) (v : Value) (length : Nat) (r : Nat) (rest : List Nat) : Prop where
  start : v = .array r
  length : rest.length = length
  chain : (r :: rest).IsChain s.HoldsArray
  filled : ∀ r' ∈ r :: rest, (s.array r').toList ≠ []

theorem ArrayChain.circular {rest : List Nat} (h : s.ArrayChain v s.arrays.size r rest) :
    s.Circular v := by
  -- an array that is not empty is one of the store's
  have hsub : ∀ r' ∈ r :: rest, r' ∈ List.range s.arrays.size := by
    intro r' hr'
    rw [List.mem_range]
    by_contra hr
    exact h.filled r' hr' (by simp [Store.array, Array.getD_eq_getD_getElem?, hr])
  obtain ⟨r', hmem, hcycle⟩ := exists_cycle_of_length_lt h.chain hsub (by simp [h.length])
  have hreach : Relation.ReflTransGen s.HoldsArray r r' :=
    h.chain.induction (Relation.ReflTransGen s.HoldsArray r ·) _ (fun _ _ he hr => hr.tail he)
      (fun _ => .refl) r' hmem
  exact ⟨r, r', h.start, hreach, hcycle⟩

theorem ArrayChain.cons {r₁ : Nat} {rest : List Nat} {depth : Nat}
    (h : s.ArrayChain v depth r₁ rest) (hv : v ∈ (s.array r).toList) :
    s.ArrayChain (.array r) (depth + 1) r (r₁ :: rest) := by
  have hholds : s.HoldsArray r r₁ := by
    rw [h.start] at hv
    exact Array.mem_toList_iff.1 hv
  refine ⟨rfl, by simp [h.length], .cons_cons hholds h.chain, ?_⟩
  rintro r' (_ | hr')
  · exact List.ne_nil_of_mem hv
  · exact h.filled r' (by assumption)

theorem ArrayChain.single (h : (s.array r).toList ≠ []) : s.ArrayChain (.array r) 0 r [] :=
  ⟨rfl, rfl, .singleton r, by simpa using h⟩

theorem mapM_eq_none {α β : Type} {f : α → Option β} {l : List α} (h : l.mapM f = none) :
    ∃ a ∈ l, f a = none := by
  induction l with
  | nil => cases h
  | cons a l ih =>
    cases ha : f a with
    | none => exact ⟨a, by simp, ha⟩
    | some b =>
      rw [List.mapM_cons, ha] at h
      cases hl : l.mapM f with
      | none =>
        obtain ⟨a', ha', hf⟩ := ih hl
        exact ⟨a', by simp [ha'], hf⟩
      | some bs => simp [hl] at h

theorem textAt_eq_none {depth : Nat} (h : s.textAt depth v = none) :
    ∃ r rest, s.ArrayChain v depth r rest := by
  induction depth generalizing v with
  | zero =>
    cases v with
    | array r =>
      refine ⟨r, [], .single ?_⟩
      intro hnil
      simp [textAt, hnil] at h
    | _ => simp [textAt] at h
  | succ depth ih =>
    cases v with
    | array r =>
      unfold textAt at h
      split at h
      · cases h
      · contradiction
      · rename_i heq _
        cases heq
        obtain ⟨v, hv, hnone⟩ := mapM_eq_none (Option.map_eq_none_iff.1 h)
        split at hnone
        · cases hnone
        · obtain ⟨r₁, rest, hchain⟩ := ih hnone
          exact ⟨r, r₁ :: rest, hchain.cons hv⟩
    | _ => simp [textAt] at h

theorem numberAt_eq_none {depth : Nat} (h : s.numberAt depth v = none) :
    ∃ r rest, s.ArrayChain v depth r rest := by
  induction depth generalizing v with
  | zero =>
    cases v with
    | array r =>
      refine ⟨r, [], .single ?_⟩
      intro hnil
      simp [numberAt, hnil] at h
    | _ => simp [numberAt] at h
  | succ depth ih =>
    cases v with
    | array r =>
      unfold numberAt at h
      split at h
      · cases h
      · contradiction
      · rename_i v _ hitems heq
        cases heq
        obtain ⟨r₁, rest, hchain⟩ := ih h
        exact ⟨r, r₁ :: rest, hchain.cons (by simp [hitems])⟩
      · cases h
    | _ => simp [numberAt] at h

theorem text?_eq_none (h : s.text? v = none) : s.Circular v := by
  obtain ⟨r, rest, hchain⟩ := textAt_eq_none h
  exact hchain.circular

theorem number?_eq_none (h : s.number? v = none) : s.Circular v := by
  obtain ⟨r, rest, hchain⟩ := numberAt_eq_none h
  exact hchain.circular

/-- An array has one item, and that is an array. -/
def Wraps (s : Store) (r r' : Nat) : Prop := (s.array r).toList = [.array r']

/-- A value is an array that has another one as its only item, and so on up to the one here. -/
def LeadsTo (s : Store) (v : Value) (target : Nat) : Prop :=
  ∃ r, v = .array r ∧ Relation.ReflTransGen s.Wraps r target

variable {target : Nat}

theorem looksInto_array {depth : Nat} : s.looksInto target depth (.array r) = true ↔
    r = target ∨ ∃ depth' v, depth = depth' + 1 ∧ (s.array r).toList = [v] ∧
      s.looksInto target depth' v = true := by
  conv_lhs => unfold looksInto
  rw [Bool.or_eq_true, beq_iff_eq]
  refine or_congr_right ?_
  split
  · rename_i v depth hitems
    simp [hitems]
  · rename_i hno
    simp only [Bool.false_eq_true, false_iff]
    rintro ⟨depth', v, hdepth, hitems, _⟩
    exact hno v depth' hitems hdepth

theorem leadsTo_of_looksInto {depth : Nat} (h : s.looksInto target depth v = true) :
    s.LeadsTo v target := by
  induction depth generalizing v with
  | zero =>
    cases v with
    | array r =>
      rcases looksInto_array.1 h with rfl | ⟨_, _, hdepth, _⟩
      · exact ⟨r, rfl, .refl⟩
      · cases hdepth
    | _ => cases h
  | succ depth ih =>
    cases v with
    | array r =>
      rcases looksInto_array.1 h with rfl | ⟨_, v, hdepth, hitems, h⟩
      · exact ⟨r, rfl, .refl⟩
      · cases hdepth
        obtain ⟨r', rfl, hreach⟩ := ih h
        exact ⟨r, rfl, .head hitems hreach⟩
    | _ => cases h

/-- A path along single items that comes by no array twice. -/
structure WrapPath (s : Store) (target r : Nat) (rest : List Nat) : Prop where
  chain : (r :: rest).IsChain s.Wraps
  last : (r :: rest).getLast (List.cons_ne_nil r rest) = target
  nodup : (r :: rest).Nodup

theorem exists_wrapPath (h : Relation.ReflTransGen s.Wraps r target) :
    ∃ rest, s.WrapPath target r rest := by
  induction h using Relation.ReflTransGen.head_induction_on with
  | refl => exact ⟨[], .singleton _, rfl, by simp⟩
  | @head r r₁ hwraps _ ih =>
    obtain ⟨rest, hpath⟩ := ih
    by_cases hmem : r ∈ r₁ :: rest
    · -- the path comes back to `r` and goes on from there
      obtain ⟨before, after, heq⟩ := List.append_of_mem hmem
      refine ⟨after, ?_, ?_, ?_⟩
      · exact (heq ▸ hpath.chain).right_of_append
      · have hlast := hpath.last
        simp only [heq] at hlast
        rw [← hlast, List.getLast_append_of_ne_nil]
      · exact (List.nodup_append.1 (heq ▸ hpath.nodup)).2.1
    · refine ⟨r₁ :: rest, .cons_cons hwraps hpath.chain, ?_, List.nodup_cons.2 ⟨hmem, hpath.nodup⟩⟩
      rw [List.getLast_cons_cons]
      exact hpath.last

theorem WrapPath.looksInto {depth : Nat} {rest : List Nat} (h : s.WrapPath target r rest)
    (hle : rest.length ≤ depth) : s.looksInto target depth (.array r) = true := by
  induction rest generalizing r depth with
  | nil => exact looksInto_array.2 (.inl h.last)
  | cons r₁ rest ih =>
    obtain ⟨hwraps, hchain⟩ := List.isChain_cons_cons.1 h.chain
    cases depth with
    | zero => cases hle
    | succ depth =>
      refine looksInto_array.2 (.inr ⟨depth, _, rfl, hwraps, ?_⟩)
      exact ih ⟨hchain, h.last, (List.nodup_cons.1 h.nodup).2⟩ (Nat.le_of_succ_le_succ hle)

theorem WrapPath.length_le {rest : List Nat} (h : s.WrapPath target r rest) :
    rest.length ≤ s.arrays.size := by
  -- all arrays on the path but the last have an item, so they are in the store
  have hsub : ∀ r' ∈ (r :: rest).dropLast, r' ∈ List.range s.arrays.size := by
    have hchain := h.chain
    clear h
    induction rest generalizing r with
    | nil => exact fun r' hr' => nomatch hr'
    | cons r₁ rest ih =>
      obtain ⟨hwraps, hchain⟩ := List.isChain_cons_cons.1 hchain
      intro r' hr'
      rcases List.mem_cons.1 hr' with rfl | hr'
      · rw [List.mem_range]
        by_contra hlt
        simp [Wraps, Store.array, Array.getD_eq_getD_getElem?, hlt] at hwraps
      · exact ih hchain r' hr'
  have hle := (List.subperm_of_subset (h.nodup.sublist (List.dropLast_sublist _)) hsub).length_le
  simpa using hle

/-- Finding the number of a value looks into just the arrays that the value leads to. -/
theorem numberReads_iff : s.numberReads v target = true ↔ s.LeadsTo v target := by
  refine ⟨leadsTo_of_looksInto, ?_⟩
  rintro ⟨r, rfl, hreach⟩
  obtain ⟨rest, hpath⟩ := exists_wrapPath hreach
  exact hpath.looksInto hpath.length_le

theorem Circular.exists_array (h : s.Circular v) : ∃ r, v = .array r := by
  obtain ⟨r, _, hv, _⟩ := h
  exact ⟨r, hv⟩

variable {a b : Value}

theorem looseEquals_eq_none (h : s.looseEquals a b = none) : ∃ v ∈ [a, b], s.Circular v := by
  -- what a side is converted to is no array, so the array that holds itself is on the other side
  fun_induction looseEquals s a b with
  | case5 p b _ _ ih =>
    obtain ⟨v, hv, hcircular⟩ := ih h
    obtain ⟨r, rfl⟩ := hcircular.exists_array
    exact ⟨_, by simpa using hv, hcircular⟩
  | case6 a q _ _ _ ih =>
    obtain ⟨v, hv, hcircular⟩ := ih h
    obtain ⟨r, rfl⟩ := hcircular.exists_array
    exact ⟨_, by simpa using hv, hcircular⟩
  | case7 a b _ _ _ _ _ _ _ ih =>
    cases ha : s.text? a with
    | none => exact ⟨a, by simp, text?_eq_none ha⟩
    | some t =>
      rw [ha] at h
      obtain ⟨v, hv, hcircular⟩ := ih t h
      obtain ⟨r, rfl⟩ := hcircular.exists_array
      exact ⟨_, List.mem_cons_of_mem a (by simpa using hv), hcircular⟩
  | case8 a b _ _ _ _ _ _ _ _ ih =>
    cases hb : s.text? b with
    | none => exact ⟨b, by simp, text?_eq_none hb⟩
    | some t =>
      rw [hb] at h
      obtain ⟨v, hv, hcircular⟩ := ih t h
      obtain ⟨r, rfl⟩ := hcircular.exists_array
      exact ⟨_, List.mem_cons.2 (.inl (by simpa using hv)), hcircular⟩
  | _ => cases h

theorem order_eq_none (h : s.order a b = none) : ∃ v ∈ [a, b], s.Circular v := by
  unfold order at h
  split at h
  · cases h
  · cases ha : s.number? a with
    | none => exact ⟨a, by simp, number?_eq_none ha⟩
    | some x =>
      cases hb : s.number? b with
      | none => exact ⟨b, by simp, number?_eq_none hb⟩
      | some y => simp [ha, hb] at h

end Store

end Typings
