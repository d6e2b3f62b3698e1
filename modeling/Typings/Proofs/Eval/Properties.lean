import Mathlib.Data.List.InsertIdx
import Typings.Eval.PropertyMap
import Typings.Proofs.Association

namespace Typings

/-- Properties in order, without an index. -/
abbrev PropertyList := List (String × Property)

namespace PropertyList

def keys (l : PropertyList) : List String := l.map (·.1)

/-- A key that is there gets the property in its place; a new one comes last. -/
def insert (l : PropertyList) (key : String) (p : Property) : PropertyList :=
  if key ∈ l.keys then l.map fun e => if e.1 = key then (key, p) else e else l ++ [(key, p)]

/-- Halves that are given replace those of an accessor, which stays as visible as it was. -/
def insertAccessor (l : PropertyList) (key : String) (get set : Option Value) (enumerable : Bool) :
    PropertyList :=
  match l.lookup key with
  | some ⟨.accessor get' set', enumerable'⟩ =>
    l.insert key ⟨.accessor (get <|> get') (set <|> set'), enumerable'⟩
  | _ => l.insert key ⟨.accessor get set, enumerable⟩

def remove (l : PropertyList) (key : String) : PropertyList × Bool :=
  (l.filter (·.1 ≠ key), decide (key ∈ l.keys))

theorem eraseIdx_eq_filter {l : PropertyList} {key : String} {p : Property} {i : Nat}
    (hl : l.keys.Nodup) (hp : l[i]? = some (key, p)) : l.eraseIdx i = l.filter (·.1 ≠ key) := by
  induction l generalizing i with
  | nil => simp at hp
  | cons e l ih =>
    obtain ⟨hnew, hl⟩ := List.nodup_cons.1 hl
    cases i with
    | zero =>
      obtain rfl : e = (key, p) := by simpa using hp
      have hrest : l.filter (·.1 ≠ key) = l := by
        apply List.filter_eq_self.2
        intro e he
        simpa using fun hkey : e.1 = key => hnew (List.mem_map.2 ⟨e, he, hkey⟩)
      simpa using hrest.symm
    | succ i =>
      rw [List.getElem?_cons_succ] at hp
      have hne : e.1 ≠ key := by
        rintro rfl
        exact hnew (List.mem_map.2 ⟨_, List.mem_of_getElem? hp, rfl⟩)
      simpa [hne] using ih hl hp

end PropertyList

inductive PropertyChange
  | insert (key : String) (p : Property)
  | insertAccessor (key : String) (get set : Option Value) (enumerable : Bool)
  | remove (key : String)

namespace PropertyChange

/-- The map after a change; only a removal has an answer. -/
def onMap (m : PropertyMap) : PropertyChange → PropertyMap × Option Bool
  | insert key p => (m.insert key p, none)
  | insertAccessor key get set enumerable => (m.insertAccessor key get set enumerable, none)
  | remove key => (m.remove key).map id some

/-- The list after a change; only a removal has an answer. -/
def onList (l : PropertyList) : PropertyChange → PropertyList × Option Bool
  | insert key p => (l.insert key p, none)
  | insertAccessor key get set enumerable => (l.insertAccessor key get set enumerable, none)
  | remove key => (l.remove key).map id some

/-- What changes, one after another, make of something, and their answers. -/
def after {σ : Type} (apply : σ → PropertyChange → σ × Option Bool) (start : σ) :
    List PropertyChange → σ × List (Option Bool)
  | [] => (start, [])
  | change :: changes =>
    let (next, answer) := apply start change
    let (last, answers) := after apply next changes
    (last, answer :: answers)

end PropertyChange

namespace PropertyMap

variable {m : PropertyMap} {l : PropertyList} {key : String} {p : Property} {i : Nat}

/-- The map holds the list, and its index leads from each key to its position and nowhere else. -/
structure Represents (m : PropertyMap) (l : PropertyList) : Prop where
  entries : m.entries.toList = l
  index : ∀ (key : String) (i : Nat), m.index[key]? = some i ↔ l.keys[i]? = some key

theorem represents_empty : empty.Represents [] := by
  refine ⟨rfl, fun key i => ?_⟩
  simp [empty, PropertyList.keys]

namespace Represents

theorem nodup (h : m.Represents l) : l.keys.Nodup := by
  rw [List.nodup_iff_injective_getElem]
  intro i j (hij : l.keys[i] = l.keys[j])
  have hi := (h.index _ _).2 (List.getElem?_eq_getElem i.2)
  have hj := (h.index _ _).2 (List.getElem?_eq_getElem j.2)
  rw [Fin.getElem_fin, Fin.getElem_fin] at hij
  rw [← hij, hi] at hj
  exact Fin.ext (Option.some.inj hj)

theorem getElem?_entries (h : m.Represents l) (i : Nat) : m.entries[i]? = l[i]? := by
  rw [← h.entries, Array.getElem?_toList]

theorem exists_getElem? (h : m.Represents l) (hi : m.index[key]? = some i) :
    ∃ p, l[i]? = some (key, p) := by
  have hkey := (h.index key i).1 hi
  rw [PropertyList.keys, List.getElem?_map] at hkey
  obtain ⟨⟨key', p⟩, hp, rfl⟩ := Option.map_eq_some_iff.1 hkey
  exact ⟨p, hp⟩

theorem index_eq_none_iff (h : m.Represents l) : m.index[key]? = none ↔ key ∉ l.keys := by
  rw [Option.eq_none_iff_forall_ne_some, List.mem_iff_getElem?, not_exists]
  exact forall_congr' fun i => not_congr (h.index key i)

theorem contains (h : m.Represents l) (key : String) : m.contains key = decide (key ∈ l.keys) := by
  rw [PropertyMap.contains, Std.TreeMap.contains_eq_isSome_getElem?, Bool.eq_iff_iff,
    decide_eq_true_iff, ← not_iff_not, ← h.index_eq_none_iff]
  simp

theorem get? (h : m.Represents l) (key : String) : m.get? key = l.lookup key := by
  cases hi : m.index[key]? with
  | none =>
    have hlookup : l.lookup key = none := by
      rw [Option.eq_none_iff_forall_ne_some]
      intro p hp
      exact h.index_eq_none_iff.1 hi (List.mem_map_of_mem (Association.mem_of_lookup hp))
    simp [PropertyMap.get?, hi, hlookup]
  | some i =>
    obtain ⟨p, hp⟩ := h.exists_getElem? hi
    have hlookup := Association.lookup_of_mem h.nodup (List.mem_of_getElem? hp)
    simp [PropertyMap.get?, hi, h.getElem?_entries, hp, hlookup]

theorem insert (h : m.Represents l) (key : String) (p : Property) :
    (m.insert key p).Represents (l.insert key p) := by
  unfold PropertyMap.insert PropertyList.insert
  split
  · rename_i i hi
    have hmem : key ∈ l.keys := List.mem_of_getElem? ((h.index key i).1 hi)
    rw [if_pos hmem]
    constructor
    · -- Only position `i` has the key.
      rw [Array.toList_modify, h.entries]
      apply List.ext_getElem?
      intro j
      rw [List.getElem?_modify, List.getElem?_map]
      cases hj : l[j]? with
      | none => rfl
      | some e =>
        have hiff : e.1 = key ↔ i = j := by
          have hkey : l.keys[j]? = some e.1 := by rw [PropertyList.keys, List.getElem?_map, hj]; rfl
          constructor
          · intro he
            rw [he, ← h.index, hi] at hkey
            exact Option.some.inj hkey
          · intro hij
            rw [← hij, (h.index key i).1 hi] at hkey
            exact (Option.some.inj hkey).symm
        by_cases hij : i = j
        · simp [hij, hiff.2 hij]
        · have hne : e.1 ≠ key := fun he => hij (hiff.1 he)
          simp [hij, hne]
    · intro key' j
      rw [h.index]
      have hkeys : PropertyList.keys (l.map fun e => if e.1 = key then (key, p) else e) = l.keys := by
        rw [PropertyList.keys, List.map_map]
        apply List.map_congr_left
        intro e _
        by_cases he : e.1 = key <;> simp [he]
      rw [hkeys]
  · rename_i hi
    rw [if_neg (h.index_eq_none_iff.1 hi)]
    constructor
    · simp [h.entries]
    · intro key' j
      have hkeys : PropertyList.keys (l ++ [(key, p)]) = l.keys ++ [key] := List.map_append
      have hsize : m.entries.size = l.keys.length := by
        rw [PropertyList.keys, List.length_map, ← h.entries, Array.length_toList]
      simp only [Std.TreeMap.getElem?_insert, Std.LawfulEqCmp.compare_eq_iff_eq]
      rw [hkeys, hsize]
      by_cases hkey : key = key'
      · -- The new key stands behind all others, and it was not there before.
        have hnew : ∀ k, l.keys[k]? ≠ some key := fun k hk =>
          h.index_eq_none_iff.1 hi (List.mem_of_getElem? hk)
        subst hkey
        rw [if_pos rfl, List.getElem?_append]
        split
        · rename_i hj
          simp only [hnew, iff_false, Option.some.injEq]
          omega
        · rename_i hj
          rw [List.getElem?_singleton]
          grind
      · rw [if_neg hkey, h.index, List.getElem?_append]
        split
        · rfl
        · rename_i hj
          have hout : l.keys[j]? = none := List.getElem?_eq_none (by omega)
          rw [hout, List.getElem?_singleton]
          grind

theorem insertAccessor (h : m.Represents l) (key : String) (get set : Option Value)
    (enumerable : Bool) :
    (m.insertAccessor key get set enumerable).Represents
      (l.insertAccessor key get set enumerable) := by
  have hget := h.get? key
  unfold PropertyMap.insertAccessor PropertyList.insertAccessor
  rw [hget]
  cases l.lookup key with
  | none => exact h.insert key _
  | some p =>
    obtain ⟨slot, _⟩ := p
    cases slot with
    | data v => exact h.insert key _
    | accessor get' set' => exact h.insert key _

theorem index_erase (h : m.Represents l) (hi : m.index[key]? = some i) (key' : String) (j : Nat) :
    ((m.index.erase key).map fun _ j => if i < j then j - 1 else j)[key']? = some j ↔
      (l.keys.eraseIdx i)[j]? = some key' := by
  have hkey := (h.index key i).1 hi
  rw [Std.TreeMap.getElem?_map, Std.TreeMap.getElem?_erase, List.getElem?_eraseIdx]
  simp only [Std.LawfulEqCmp.compare_eq_iff_eq, Option.map_eq_some_iff]
  by_cases hsame : key = key'
  · have honly : ∀ k, l.keys[k]? = some key → k = i := by
      intro k hk
      rw [← h.index, hi] at hk
      exact (Option.some.inj hk).symm
    grind
  · rw [if_neg hsame]
    simp only [h.index]
    grind

theorem erase (h : m.Represents l) (key : String) :
    (m.erase key).Represents (l.filter (·.1 ≠ key)) := by
  unfold PropertyMap.erase
  split
  · rename_i i hi
    obtain ⟨p, hp⟩ := h.exists_getElem? hi
    rw [← PropertyList.eraseIdx_eq_filter h.nodup hp]
    constructor
    · simp [h.entries]
    · intro key' j
      rw [h.index_erase hi, PropertyList.keys, PropertyList.keys, List.eraseIdx_map]
  · rename_i hi
    have hmem := h.index_eq_none_iff.1 hi
    rw [List.filter_eq_self.2]
    · exact h
    · intro e he
      simpa using fun hkey : e.1 = key => hmem (List.mem_map.2 ⟨e, he, hkey⟩)

theorem onMap (h : m.Represents l) (change : PropertyChange) :
    (change.onMap m).1.Represents (change.onList l).1 ∧
      (change.onMap m).2 = (change.onList l).2 := by
  cases change with
  | insert key p => exact ⟨h.insert key p, rfl⟩
  | insertAccessor key get set enumerable => exact ⟨h.insertAccessor key get set enumerable, rfl⟩
  | remove key => exact ⟨h.erase key, congrArg some (h.contains key)⟩

theorem after (h : m.Represents l) (changes : List PropertyChange) :
    (PropertyChange.after PropertyChange.onMap m changes).1.Represents
        (PropertyChange.after PropertyChange.onList l changes).1 ∧
      (PropertyChange.after PropertyChange.onMap m changes).2 =
        (PropertyChange.after PropertyChange.onList l changes).2 := by
  induction changes generalizing m l with
  | nil => exact ⟨h, rfl⟩
  | cons change changes ih =>
    obtain ⟨hstep, hanswer⟩ := h.onMap change
    obtain ⟨hlast, hanswers⟩ := ih hstep
    exact ⟨hlast, congrArg₂ List.cons hanswer hanswers⟩

end Represents

/-- Any changes of an empty map are the same changes of an empty list: both answer alike, the index
has the position of each key and nothing else, and what is read off the map is read off the list. -/
theorem changes_refine_list (changes : List PropertyChange) :
    let map := PropertyChange.after PropertyChange.onMap empty changes
    let list := PropertyChange.after PropertyChange.onList [] changes
    map.2 = list.2 ∧ map.1.entries.toList = list.1 ∧ list.1.keys.Nodup ∧
      (∀ (key : String) (i : Nat), map.1.index[key]? = some i ↔ list.1.keys[i]? = some key) ∧
      (∀ key, map.1.get? key = list.1.lookup key) ∧
      (∀ key, map.1.contains key = decide (key ∈ list.1.keys)) ∧
      map.1.size = list.1.length ∧ map.1.isEmpty = list.1.isEmpty ∧ map.1.keys = list.1.keys ∧
      map.1.enumerableKeys = PropertyList.keys (list.1.filter (·.2.enumerable)) := by
  intro map list
  obtain ⟨h, hanswers⟩ := represents_empty.after changes
  have hentries : map.1.entries.toList = list.1 := h.entries
  refine ⟨hanswers, hentries, h.nodup, h.index, h.get?, h.contains, ?_, ?_, ?_, ?_⟩
  · rw [size, ← hentries, Array.length_toList]
  · rw [isEmpty, ← hentries, Array.isEmpty_toList]
  · rw [keys, hentries, PropertyList.keys]
  · rw [enumerableKeys, hentries, PropertyList.keys]

end PropertyMap

end Typings
