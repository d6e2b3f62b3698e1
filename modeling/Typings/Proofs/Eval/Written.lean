import Typings.Proofs.Eval.FieldOrder
import Typings.Proofs.Eval.Lengths
import Typings.Proofs.Eval.Properties

namespace Typings

namespace PropertyList

/-- The key that is inserted has the property, and all others have what they had. -/
theorem lookup_insert (l : PropertyList) (key key' : String) (p : Property) :
    (l.insert key p).lookup key' = if key' = key then some p else l.lookup key' := by
  unfold insert
  split
  · rename_i hmem
    have hmap : (l.map fun e => if e.1 = key then (key, p) else e) =
        l.map fun e => (e.1, if e.1 = key then p else e.2) := by
      apply List.map_congr_left
      intro e _
      by_cases he : e.1 = key
      · simp [he]
      · simp [he]
    rw [hmap, Association.lookup_map_values fun k q => if k = key then p else q]
    by_cases hkey : key' = key
    · subst hkey
      obtain ⟨q, hq⟩ := Option.isSome_iff_exists.1 (Association.lookup_isSome_iff_mem.2 hmem)
      simp [hq]
    · simp [hkey]
  · rename_i hmem
    rw [List.lookup_append]
    by_cases hkey : key' = key
    · subst hkey
      have hnone : l.lookup key' = none := by
        rw [← Option.not_isSome_iff_eq_none, Association.lookup_isSome_iff_mem]
        exact hmem
      simp [hnone]
    · have hne : (key' == key) = false := by simpa using hkey
      simp [hkey, List.lookup_cons, hne]

end PropertyList

namespace PropertyMap

variable {m : PropertyMap}

/-- The index of the map leads from each key to its property and nowhere else. -/
def Lawful (m : PropertyMap) : Prop := ∃ l, m.Represents l

theorem lawful_of_isEmpty (hentries : m.isEmpty = true) (hindex : m.index.isEmpty = true) :
    m.Lawful := by
  refine ⟨[], by simpa [isEmpty] using hentries, fun key i => ?_⟩
  simp [Std.TreeMap.getElem?_of_isEmpty hindex, PropertyList.keys]

theorem Lawful.insert (h : m.Lawful) (key : String) (p : Property) : (m.insert key p).Lawful := by
  obtain ⟨l, hl⟩ := h
  exact ⟨_, hl.insert key p⟩

theorem Lawful.get?_insert (h : m.Lawful) (key key' : String) (p : Property) :
    (m.insert key p).get? key' = if key' = key then some p else m.get? key' := by
  obtain ⟨l, hl⟩ := h
  rw [(hl.insert key p).get?, hl.get?, PropertyList.lookup_insert]

end PropertyMap

def Slot.setter? : Slot → Option Value
  | .data _ => none
  | .accessor _ set => set

/-- Whether a value has properties of its own. The items of an array are none. -/
def Value.hasProperties : Value → Bool
  | .object _ | .function _ | .classOf _ => true
  | _ => false

namespace Store

variable {s s' : Store} {base v : Value} {key : String} {r c i : Nat}

/--
The base is an object, function, class or array of the store. Its properties are in order, as
changes leave them.
-/
def Has (s : Store) : Value → Prop
  | .object r => r < s.objects.size ∧ (s.object r).props.Lawful
  | .function r => r < s.functions.size ∧ (s.function r).props.Lawful
  | .classOf c => c < s.classes.size ∧ (s.classCell c).statics.Lawful
  | .array r => r < s.arrays.size
  | _ => False

theorem Has.cases (h : s.Has base) :
    (∃ r, base = .array r ∧ r < s.arrays.size) ∨ base.hasProperties = true := by
  cases base with
  | array r => exact .inl ⟨r, rfl, h⟩
  | object r => exact .inr rfl
  | function r => exact .inr rfl
  | classOf c => exact .inr rfl
  | _ => exact h.elim

/-- A property that an object, function or class has itself. -/
def ownProperty? (s : Store) (base : Value) (key : String) : Option Property :=
  match base with
  | .object r => (s.object r).props.get? key
  | .function r => (s.function r).props.get? key
  | .classOf c => (s.classCell c).statics.get? key
  | _ => none

/-- The nearest property of an object or class, its own or inherited. -/
def nearestProperty? (s : Store) (base : Value) (key : String) : Option Property :=
  match base with
  | .object r => (s.object r).props.get? key <|> do s.sharedProperty? (← (s.object r).class?) key
  | .classOf c => s.staticProperty? c key
  | _ => none

/-- The setter that a write calls. -/
def setter? (s : Store) (base : Value) (key : String) : Option Value :=
  (s.nearestProperty? base key).bind (·.slot.setter?)

/-- The nearest property of an object has a getter alone. -/
def ReadOnly (s : Store) (base : Value) (key : String) : Prop :=
  (∃ r, base = .object r) ∧ ∃ get e, s.nearestProperty? base key = some ⟨.accessor get none, e⟩

/-- Make a property of an object, function or class itself, in place of one it has. -/
def putOwn (s : Store) (base : Value) (key : String) (v : Value) : Store :=
  match base with
  | .object r => s.setObject r fun o => { o with props := o.props.insert key (.data v) }
  | .function r => s.setFunction r fun f => { f with props := f.props.insert key (.data v) }
  | .classOf c => s.setClass c fun d => { d with statics := d.statics.insert key (.data v) }
  | _ => s

/-- Nothing but the property `key` of `base` differs. -/
structure WritesOnly (s : Store) (base : Value) (key : String) (s' : Store) : Prop where
  objects : ∀ r, s'.object r = s.object r ∨
    base = .object r ∧ s'.object r = { s.object r with props := (s'.object r).props }
  functions : ∀ r, s'.function r = s.function r ∨
    base = .function r ∧ s'.function r = { s.function r with props := (s'.function r).props }
  classes : ∀ c, s'.classCell c = s.classCell c ∨
    base = .classOf c ∧ s'.classCell c = { s.classCell c with statics := (s'.classCell c).statics }
  arrays : ∀ r, s'.array r = s.array r ∨ base = .array r
  own : ∀ key', key' ≠ key → s'.ownProperty? base key' = s.ownProperty? base key'
  /-- An array is filled up with `undefined` in front of a new item. -/
  items : ∀ r i, base = .array r → indexOfKey? key = some i → ∀ j, j ≠ i → (s'.array r)[j]? =
    if j < (s.array r).size then (s.array r)[j]? else if j < i then some .undefined else none
  rest : s' = { s with
    objects := s'.objects, functions := s'.functions, classes := s'.classes, arrays := s'.arrays }

theorem object_setObject (s : Store) (r r' : Nat) (f : ObjectCell → ObjectCell) :
    (s.setObject r f).object r' =
      if r = r' ∧ r' < s.objects.size then f (s.object r') else s.object r' :=
  getD_modify ..

theorem function_setFunction (s : Store) (r r' : Nat) (f : FunctionCell → FunctionCell) :
    (s.setFunction r f).function r' =
      if r = r' ∧ r' < s.functions.size then f (s.function r') else s.function r' :=
  getD_modify ..

theorem classCell_setClass (s : Store) (c c' : Nat) (f : ClassCell → ClassCell) :
    (s.setClass c f).classCell c' =
      if c = c' ∧ c' < s.classes.size then f (s.classCell c') else s.classCell c' :=
  getD_modify ..

theorem ownProperty?_putOwn (hbase : s.Has base) (hown : base.hasProperties = true)
    (key key' : String) (v : Value) : (s.putOwn base key v).ownProperty? base key' =
      if key' = key then some (.data v) else s.ownProperty? base key' := by
  cases base with
  | object r =>
    have hcell := object_setObject s r r fun o => { o with props := o.props.insert key (.data v) }
    rw [if_pos ⟨rfl, hbase.1⟩] at hcell
    rw [putOwn, ownProperty?, hcell]
    exact hbase.2.get?_insert key key' _
  | function r =>
    have hcell := function_setFunction s r r fun f =>
      { f with props := f.props.insert key (.data v) }
    rw [if_pos ⟨rfl, hbase.1⟩] at hcell
    rw [putOwn, ownProperty?, hcell]
    exact hbase.2.get?_insert key key' _
  | classOf c =>
    have hcell := classCell_setClass s c c fun d =>
      { d with statics := d.statics.insert key (.data v) }
    rw [if_pos ⟨rfl, hbase.1⟩] at hcell
    rw [putOwn, ownProperty?, hcell]
    exact hbase.2.get?_insert key key' _
  | _ => cases hown

theorem Has.putOwn {other : Value} (h : s.Has other) (base : Value) (key : String) (v : Value) :
    (s.putOwn base key v).Has other := by
  cases base with
  | object r =>
    cases other with
    | object r' =>
      refine ⟨by simpa [Store.putOwn, setObject] using h.1, ?_⟩
      rw [Store.putOwn, object_setObject]
      split
      · exact h.2.insert key _
      · exact h.2
    | _ => exact h
  | function r =>
    cases other with
    | function r' =>
      refine ⟨by simpa [Store.putOwn, setFunction] using h.1, ?_⟩
      rw [Store.putOwn, function_setFunction]
      split
      · exact h.2.insert key _
      · exact h.2
    | _ => exact h
  | classOf c =>
    cases other with
    | classOf c' =>
      refine ⟨by simpa [Store.putOwn, setClass] using h.1, ?_⟩
      rw [Store.putOwn, classCell_setClass]
      split
      · exact h.2.insert key _
      · exact h.2
    | _ => exact h
  | _ => exact h

theorem Has.setArray {other : Value} (h : s.Has other) (r : Nat) (f : Array Value → Array Value) :
    (s.setArray r f).Has other := by
  cases other with
  | array r' =>
    have hr : r' < s.arrays.size := h
    simpa [Has, Store.setArray] using hr
  | _ => exact h

theorem writesOnly_putOwn (hbase : s.Has base) (hown : base.hasProperties = true)
    (key : String) (v : Value) : s.WritesOnly base key (s.putOwn base key v) := by
  have hothers : ∀ key', key' ≠ key →
      (s.putOwn base key v).ownProperty? base key' = s.ownProperty? base key' := by
    intro key' hne
    rw [ownProperty?_putOwn hbase hown, if_neg hne]
  have hitems : ∀ r i, base = .array r → indexOfKey? key = some i → ∀ j, j ≠ i →
      ((s.putOwn base key v).array r)[j]? = if j < (s.array r).size then (s.array r)[j]?
        else if j < i then some .undefined else none := by
    rintro r i rfl
    cases hown
  cases base with
  | object r =>
    refine ⟨fun r' => ?_, fun _ => .inl rfl, fun _ => .inl rfl, fun _ => .inl rfl, hothers, hitems,
      rfl⟩
    rw [putOwn, object_setObject]
    split
    · rename_i hr
      exact .inr ⟨hr.1 ▸ rfl, rfl⟩
    · exact .inl rfl
  | function r =>
    refine ⟨fun _ => .inl rfl, fun r' => ?_, fun _ => .inl rfl, fun _ => .inl rfl, hothers, hitems,
      rfl⟩
    rw [putOwn, function_setFunction]
    split
    · rename_i hr
      exact .inr ⟨hr.1 ▸ rfl, rfl⟩
    · exact .inl rfl
  | classOf c =>
    refine ⟨fun _ => .inl rfl, fun _ => .inl rfl, fun c' => ?_, fun _ => .inl rfl, hothers, hitems,
      rfl⟩
    rw [putOwn, classCell_setClass]
    split
    · rename_i hc
      exact .inr ⟨hc.1 ▸ rfl, rfl⟩
    · exact .inl rfl
  | _ => cases hown

end Store

namespace EvalM

variable {s s' : Store} {m : Machine} {base v : Value} {key : String} {r c i : Nat}

theorem getProperty_of_own (h : s.ownProperty? base key = some (.data v)) :
    getProperty m base key s = (.ok v, s) := by
  cases base with
  | object r =>
    refine (get_bind s).trans ?_
    have hp : (s.object r).props.get? key = some (.data v) := h
    simp only [hp]
    rfl
  | function r =>
    refine (get_bind s).trans ?_
    have hp : (s.function r).props.get? key = some (.data v) := h
    simp only [hp]
    rfl
  | classOf c =>
    refine (get_bind s).trans ((get_bind s).trans ?_)
    have hp : (s.classCell c).statics.get? key = some (.data v) := h
    simp only [hp]
    rfl
  | _ => cases h

/-- Write where the nearest property has the slot. A class gets a property beside a getter alone. -/
def writeOver (m : Machine) (base : Value) (key : String) (v : Value) (slot : Slot) : EvalM Unit :=
  match slot, base with
  | .accessor _ (some f), _ => callSetter m f base v
  | .accessor _ none, .object _ => fail (.getterOnly key)
  | _, _ => modify (·.putOwn base key v)

theorem setProperty_of_nearest {p : Property} (h : s.nearestProperty? base key = some p)
    (m : Machine) (v : Value) : setProperty m base key v s = writeOver m base key v p.slot s := by
  obtain ⟨slot, e⟩ := p
  cases base with
  | object r =>
    have hfound : ((s.object r).props.get? key <|> do
        s.sharedProperty? (← (s.object r).class?) key) = some ⟨slot, e⟩ := h
    refine (get_bind s).trans ?_
    simp only [hfound]
    match slot with
    | .data _ | .accessor _ (some _) | .accessor _ none => rfl
  | classOf c =>
    have hfound : s.staticProperty? c key = some ⟨slot, e⟩ := h
    refine (get_bind s).trans ?_
    simp only [hfound]
    match slot with
    | .data _ | .accessor _ (some _) | .accessor _ none => rfl
  | _ => cases h

theorem setProperty_of_none (hbase : base.hasProperties = true)
    (h : s.nearestProperty? base key = none) (m : Machine) (v : Value) :
    setProperty m base key v s = (.ok (), s.putOwn base key v) := by
  cases base with
  | object r =>
    have hfound : ((s.object r).props.get? key <|> do
        s.sharedProperty? (← (s.object r).class?) key) = none := h
    refine (get_bind s).trans ?_
    simp only [hfound]
    rfl
  | classOf c =>
    have hfound : s.staticProperty? c key = none := h
    refine (get_bind s).trans ?_
    simp only [hfound]
    rfl
  | function r => rfl
  | _ => cases hbase

theorem setProperty_of_setter {f : Value} (h : s.setter? base key = some f) (m : Machine)
    (v : Value) : setProperty m base key v s = callSetter m f base v s := by
  obtain ⟨⟨slot, e⟩, hp, hf⟩ := Option.bind_eq_some_iff.1 h
  rw [setProperty_of_nearest hp]
  cases slot with
  | data _ => cases hf
  | accessor get set =>
    have hset : set = some f := hf
    rw [hset]
    rfl

theorem setProperty_of_readOnly (h : s.ReadOnly base key) (m : Machine) (v : Value) :
    setProperty m base key v s = (.error (.fault (.getterOnly key)), s) := by
  obtain ⟨⟨r, rfl⟩, get, e, hp⟩ := h
  rw [setProperty_of_nearest hp]
  rfl

theorem setProperty_of_not_readOnly (hbase : base.hasProperties = true)
    (h : s.setter? base key = none) (hwritable : ¬ s.ReadOnly base key) (m : Machine) (v : Value) :
    setProperty m base key v s = (.ok (), s.putOwn base key v) := by
  cases hp : s.nearestProperty? base key with
  | none => exact setProperty_of_none hbase hp m v
  | some p =>
    obtain ⟨slot, e⟩ := p
    rw [setProperty_of_nearest hp]
    cases slot with
    | data w => rfl
    | accessor get set =>
      obtain rfl : set = none := by
        rw [Store.setter?, hp] at h
        exact h
      -- a getter alone stands in the way of an object, but not of a class
      cases base with
      | object r => exact absurd ⟨⟨r, rfl⟩, get, e, hp⟩ hwritable
      | classOf c => rfl
      | _ => cases hp

theorem ne_length_of_index (hi : indexOfKey? key = some i) : (key == "length") = false := by
  have hlength : indexOfKey? "length" = none := by decide
  rw [beq_eq_false_iff_ne]
  rintro rfl
  cases hlength.symm.trans hi

theorem askedLength?_of_index (hi : indexOfKey? key = some i) (hlt : i < maxDenseLength) :
    s.askedLength? key v = some (i + 1) := by
  have hmax : i < maxArrayLength := Nat.lt_trans hlt (by decide)
  simp [Store.askedLength?, ne_length_of_index hi, hi, hmax]

theorem getElem?_resize (items : Array Value) {n : Nat} (hn : items.size ≤ n) (j : Nat) :
    (resize items n)[j]? =
      if j < items.size then items[j]? else if j < n then some .undefined else none := by
  unfold resize
  split
  · have hsize : items.size = n := by omega
    by_cases hj : j < n
    · simp [hsize, hj]
    · simp [hsize, hj]
  · rw [Array.getElem?_append]
    split
    · rfl
    · rw [Array.getElem?_replicate]
      split
      · rw [if_pos (by omega)]
      · rw [if_neg (by omega)]

theorem getElem?_writeElement (hi : indexOfKey? key = some i) (items : Array Value) (j : Nat) :
    (writeElement key v (i + 1) items)[j]? = if j = i then some v
      else if j < items.size then items[j]? else if j < i then some .undefined else none := by
  have hkey := ne_length_of_index hi
  simp only [writeElement, hkey, Bool.false_eq_true, if_false, Nat.add_sub_cancel]
  rw [Array.getElem?_modify]
  by_cases hlt : i < items.size
  · rw [if_pos hlt]
    by_cases hj : j = i
    · subst hj
      simp [hlt]
    · rw [if_neg (Ne.symm hj), if_neg hj]
      split
      · rfl
      · rw [if_neg (by omega), Array.getElem?_eq_none (by omega)]
  · rw [if_neg hlt, getElem?_resize items (by omega)]
    by_cases hj : j = i
    · subst hj
      simp [hlt]
    · rw [if_neg (Ne.symm hj), if_neg hj]
      split
      · rfl
      · have hiff : j < i + 1 ↔ j < i := by omega
        simp only [hiff]

theorem setElement_of_none (hfree : ¬ s.Locks r key v) (hn : s.askedLength? key v = none) :
    ∃ result, setElement r key v s = (result, s) := by
  unfold Store.askedLength? at hn
  unfold setElement
  split at hn
  · rename_i hkey
    have hlength := lengthOf_of_not_locks (beq_iff_eq.1 hkey ▸ hfree)
    rw [numberOf_eq] at hlength
    rw [if_pos hkey]
    cases hx : s.number? v with
    | none =>
      rw [hx] at hlength
      exact ⟨_, bind_error hlength⟩
    | some x =>
      rw [hx] at hn hlength
      rw [Option.bind_eq_bind, Option.bind_some] at hn
      split at hn
      · cases hn
      · rename_i hvalid
        rw [bind_ok hlength, if_neg hvalid]
        exact ⟨_, rfl⟩
  · rename_i hkey
    rw [if_neg hkey]
    cases hi : indexOfKey? key with
    | none => exact ⟨_, rfl⟩
    | some i =>
      rw [hi, Option.bind_eq_bind, Option.bind_some] at hn
      split at hn
      · cases hn
      · rename_i hmax
        simp only [if_neg hmax]
        exact ⟨_, rfl⟩

theorem setElement_error {stop : Stop} (h : setElement r key v s = (.error stop, s')) : s' = s := by
  by_cases hlocks : s.Locks r key v
  · cases (setElement_of_locks hlocks).symm.trans h
    rfl
  cases hn : s.askedLength? key v with
  | none =>
    obtain ⟨_, hrun⟩ := setElement_of_none hlocks hn
    cases hrun.symm.trans h
    rfl
  | some n =>
    rw [setElement_of_askedLength? hlocks hn] at h
    split at h
    · cases h
    · cases h
      rfl

theorem setProperty_of_index (hi : indexOfKey? key = some i) (hlt : i < maxDenseLength)
    (m : Machine) (r : Nat) (v : Value) (s : Store) :
    setProperty m (.array r) key v s = (.ok (), s.setArray r (writeElement key v (i + 1))) := by
  have hfree : ¬ s.Locks r key v := fun h => absurd h.1 (beq_eq_false_iff_ne.1 (ne_length_of_index hi))
  rw [setProperty_array, setElement_of_askedLength? hfree (askedLength?_of_index hi hlt),
    if_pos (Nat.succ_le_of_lt hlt)]

theorem getProperty_of_index (hi : indexOfKey? key = some i) (m : Machine) (r : Nat) (s : Store) :
    getProperty m (.array r) key s = (.ok ((s.array r).getD i .undefined), s) := by
  refine (get_bind s).trans ?_
  simp only [arrayProperty, ne_length_of_index hi, hi]
  rfl

theorem getProperty_setArray (hr : r < s.arrays.size) (hi : indexOfKey? key = some i) (m : Machine)
    (v : Value) :
    getProperty m (.array r) key (s.setArray r (writeElement key v (i + 1))) =
      (.ok v, s.setArray r (writeElement key v (i + 1))) := by
  rw [getProperty_of_index hi, Store.array_setArray, if_pos ⟨rfl, hr⟩, Array.getD_eq_getD_getElem?,
    getElem?_writeElement hi, if_pos rfl]
  rfl

theorem writesOnly_setArray (hr : r < s.arrays.size) (hi : indexOfKey? key = some i) (v : Value) :
    s.WritesOnly (.array r) key (s.setArray r (writeElement key v (i + 1))) where
  objects _ := .inl rfl
  functions _ := .inl rfl
  classes _ := .inl rfl
  arrays r' := by
    rw [Store.array_setArray]
    split
    · rename_i h
      exact .inr (h.1 ▸ rfl)
    · exact .inl rfl
  own _ _ := rfl
  items r' i' hbase hi' j hj := by
    cases hbase
    cases hi.symm.trans hi'
    rw [Store.array_setArray, if_pos ⟨rfl, hr⟩, getElem?_writeElement hi, if_neg hj]
  rest := rfl

end EvalM

/-- A key that can be written: of an array the index of an item in bounds, of others any. -/
def Value.Accepts (base : Value) (key : String) : Prop :=
  ∀ r, base = .array r → ∃ i, indexOfKey? key = some i ∧ i < maxDenseLength

/--
A write calls the setter of the nearest property of the name, if there is one. If there is none, it
calls nothing. It is refused and changes nothing, as it is where an object has a getter alone; or it
is made, and then the value is read back, without a call or a change, and nothing but the property
differs.
-/
theorem write_reads_back {s : Store} {base : Value} (hbase : s.Has base) (m : Machine)
    (key : String) (v : Value) :
    (∀ f, s.setter? base key = some f →
      EvalM.setProperty m base key v s = EvalM.callSetter m f base v s) ∧
    (s.setter? base key = none →
      (∀ m', EvalM.setProperty m' base key v s = EvalM.setProperty m base key v s) ∧
      (base.Accepts key →
        (¬ s.ReadOnly base key ↔ ∃ s', EvalM.setProperty m base key v s = (.ok (), s'))) ∧
      (∀ s', base.Accepts key → EvalM.setProperty m base key v s = (.ok (), s') →
        EvalM.getProperty m base key s' = (.ok v, s') ∧ s.WritesOnly base key s' ∧
          ∀ other, s.Has other → s'.Has other) ∧
      ∀ stop s', EvalM.setProperty m base key v s = (.error stop, s') → s' = s) := by
  refine ⟨fun f hf => EvalM.setProperty_of_setter hf m v, fun hnone => ?_⟩
  rcases hbase.cases with ⟨r, rfl, hr⟩ | hown
  · -- an array has no property that could be read-only, and its items are written in place
    refine ⟨fun _ => rfl, fun hkey => ?_, fun s' hkey hrun => ?_, fun _ _ => EvalM.setElement_error⟩
    · obtain ⟨i, hi, hlt⟩ := hkey r rfl
      refine ⟨fun _ => ⟨_, EvalM.setProperty_of_index hi hlt m r v s⟩, ?_⟩
      rintro - ⟨⟨r', hr'⟩, _⟩
      cases hr'
    · obtain ⟨i, hi, hlt⟩ := hkey r rfl
      cases (EvalM.setProperty_of_index hi hlt m r v s).symm.trans hrun
      exact ⟨EvalM.getProperty_setArray hr hi m v, EvalM.writesOnly_setArray hr hi v,
        fun _ h => h.setArray r _⟩
  · by_cases hreadOnly : s.ReadOnly base key
    · have hrefused := fun m => EvalM.setProperty_of_readOnly hreadOnly m v
      simp only [hrefused]
      refine ⟨fun _ => trivial, fun _ => ⟨absurd hreadOnly, ?_⟩, ?_, ?_⟩
      · rintro ⟨_, ⟨⟩⟩
      · rintro _ _ ⟨⟩
      · rintro _ _ ⟨⟩
        rfl
    · have hmade := fun m => EvalM.setProperty_of_not_readOnly hown hnone hreadOnly m v
      simp only [hmade]
      refine ⟨fun _ => trivial, fun _ => ⟨fun _ => ⟨_, rfl⟩, fun _ => hreadOnly⟩, ?_, ?_⟩
      · rintro _ _ ⟨⟩
        refine ⟨EvalM.getProperty_of_own ?_, Store.writesOnly_putOwn hbase hown key v,
          fun _ h => h.putOwn base key v⟩
        rw [Store.ownProperty?_putOwn hbase hown, if_pos rfl]
      · rintro _ _ ⟨⟩

/-- An instance of a class whose ancestors each have one half of an accessor. -/
def Store.withHalves : Store := .afterText
  "class A { get x() {} static set y(v) {} }
   class B extends A { set x(v) {} static get y() {} }
   class C extends B {}
   new C()"

section

set_option maxRecDepth 2000

theorem Store.withHalves_holds :
    (2 < withHalves.classes.size ∧ (withHalves.classCell 2).statics.isEmpty = true ∧
      (withHalves.classCell 2).statics.index.isEmpty = true ∧
      withHalves.setter? (.classOf 2) "y" = none) ∧
    (withHalves.object 0).class? = some 2 ∧ (withHalves.object 0).props.contains "x" = false ∧
      withHalves.lineage 2 = [2, 1, 0] ∧ (withHalves.classCell 2).shared.get? "x" = none ∧
      (withHalves.classCell 1).shared.get? "x" =
        some ⟨.accessor none (some (.function 5)), false⟩ := by
  have hstore : withHalves = afterBody _ (Module.ofChars _ _) := afterText_eq String.toList_ofList
  rw [hstore]
  decide +kernel

end

theorem write_reads_back_withHalves :
    Store.withHalves.Has (.classOf 2) ∧ Store.withHalves.setter? (.classOf 2) "y" = none ∧
      ∃ s', EvalM.setProperty .full (.classOf 2) "y" .null Store.withHalves = (.ok (), s') ∧
        EvalM.getProperty .full (.classOf 2) "y" s' = (.ok .null, s') ∧
        Store.withHalves.WritesOnly (.classOf 2) "y" s' := by
  obtain ⟨hsize, hentries, hindex, hsetter⟩ := Store.withHalves_holds.1
  have hbase : Store.withHalves.Has (.classOf 2) :=
    ⟨hsize, PropertyMap.lawful_of_isEmpty hentries hindex⟩
  have haccepts : (Value.classOf 2).Accepts "y" := by
    rintro _ ⟨⟩
  have hwritable : ¬ Store.withHalves.ReadOnly (.classOf 2) "y" := by
    rintro ⟨⟨_, ⟨⟩⟩, _⟩
  obtain ⟨_, hmade, hread, _⟩ := (write_reads_back hbase .full "y" .null).2 hsetter
  obtain ⟨s', hrun⟩ := (hmade haccepts).1 hwritable
  obtain ⟨hback, honly, _⟩ := hread s' haccepts hrun
  exact ⟨hbase, hsetter, s', hrun, hback, honly⟩

end Typings
