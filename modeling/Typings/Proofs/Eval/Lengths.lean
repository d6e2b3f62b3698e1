import Typings.Proofs.Eval.Session

namespace Typings

namespace Store

variable {s : Store} {key : String} {v : Value} {n : Nat}

/-- The length that writing a property of an array asks for, if it asks for one. -/
def askedLength? (s : Store) (key : String) (v : Value) : Option Nat :=
  if key == "length" then do
    let x ← s.number? v
    if 0.0 ≤ x && x ≤ floatOfInt maxArrayLength && (Binary.ofFloat x).isIntegral then
      some (floatToNat maxArrayLength x)
    else none
  else do
    let i ← indexOfKey? key
    if i < maxArrayLength then some (i + 1) else none

/-- Writing the length of an array reads that array. -/
def Locks (s : Store) (r : Nat) (key : String) (v : Value) : Prop := key = "length" ∧ s.LeadsTo v r

/-- The length of an array after a write that asked for `n`. Only its length can be made smaller. -/
def writtenLength (key : String) (size n : Nat) : Nat := if key == "length" then n else max size n

theorem array_setArray (s : Store) (r r' : Nat) (f : Array Value → Array Value) :
    (s.setArray r f).array r' = if r = r' ∧ r' < s.arrays.size then f (s.array r') else s.array r' :=
  getD_modify ..

theorem size_setArray (s : Store) (r : Nat) (f : Array Value → Array Value) :
    (s.setArray r f).arrays.size = s.arrays.size := by
  simp [setArray]

end Store

namespace EvalM

variable {s : Store} {key : String} {v : Value} {n : Nat}

theorem denseLength_bind {α : Type} (n : Nat) (f : Nat → EvalM α) (s : Store) :
    (denseLength n >>= f) s = if n ≤ maxDenseLength then f n s
      else (.error (.fault (.lengthLimit n maxDenseLength)), s) := by
  unfold denseLength
  split
  · rfl
  · rfl

/-- What a write that asks for a length does when it is not refused. -/
def writeElement (key : String) (v : Value) (n : Nat) (items : Array Value) : Array Value :=
  if key == "length" then resize items n
  else (if n - 1 < items.size then items else resize items n).modify (n - 1) fun _ => v

theorem size_writeElement (hn : s.askedLength? key v = some n) (items : Array Value) :
    (writeElement key v n items).size = Store.writtenLength key items.size n := by
  unfold writeElement Store.writtenLength
  split
  · exact size_resize items n
  · rename_i hkey
    have hpos : 0 < n := by
      rw [Store.askedLength?, if_neg hkey] at hn
      obtain ⟨i, _, hn⟩ := Option.bind_eq_some_iff.1 hn
      split at hn
      · cases hn
        exact Nat.succ_pos i
      · cases hn
    rw [Array.size_modify]
    split
    · omega
    · rw [size_resize]
      omega

theorem numberOf_eq (v : Value) (s : Store) :
    numberOf v s = ((s.number? v).elim (.error (.circular [v])) .ok, s) := by
  refine (get_bind s).trans ?_
  cases hx : s.number? v with
  | none =>
    simp only [hx]
    rfl
  | some x =>
    simp only [hx]
    rfl

theorem lengthOf_eq (r : Nat) (v : Value) (s : Store) : lengthOf r v s =
    if s.numberReads v r then (.error (.locked r v), s) else numberOf v s := by
  refine (get_bind s).trans ?_
  split
  · rfl
  · rfl

theorem setElement_of_locks {r : Nat} (h : s.Locks r key v) :
    setElement r key v s = (.error (.locked r v), s) := by
  obtain ⟨rfl, hleads⟩ := h
  have hlength := lengthOf_eq r v s
  rw [if_pos (Store.numberReads_iff.2 hleads)] at hlength
  unfold setElement
  exact bind_error hlength

theorem lengthOf_of_not_locks {r : Nat} (h : ¬ s.Locks r "length" v) :
    lengthOf r v s = numberOf v s := by
  rw [lengthOf_eq, if_neg]
  intro hreads
  exact h ⟨rfl, Store.numberReads_iff.1 hreads⟩

/-- A write that asks for a length is made when the length is within the limit, and else refused. -/
theorem setElement_of_askedLength? {r : Nat} (hfree : ¬ s.Locks r key v)
    (hn : s.askedLength? key v = some n) :
    setElement r key v s = if n ≤ maxDenseLength then (.ok (), s.setArray r (writeElement key v n))
      else (.error (.fault (.lengthLimit n maxDenseLength)), s) := by
  unfold Store.askedLength? at hn
  unfold setElement writeElement
  split at hn
  · rename_i hkey
    obtain ⟨x, hx, hn⟩ := Option.bind_eq_some_iff.1 hn
    split at hn
    · rename_i hvalid
      cases hn
      have hlength : lengthOf r v s = (.ok x, s) := by
        rw [beq_iff_eq] at hkey
        rw [lengthOf_of_not_locks (hkey ▸ hfree), numberOf_eq, hx]
        rfl
      simp only [if_pos hkey]
      rw [bind_ok hlength, if_pos hvalid]
      exact denseLength_bind _ _ s
    · cases hn
  · rename_i hkey
    obtain ⟨i, hi, hn⟩ := Option.bind_eq_some_iff.1 hn
    split at hn
    · rename_i hmax
      cases hn
      simp only [if_neg hkey, hi, if_pos hmax, Nat.add_sub_cancel]
      exact (congrFun (bind_map_left ..) s).trans (denseLength_bind (i + 1) _ s)
    · cases hn

theorem setProperty_array (m : Machine) (r : Nat) (key : String) (v : Value) (s : Store) :
    setProperty m (.array r) key v s = setElement r key v s := rfl

theorem push_run (m : Machine) (r : Nat) (args : List Value) (s : Store) :
    runBuiltin m .push (.array r) args s =
      (.ok (.number (floatOfInt ((s.extend r args.toArray).array r).size)),
        s.extend r args.toArray) := rfl

theorem concat_run (m : Machine) (r r' : Nat) (s : Store) :
    runBuiltin m .concat (.array r) [.array r'] s = (.ok (.array s.arrays.size),
      (s.gather ((s.array r).toList ++ ((s.array r').toList ++ [])).toArray).2) := rfl

end EvalM

namespace Store

variable {s : Store}

theorem array_extend {r : Nat} (hr : r < s.arrays.size) (items : Array Value) :
    (s.extend r items).array r = s.array r ++ items := by
  refine (array_setArray _ r r _).trans ?_
  rw [if_pos ⟨rfl, hr⟩]
  rfl

theorem array_gather (s : Store) (items : Array Value) :
    (s.gather items).2.array s.arrays.size = items := by
  refine (getD_push ..).trans ?_
  rw [if_pos rfl]

end Store

/--
In a reachable store no array is longer than the limit and the longest array that was put together
without a look at the limit. Writing an element or the length of an array makes no such array: past
the limit it is refused with a range error that leaves the store as it is, and else it is made. Only
where the value for the length leads to the array itself it is neither. But `push` and `concat` put
items together however many there are.
-/
theorem array_lengths_bounded {s : Store} (hs : s.Reachable) :
    (∀ r, (s.array r).size ≤ max maxDenseLength s.gathered) ∧
    (∀ m r key v, s.Locks r key v →
      EvalM.setProperty m (.array r) key v s = (.error (.locked r v), s)) ∧
    (∀ m r key v n, ¬ s.Locks r key v → s.askedLength? key v = some n → maxDenseLength < n →
      ∃ fault, fault.kind = .range ∧
        EvalM.setProperty m (.array r) key v s = (.error (.fault fault), s)) ∧
    (∀ m r key v n, ¬ s.Locks r key v → s.askedLength? key v = some n → n ≤ maxDenseLength →
      r < s.arrays.size → ∃ s', EvalM.setProperty m (.array r) key v s = (.ok (), s') ∧ s'.gathered = s.gathered ∧
        (s'.array r).size = Store.writtenLength key (s.array r).size n) ∧
    (∀ m r args, r < s.arrays.size → ∃ v s',
      EvalM.runBuiltin m .push (.array r) args s = (.ok v, s') ∧
        (s'.array r).size = (s.array r).size + args.length) ∧
    ∀ m r r', ∃ made s', EvalM.runBuiltin m .concat (.array r) [.array r'] s = (.ok (.array made), s') ∧
      (s'.array made).size = (s.array r).size + (s.array r').size := by
  refine ⟨fun r => ?_, fun m r key v => EvalM.setElement_of_locks, fun m r key v n hfree hn hlt => ?_,
    fun m r key v n hfree hn hle hr => ?_, fun m r args hr => ?_, fun m r r' => ?_⟩
  · exact (hs.invariant.sound.lengths r).resolve_right id
  · refine ⟨.lengthLimit n maxDenseLength, rfl, ?_⟩
    rw [EvalM.setProperty_array, EvalM.setElement_of_askedLength? hfree hn,
      if_neg (Nat.not_le.2 hlt)]
  · refine ⟨s.setArray r (EvalM.writeElement key v n), ?_, rfl, ?_⟩
    · rw [EvalM.setProperty_array, EvalM.setElement_of_askedLength? hfree hn, if_pos hle]
    · rw [Store.array_setArray, if_pos ⟨rfl, hr⟩, EvalM.size_writeElement hn]
  · refine ⟨_, _, EvalM.push_run m r args s, ?_⟩
    rw [Store.array_extend hr]
    simp
  · refine ⟨_, _, EvalM.concat_run m r r' s, ?_⟩
    rw [Store.array_gather]
    simp

def Store.withArray : Store := ((Request.evaluate globalScope (.array [] default)).run .initial).2

def Store.withLongArray : Store :=
  ((Request.setProperty (.array 0) "16777215" .null).run .withArray).2

theorem Store.withArray_reachable : Store.withArray.Reachable :=
  .request .initial _ fun _ h => nomatch h

theorem Store.withLongArray_reachable : Store.withLongArray.Reachable := by
  refine .request withArray_reachable _ ?_
  simp [Request.values, KnowsAll, Value.AllKnown, Value.Known]

theorem array_lengths_bounded_withArray :
    Store.withArray.Reachable ∧ Store.withArray.askedLength? "16777216" .null = some 16777217 ∧
      maxDenseLength < 16777217 ∧
      (∃ fault, fault.kind = .range ∧
        EvalM.setProperty .full (.array 0) "16777216" .null Store.withArray =
          (.error (.fault fault), Store.withArray)) ∧
      EvalM.setProperty .full (.array 0) "length" (.array 0) Store.withArray =
        (.error (.locked 0 (.array 0)), Store.withArray) := by
  have hasked : Store.withArray.askedLength? "16777216" .null = some 16777217 := by decide +kernel
  have hlimit : maxDenseLength < 16777217 := by decide
  have hfree : ¬ Store.withArray.Locks 0 "16777216" .null := fun h => absurd h.1 (by decide)
  obtain ⟨-, hlocks, hrefused, -⟩ := array_lengths_bounded Store.withArray_reachable
  refine ⟨Store.withArray_reachable, hasked, hlimit, hrefused .full 0 _ _ _ hfree hasked hlimit, ?_⟩
  exact hlocks .full 0 _ _ ⟨rfl, 0, rfl, .refl⟩

theorem Store.withLongArray_eq :
    withLongArray = withArray.setArray 0 (EvalM.writeElement "16777215" .null 16777216) := by
  have hasked : withArray.askedLength? "16777215" .null = some 16777216 := by decide +kernel
  have hfree : ¬ withArray.Locks 0 "16777215" .null := fun h => absurd h.1 (by decide)
  have hset := EvalM.setElement_of_askedLength? hfree hasked
  rw [if_pos (by decide)] at hset
  have hrun : (Request.setProperty (.array 0) "16777215" .null).run withArray =
      (.ok .undefined, withArray.setArray 0 (EvalM.writeElement "16777215" .null 16777216)) :=
    bind_ok hset
  rw [withLongArray, hrun]

theorem Store.size_withLongArray : (withLongArray.array 0).size = maxDenseLength := by
  have hasked : withArray.askedLength? "16777215" .null = some 16777216 := by decide +kernel
  have hsize : withArray.arrays.size = 1 := by decide +kernel
  have hempty : (withArray.array 0).size = 0 := by decide +kernel
  rw [withLongArray_eq, array_setArray, if_pos ⟨rfl, by omega⟩, EvalM.size_writeElement hasked, hempty]
  decide

/-- All arrays are within the limit, one item is pushed, and an array is past it. -/
theorem push_past_limit :
    Store.withLongArray.Reachable ∧ (∀ r, (Store.withLongArray.array r).size ≤ maxDenseLength) ∧
      ∃ v s', EvalM.runBuiltin .full .push (.array 0) [.null] Store.withLongArray = (.ok v, s') ∧
        maxDenseLength < (s'.array 0).size := by
  have hgathered : Store.withLongArray.gathered = 0 := by
    rw [Store.withLongArray_eq]
    decide +kernel
  have hsize : 0 < Store.withLongArray.arrays.size := by
    rw [Store.withLongArray_eq, Store.size_setArray]
    decide +kernel
  refine ⟨Store.withLongArray_reachable, fun r => ?_, _, _, EvalM.push_run .full 0 _ _, ?_⟩
  · have hbound := Store.withLongArray_reachable.invariant.sound.lengths r
    rw [Store.arrayBound, hgathered] at hbound
    exact hbound.resolve_right id
  · rw [Store.array_extend hsize, Array.size_append, Store.size_withLongArray]
    exact Nat.lt_succ_self _

end Typings
