import Mathlib.Data.Bool.Basic
import Typings.Proofs.Eval.Search

namespace Typings

section
open Float.Model

theorem unpacked_compare_swap (a b : UnpackedFloat) :
    b.compare a = (a.compare b).map Ordering.swap := by
  cases a with
  | notANumber => cases b <;> rfl
  | infinity s =>
    cases b with
    | infinity t => cases s <;> cases t <;> rfl
    | _ => cases s <;> rfl
  | zero s =>
    cases b with
    | infinity t => cases t <;> rfl
    | finite t m e hm => cases t <;> rfl
    | _ => rfl
  | finite s m e hm =>
    cases b with
    | notANumber => rfl
    | infinity t => cases t <;> rfl
    | zero t => cases s <;> rfl
    | finite t m' e' hm' =>
      have hswap : (compare e' e).then (compare m' m) =
          ((compare e e').then (compare m m')).swap := by
        rw [Ordering.swap_then, ← Std.OrientedOrd.eq_swap, ← Std.OrientedOrd.eq_swap]
      cases s with
      | negative =>
        cases t with
        | negative => exact congrArg (fun o => some o.swap) hswap
        | positive => rfl
      | positive =>
        cases t with
        | negative => rfl
        | positive => exact congrArg some hswap

theorem number_beq_comm (x y : Float) : (x == y) = (y == x) := by
  change (x.toModel.unpack.compare y.toModel.unpack == some Ordering.eq) =
    (y.toModel.unpack.compare x.toModel.unpack == some Ordering.eq)
  rw [unpacked_compare_swap y.toModel.unpack]
  rcases y.toModel.unpack.compare x.toModel.unpack with _ | _ | _ | _ <;> rfl

end

theorem Value.strictEquals_comm (a b : Value) : a.strictEquals b = b.strictEquals a := by
  cases a <;> cases b <;> simp only [Value.strictEquals, number_beq_comm, Bool.beq_comm]

namespace Store

variable {s : Store} {a b : Value}

theorem looseEquals_of_nullish (h : (a.isNullish || b.isNullish) = true) :
    s.looseEquals a b = some (a.isNullish && b.isNullish) := by
  rw [looseEquals.eq_def, if_pos h]
  cases a.isNullish && b.isNullish <;> rfl

theorem looseEquals_boolean_left (hb : b.isNullish = false) (p : Bool) :
    s.looseEquals (.boolean p) b = s.looseEquals (.number (bif p then 1.0 else 0.0)) b := by
  rw [looseEquals.eq_def s (.boolean p), hb]
  rfl

theorem looseEquals_boolean_right (ha : a.isNullish = false) (q : Bool) :
    s.looseEquals a (.boolean q) = s.looseEquals a (.number (bif q then 1.0 else 0.0)) := by
  cases a with
  | undefined => cases ha
  | null => cases ha
  | boolean p =>
    -- the left side is converted first, and both are numbers then
    rw [looseEquals_boolean_left rfl, looseEquals_boolean_left rfl,
      looseEquals.eq_def s _ (.boolean q)]
    rfl
  | _ =>
    rw [looseEquals.eq_def s _ (.boolean q)]
    rfl

theorem looseEquals_container_left (ha : a.isContainer = true) (hb : b.isNumberOrText = true) :
    s.looseEquals a b = (s.text? a).bind fun t => s.looseEquals (.string t) b := by
  rw [looseEquals.eq_def]
  cases a <;> cases ha <;> cases b <;> cases hb <;> rfl

theorem looseEquals_container_right (ha : a.isNumberOrText = true) (hb : b.isContainer = true) :
    s.looseEquals a b = (s.text? b).bind fun t => s.looseEquals a (.string t) := by
  rw [looseEquals.eq_def]
  cases a <;> cases ha <;> cases b <;> cases hb <;> rfl

/-- The sides of `==` can be exchanged, also where it has no result. -/
theorem looseEquals_comm (s : Store) (a b : Value) : s.looseEquals a b = s.looseEquals b a := by
  fun_induction looseEquals s a b with
  | case1 a b h =>
    have hnull := Bool.and_eq_true_iff.1 h
    rw [looseEquals_of_nullish (by rw [hnull.1, Bool.or_true]), hnull.1, hnull.2]
    rfl
  | case2 a b h h' =>
    rw [looseEquals_of_nullish (by rw [Bool.or_comm, h']), Bool.and_comm,
      Bool.eq_false_of_not_eq_true h]
  | case3 x t =>
    rw [looseEquals.eq_def, number_beq_comm]
    rfl
  | case4 t y =>
    rw [looseEquals.eq_def, number_beq_comm]
    rfl
  | case5 p b _ h ih =>
    have hb : b.isNullish = false := Bool.eq_false_of_not_eq_true h
    rw [ih, looseEquals_boolean_right hb]
  | case6 a q _ _ h ih =>
    have ha : a.isNullish = false := by
      rw [← Bool.or_false a.isNullish]
      exact Bool.eq_false_of_not_eq_true h
    rw [ih, looseEquals_boolean_left ha]
  | case7 a b _ _ _ _ h _ _ ih =>
    have hkinds := Bool.and_eq_true_iff.1 h
    rw [looseEquals_container_right hkinds.2 hkinds.1]
    exact congrArg (s.text? a).bind (funext ih)
  | case8 a b _ _ _ _ _ h _ _ ih =>
    have hkinds := Bool.and_eq_true_iff.1 h
    rw [looseEquals_container_left hkinds.2 hkinds.1]
    exact congrArg (s.text? b).bind (funext ih)
  | case9 a b hnt htn ha hb hleft hright hboth hnull =>
    -- no conversion applies to the sides as they stand, so none applies when they are exchanged
    rw [looseEquals.eq_def, if_neg (by rwa [Bool.and_comm]), if_neg (by rwa [Bool.or_comm])]
    split
    · exact (htn _ _ rfl rfl).elim
    · exact (hnt _ _ rfl rfl).elim
    · exact (hb _ rfl).elim
    · exact (ha _ rfl).elim
    · rw [if_neg (by rwa [Bool.and_comm]), if_neg (by rwa [Bool.and_comm]),
        Value.strictEquals_comm]

theorem looseEquals_of_strictEquals (h : a.strictEquals b = true) :
    s.looseEquals a b = some true := by
  unfold Value.strictEquals at h
  split at h
  · exact looseEquals_of_nullish rfl
  · exact looseEquals_of_nullish rfl
  · rename_i p q
    cases eq_of_beq h
    -- unlike other numbers, those of truth values equal themselves
    have hself : ∀ p : Bool, ((bif p then 1.0 else 0.0 : Float) == bif p then 1.0 else 0.0) := by
      decide
    rw [looseEquals_boolean_left rfl, looseEquals_boolean_right rfl, looseEquals.eq_def]
    exact congrArg some (hself p)
  -- two values of one of the other seven kinds are compared as they are
  iterate 7 exact (looseEquals.eq_def ..).trans (congrArg some h)
  cases h

/-- No array holds itself, directly or through others. -/
def ArraysAcyclic (s : Store) : Prop := ∀ r, ¬ Relation.TransGen s.HoldsArray r r

theorem ArraysAcyclic.looseEquals_isSome (hs : s.ArraysAcyclic) (a b : Value) :
    ∃ r, s.looseEquals a b = some r := by
  rw [← Option.isSome_iff_exists, Option.isSome_iff_ne_none]
  intro hnone
  obtain ⟨v, _, r, r', _, _, hcycle⟩ := looseEquals_eq_none hnone
  exact hs r' hcycle

end Store

/--
Where no array holds itself, `==` has an answer for any two values, the same answer for the sides
exchanged, and a positive one for values that are equal without a conversion.
-/
theorem looseEquals_extends_strictEquals {s : Store} (hs : s.ArraysAcyclic) (a b : Value) :
    ∃ r, s.looseEquals a b = some r ∧ s.looseEquals b a = some r ∧
      (a.strictEquals b = true → r = true) := by
  obtain ⟨r, hr⟩ := hs.looseEquals_isSome a b
  refine ⟨r, hr, (s.looseEquals_comm b a).trans hr, fun h => ?_⟩
  rw [Store.looseEquals_of_strictEquals h] at hr
  exact (Option.some.inj hr).symm

/-- A text in an array in an array. It is read as a number to compare it with the truth values. -/
theorem looseEquals_extends_strictEquals_nested :
    let s : Store := { arrays := #[#[.array 1], #[.string "1"]] }
    s.ArraysAcyclic ∧ s.looseEquals (.array 0) (.boolean true) = some true ∧
      s.looseEquals (.boolean true) (.array 0) = some true ∧
      s.looseEquals (.array 0) (.array 0) = some true ∧
      s.looseEquals (.array 0) (.boolean false) = some false ∧
      s.looseEquals (.boolean false) (.array 0) = some false := by
  intro s
  have hholds : ∀ r r', s.HoldsArray r r' → r < r' := by
    rintro (_ | _ | r) r' h
    · obtain rfl : r' = 1 := by simpa [s, Store.HoldsArray, Store.array] using h
      exact Nat.one_pos
    · simp [s, Store.HoldsArray, Store.array] at h
    · simp [s, Store.HoldsArray, Store.array] at h
  have hs : s.ArraysAcyclic := by
    intro r hcycle
    have hlt : ∀ r', Relation.TransGen s.HoldsArray r r' → r < r' := by
      intro r' h
      induction h with
      | single h => exact hholds _ _ h
      | tail _ h ih => exact ih.trans (hholds _ _ h)
    exact Nat.lt_irrefl r (hlt r hcycle)
  have heq : s.looseEquals (.array 0) (.boolean true) = some true := by decide +kernel
  have hne : s.looseEquals (.array 0) (.boolean false) = some false := by decide +kernel
  obtain ⟨r, hr, hr', -⟩ := looseEquals_extends_strictEquals hs (.array 0) (.boolean true)
  obtain ⟨q, hq, -, hstrict⟩ := looseEquals_extends_strictEquals hs (.array 0) (.array 0)
  obtain ⟨p, hp, hp', -⟩ := looseEquals_extends_strictEquals hs (.array 0) (.boolean false)
  rw [heq] at hr
  rw [hne] at hp
  exact ⟨hs, heq, hr'.trans hr.symm, by rw [hq, hstrict rfl], hne, hp'.trans hp.symm⟩

end Typings
