import Mathlib.Data.List.Infix
import Typings.Text.Split

namespace Typings

variable {parts : List (List Char)} {w stem rest cs : List Char} {c : Char}

theorem startsWithAny_iff : startsWithAny parts cs = true ↔ ∃ p ∈ parts, p <+: cs := by
  simp [startsWithAny, List.isPrefixOf_iff_prefix]

theorem containsAny_iff : containsAny parts cs = true ↔ ∃ p ∈ parts, p <:+: cs := by
  induction cs with
  | nil => simp [containsAny, startsWithAny_iff]
  | cons c cs ih =>
    simp only [containsAny, Bool.or_eq_true, startsWithAny_iff, ih, List.infix_cons_iff, and_or_left,
      exists_or]

theorem prefix_marked_iff (hw : c ∉ w) : w <+: stem ++ c :: rest ↔ w <+: stem := by
  refine ⟨fun h => ?_, fun h => h.trans (List.prefix_append ..)⟩
  rcases List.prefix_or_prefix_of_prefix h (List.prefix_append ..) with h' | ⟨d, rfl⟩
  · exact h'
  · rw [List.prefix_append_right_inj] at h
    cases d with
    | nil => simp
    | cons x d =>
      obtain ⟨rfl, _⟩ := List.cons_prefix_cons.1 h
      simp at hw

theorem marked_prefix_iff (hw : c ∉ w) (hstem : c ∉ stem) :
    w ++ [c] <+: stem ++ c :: rest ↔ w = stem := by
  induction w generalizing stem with
  | nil =>
    cases stem with
    | nil => simp
    | cons x stem =>
      rw [List.mem_cons, not_or] at hstem
      simp [hstem.1]
  | cons y w ih =>
    rw [List.mem_cons, not_or] at hw
    cases stem with
    | nil => simp [Ne.symm hw.1]
    | cons x stem =>
      rw [List.mem_cons, not_or] at hstem
      simp [ih hw.2 hstem.2]

theorem marked_infix_iff (hw : c ∉ w) (hstem : c ∉ stem) :
    w ++ [c] <:+: stem ++ c :: rest ↔ w <:+ stem ∨ w ++ [c] <:+: rest := by
  induction stem with
  | nil =>
    rw [List.nil_append, List.infix_cons_iff, List.suffix_nil]
    exact or_congr_left (marked_prefix_iff hw List.not_mem_nil)
  | cons x stem ih =>
    rw [List.cons_append, List.infix_cons_iff, ih (List.not_mem_of_not_mem_cons hstem),
      List.suffix_cons_iff, or_assoc]
    exact or_congr_left (marked_prefix_iff hw hstem)

theorem length_beforeAny_lt (hparts : [] ∉ parts) (h : containsAny parts cs = true)
    (rest : List Char) : (beforeAny parts (cs ++ rest)).length < cs.length := by
  induction cs with
  | nil =>
    obtain ⟨p, hp, hpart⟩ := containsAny_iff.1 h
    rw [List.infix_nil] at hpart
    exact absurd (hpart ▸ hp) hparts
  | cons x cs ih =>
    rw [List.cons_append, beforeAny]
    split
    · exact Nat.succ_pos _
    · rename_i hstart
      rw [containsAny, Bool.or_eq_true] at h
      rcases h with h | h
      · obtain ⟨p, hp, hinit⟩ := startsWithAny_iff.1 h
        have hstart' : startsWithAny parts (x :: (cs ++ rest)) = true :=
          startsWithAny_iff.2 ⟨p, hp, hinit.trans (List.prefix_append (x :: cs) rest)⟩
        exact absurd hstart' hstart
      · exact Nat.succ_lt_succ (ih h)

/-- A word is found where it starts if none starts earlier: `c` starts words and stands in no rest. -/
theorem beforeAny_append (hparts : ∀ p ∈ parts, p ≠ [] ∧ c ∉ p.tail)
    (h : containsAny parts cs = false) (hstart : startsWithAny parts (c :: rest) = true) :
    beforeAny parts (cs ++ c :: rest) = cs := by
  induction cs with
  | nil => simp [beforeAny, hstart]
  | cons x cs ih =>
    rw [containsAny, Bool.or_eq_false_iff] at h
    have hnot : ¬ startsWithAny parts (x :: (cs ++ c :: rest)) = true := by
      intro hstart'
      obtain ⟨p, hp, hinit⟩ := startsWithAny_iff.1 hstart'
      obtain ⟨hne, htail⟩ := hparts p hp
      obtain ⟨y, p, rfl⟩ := List.exists_cons_of_ne_nil hne
      rw [List.tail_cons] at htail
      rw [List.cons_prefix_cons, prefix_marked_iff htail, ← List.cons_prefix_cons] at hinit
      rw [startsWithAny_iff.2 ⟨_, hp, hinit⟩] at h
      exact absurd h.1 (by decide)
    rw [List.cons_append, beforeAny, if_neg hnot, ih h.2]

end Typings
