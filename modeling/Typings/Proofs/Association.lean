import Mathlib.Data.List.Nodup

namespace Typings.Association
set_option autoImplicit true

variable [BEq α] [LawfulBEq α] {l : List (α × β)}

theorem lookup_cons_eq [DecidableEq α] (k key : α) (b : β) (l : List (α × β)) :
    List.lookup k ((key, b) :: l) = if k = key then some b else l.lookup k := by
  by_cases h : k = key
  · simp [h]
  · have hne : (k == key) = false := by simpa using h
    simp [List.lookup_cons, hne, h]

theorem lookup_isSome_iff_mem : (l.lookup k).isSome ↔ k ∈ l.map (·.1) := by
  simp only [List.lookup_isSome_iff, List.mem_map, beq_iff_eq]
  constructor
  · rintro ⟨p, hp, rfl⟩
    exact ⟨p, hp, rfl⟩
  · rintro ⟨p, hp, rfl⟩
    exact ⟨p, hp, rfl⟩

theorem mem_of_lookup (h : l.lookup k = some b) : (k, b) ∈ l := by
  obtain ⟨before, after, rfl, _⟩ := List.lookup_eq_some_iff.1 h
  simp

theorem lookup_of_mem (hl : (l.map (·.1)).Nodup) (h : (k, b) ∈ l) : l.lookup k = some b := by
  obtain ⟨before, after, rfl⟩ := List.append_of_mem h
  refine List.lookup_eq_some_iff.2 ⟨before, after, rfl, ?_⟩
  intro p hp
  simp only [List.map_append, List.map_cons, List.nodup_append] at hl
  have hne := hl.2.2 p.1 (List.mem_map_of_mem hp) k (by simp)
  simpa using Ne.symm hne

theorem lookup_map_values (f : α → β → γ) (k : α) :
    (l.map fun p => (p.1, f p.1 p.2)).lookup k = (l.lookup k).map (f k) := by
  classical
  induction l with
  | nil => rfl
  | cons p l ih =>
    obtain ⟨key, b⟩ := p
    simp only [List.map_cons, lookup_cons_eq, ih]
    split
    · rename_i h
      rw [h, Option.map_some]
    · rfl

end Typings.Association
