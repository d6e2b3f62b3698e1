import Typings.Proofs.Eval.Session

namespace Typings

def Binding.value? : Binding → Option Value
  | mutable v | constant v => some v
  | imported .. => none

namespace Store

variable {s s' : Store} {r r' r₀ target hops : Nat} {name name' x y : String} {v w : Value}
  {b : Binding} {rs : List Nat} {f : Fault}

/-- A store that came about from nothing, scopes and bindings made and forgotten in any order. -/
inductive Grown : Store → Prop
  | empty : Grown {}
  | change {s s' : Store} (h : Grown s) (hc : Change True s s') : Grown s'
  | declareImport {s : Store} (h : Grown s) (r : Nat) (name : String) (target : Nat)
    (exported : String) (ht : target < s.scopes.size) :
    Grown (s.declareImport r name target exported)
  | clearScope {s : Store} (h : Grown s) (r : Nat) : Grown (s.clearScope r)

theorem Grown.importsSound (h : s.Grown) : s.ImportsSound := by
  induction h with
  | empty => exact .empty
  | change _ hc ih => exact ih.later hc.importsKept
  | declareImport _ r name target exported ht ih => exact ih.declareImport r name exported ht
  | clearScope _ r ih => exact ih.clearScope r

/-- The first of some scopes that binds a name, and what it binds the name to. -/
inductive Nearest (s : Store) (name : String) : List Nat → Nat → Binding → Prop
  | here {r : Nat} {rs : List Nat} {b : Binding} (h : (s.scope r).bindings[name]? = some b) :
    Nearest s name (r :: rs) r b
  | outside {r r' : Nat} {rs : List Nat} {b : Binding} (h : (s.scope r).bindings[name]? = none)
    (hrest : Nearest s name rs r' b) : Nearest s name (r :: rs) r' b

/--
A name of a scope leads to the name of a scope that holds a value: outward to the nearest binding,
and on from there if that is an import.
-/
inductive Resolves (s : Store) : Nat → String → Nat → String → Prop
  | bound {r r₀ : Nat} {name : String} {b : Binding} (h : s.Nearest name (s.chain r) r₀ b)
    (hb : b.value?.isSome) : Resolves s r name r₀ name
  | imported {r r₁ target r₀ : Nat} {name name' x : String}
    (h : s.Nearest name (s.chain r) r₁ (.imported target name'))
    (hrest : Resolves s target name' r₀ x) : Resolves s r name r₀ x

/-- Why a name cannot be assigned. -/
inductive Refuses (s : Store) (r : Nat) (name : String) : Fault → Prop
  | undeclared (h : ∀ r₀ b, ¬ s.Nearest name (s.chain r) r₀ b) :
    Refuses s r name (.undefinedName name)
  | constant {r₀ : Nat} {v : Value} (h : s.Nearest name (s.chain r) r₀ (.constant v)) :
    Refuses s r name (.constantAssignment name)
  | imported {r₀ target : Nat} {name' : String}
    (h : s.Nearest name (s.chain r) r₀ (.imported target name')) :
    Refuses s r name (.importAssignment name)

theorem binds_eq_isSome (s : Store) (name : String) (r : Nat) :
    s.binds name r = ((s.scope r).bindings[name]?).isSome :=
  Std.TreeMap.contains_eq_isSome_getElem?

theorem Nearest.find? (h : s.Nearest name rs r₀ b) :
    rs.find? (s.binds name) = some r₀ ∧ (s.scope r₀).bindings[name]? = some b := by
  induction h with
  | here h => exact ⟨List.find?_cons_of_pos (by rw [binds_eq_isSome, h]; rfl), h⟩
  | outside h _ ih =>
    rw [List.find?_cons_of_neg (by rw [binds_eq_isSome, h]; simp)]
    exact ih

theorem Nearest.of_find? (h : rs.find? (s.binds name) = some r₀)
    (hb : (s.scope r₀).bindings[name]? = some b) : s.Nearest name rs r₀ b := by
  induction rs with
  | nil => cases h
  | cons r rs ih =>
    cases hr : (s.scope r).bindings[name]? with
    | none =>
      rw [List.find?_cons_of_neg (by rw [binds_eq_isSome, hr]; simp)] at h
      exact .outside hr (ih h)
    | some b' =>
      rw [List.find?_cons_of_pos (by rw [binds_eq_isSome, hr]; rfl)] at h
      cases h
      exact .here hb

theorem nearest_iff : s.Nearest name (s.chain r) r₀ b ↔
    s.nearest? r name = some r₀ ∧ (s.scope r₀).bindings[name]? = some b :=
  ⟨Nearest.find?, fun h => .of_find? h.1 h.2⟩

theorem Nearest.unique {r₁ : Nat} {b₁ : Binding} (h : s.Nearest name (s.chain r) r₀ b)
    (h₁ : s.Nearest name (s.chain r) r₁ b₁) : r₁ = r₀ ∧ b₁ = b := by
  rw [nearest_iff] at h h₁
  obtain rfl := Option.some.inj (h₁.1.symm.trans h.1)
  exact ⟨rfl, Option.some.inj (h₁.2.symm.trans h.2)⟩

theorem nearest_cases (s : Store) (r : Nat) (name : String) :
    (s.nearest? r name = none ∧ ∀ r₀ b, ¬ s.Nearest name (s.chain r) r₀ b) ∨
      ∃ r₀ b, s.Nearest name (s.chain r) r₀ b := by
  cases hn : s.nearest? r name with
  | none =>
    refine .inl ⟨rfl, fun r₀ b h => ?_⟩
    rw [nearest_iff, hn] at h
    cases h.1
  | some r₀ =>
    have hbinds : s.binds name r₀ = true := List.find?_some hn
    rw [binds_eq_isSome] at hbinds
    obtain ⟨b, hb⟩ := Option.isSome_iff_exists.1 hbinds
    exact .inr ⟨r₀, b, nearest_iff.2 ⟨hn, hb⟩⟩

theorem assign_of_nearest (h : s.Nearest x (s.chain r) r₀ (.mutable w)) (v : Value) :
    s.assign r x v = .ok (s.declare r₀ x v) := by
  obtain ⟨hn, hb⟩ := nearest_iff.1 h
  simp [assign, assignmentScope, hn, hb, Except.map]

theorem assign_of_refuses (h : s.Refuses r x f) (v : Value) : s.assign r x v = .error f := by
  cases h with
  | undeclared h =>
    rcases s.nearest_cases r x with ⟨hn, _⟩ | ⟨r₀, b, hb⟩
    · simp [assign, assignmentScope, hn, Except.map]
    · exact absurd hb (h r₀ b)
  | constant h =>
    obtain ⟨hn, hb⟩ := nearest_iff.1 h
    simp [assign, assignmentScope, hn, hb, Except.map]
  | imported h =>
    obtain ⟨hn, hb⟩ := nearest_iff.1 h
    simp [assign, assignmentScope, hn, hb, Except.map]

theorem nearest_or_refuses (s : Store) (r : Nat) (x : String) :
    (∃ r₀ w, s.Nearest x (s.chain r) r₀ (.mutable w)) ∨ ∃ f, s.Refuses r x f := by
  rcases s.nearest_cases r x with ⟨_, hnone⟩ | ⟨r₀, b, hb⟩
  · exact .inr ⟨_, .undeclared hnone⟩
  · cases b with
    | mutable w => exact .inl ⟨r₀, w, hb⟩
    | constant w => exact .inr ⟨_, .constant hb⟩
    | imported target name' => exact .inr ⟨_, .imported hb⟩

theorem bindings_declare (hb : (s.scope r₀).bindings[x]? = some b) (r : Nat) (y : String) :
    ((s.declare r₀ x v).scope r).bindings[y]? =
      if r = r₀ ∧ y = x then some (.mutable v) else (s.scope r).bindings[y]? := by
  -- a scope that binds something is one of the store's
  have hsize : r₀ < s.scopes.size := by
    by_contra hr
    simp [Store.scope, Array.getD_eq_getD_getElem?, hr] at hb
  rw [declare, scope_setBinding]
  by_cases hr : r = r₀
  · subst hr
    rw [if_pos ⟨rfl, hsize⟩, Std.TreeMap.getElem?_insert]
    by_cases hy : y = x
    · simp [hy]
    · simp [hy, Ne.symm hy]
  · rw [if_neg fun h => hr h.1.symm, if_neg fun h => hr h.1]

theorem chain_declare (s : Store) (r₀ : Nat) (x : String) (v : Value) (r : Nat) :
    (s.declare r₀ x v).chain r = s.chain r := by
  rw [chain, chain, declare, scope_setBinding]
  split <;> rfl

theorem Nearest.declare (hb : (s.scope r₀).bindings[x]? = some (.mutable w))
    (h : s.Nearest y rs r b) :
    (s.declare r₀ x v).Nearest y rs r (if r = r₀ ∧ y = x then .mutable v else b) := by
  induction h with
  | here h =>
    refine .here ?_
    rw [bindings_declare hb, h]
    split <;> rfl
  | @outside r r' rs b h _ ih =>
    refine .outside ?_ ih
    rw [bindings_declare hb, if_neg, h]
    rintro ⟨rfl, rfl⟩
    cases h.symm.trans hb

theorem nearest?_declare (hb : (s.scope r₀).bindings[x]? = some (.mutable w)) (r : Nat)
    (y : String) : (s.declare r₀ x v).nearest? r y = s.nearest? r y := by
  have hbinds : (s.declare r₀ x v).binds y = s.binds y := by
    funext r'
    rw [binds_eq_isSome, binds_eq_isSome, bindings_declare hb]
    split
    · rename_i h
      rw [h.1, h.2, hb]
      rfl
    · rfl
  rw [nearest?, nearest?, chain_declare, hbinds]

theorem follow_of_nearest (h : s.Nearest name (s.chain r) r₀ b) (hv : b.value? = some v) :
    s.follow hops r name = some (some v) := by
  obtain ⟨hn, hb⟩ := nearest_iff.1 h
  unfold follow
  cases b with
  | mutable w | constant w =>
    cases hv
    simp [binding?, hn, hb]
  | imported => cases hv

theorem follow_succ_of_imported (h : s.Nearest name (s.chain r) r₀ (.imported target name')) :
    s.follow (hops + 1) r name = s.follow hops target name' := by
  obtain ⟨hn, hb⟩ := nearest_iff.1 h
  rw [follow]
  simp [binding?, hn, hb]

theorem follow_zero_of_imported (h : s.Nearest name (s.chain r) r₀ (.imported target name')) :
    s.follow 0 r name = none := by
  obtain ⟨hn, hb⟩ := nearest_iff.1 h
  rw [follow]
  simp [binding?, hn, hb]

theorem follow_of_nearest?_none (h : s.nearest? r name = none) :
    s.follow hops r name = some none := by
  unfold follow
  simp [binding?, h]

/-- A name that leads to the binding has the new value, as far as it is followed. -/
theorem Resolves.follow_declare (hb : (s.scope r₀).bindings[x]? = some (.mutable w))
    (h : s.Resolves r y r₀ x) (hends : s.follow hops r y ≠ none) :
    (s.declare r₀ x v).follow hops r y = some (some v) := by
  induction h generalizing hops with
  | @bound r r₀ name b h _ =>
    have h' := h.declare (v := v) hb
    rw [if_pos ⟨rfl, rfl⟩, ← chain_declare s r₀ name v] at h'
    exact follow_of_nearest h' rfl
  | @imported r r₁ target r₀ name name' x h hrest ih =>
    have h' := h.declare (v := v) hb
    rw [if_neg, ← chain_declare s r₀ x v] at h'
    · cases hops with
      | zero => exact absurd (follow_zero_of_imported h) hends
      | succ hops =>
        rw [follow_succ_of_imported h] at hends
        rw [follow_succ_of_imported h']
        exact ih hb hends
    · rintro ⟨rfl, rfl⟩
      cases (nearest_iff.1 h).2.symm.trans hb

theorem Nearest.declare_other {r₁ : Nat} (hb : (s.scope r₀).bindings[x]? = some (.mutable w))
    (h : s.Nearest y (s.chain r) r₁ b) (hother : ¬ s.Resolves r y r₀ x) :
    (s.declare r₀ x v).Nearest y ((s.declare r₀ x v).chain r) r₁ b := by
  have h' := h.declare (v := v) hb
  rw [if_neg, ← chain_declare s r₀ x v] at h'
  · exact h'
  · rintro ⟨rfl, rfl⟩
    obtain rfl := Option.some.inj ((nearest_iff.1 h).2.symm.trans hb)
    exact hother (.bound h rfl)

theorem follow_declare_other (hb : (s.scope r₀).bindings[x]? = some (.mutable w))
    (hother : ¬ s.Resolves r y r₀ x) : (s.declare r₀ x v).follow hops r y = s.follow hops r y := by
  induction hops using Nat.strongRecOn generalizing r y with
  | ind hops ih =>
    rcases s.nearest_cases r y with ⟨hn, _⟩ | ⟨r₁, b, h⟩
    · rw [follow_of_nearest?_none hn, follow_of_nearest?_none ((nearest?_declare hb r y).trans hn)]
    have h' := h.declare_other (v := v) hb hother
    cases b with
    | mutable u | constant u => rw [follow_of_nearest h rfl, follow_of_nearest h' rfl]
    | imported target name' =>
      cases hops with
      | zero => rw [follow_zero_of_imported h, follow_zero_of_imported h']
      | succ hops =>
        rw [follow_succ_of_imported h, follow_succ_of_imported h']
        exact ih hops (Nat.lt_succ_self _) fun hrest => hother (.imported h hrest)

end Store

namespace EvalM

variable {s s' : Store} {r : Nat} {x : String} {v : Value} {f : Fault}

theorem get_run (s : Store) : (get : EvalM Store) s = (.ok s, s) := rfl

theorem assignName_of_ok (h : s.assign r x v = .ok s') : assignName r x v s = (.ok (), s') := by
  rw [Store.assign] at h
  cases hscope : s.assignmentScope r x with
  | ok r₀ =>
    rw [hscope] at h
    cases h
    rw [assignName, bind_ok (get_run s), hscope]
    rfl
  | error f =>
    rw [hscope] at h
    cases h

theorem assignName_of_error (h : s.assign r x v = .error f) :
    assignName r x v s = (.error (.fault f), s) := by
  rw [Store.assign] at h
  cases hscope : s.assignmentScope r x with
  | ok r₀ =>
    rw [hscope] at h
    cases h
  | error f =>
    rw [hscope] at h
    cases h
    rw [assignName, bind_ok (get_run s), hscope]
    rfl

end EvalM

/--
Assignment and lookup agree wherever imports form no circle. A name can be assigned exactly if the
nearest binding on the way outward is mutable. Then every name that leads to this binding, through
enclosing scopes and imports, has the new value, and all others have what they had. Otherwise the
fault says what is in the way, and every name has what it had. Every lookup ends.
-/
theorem assignment_seen_through_names {s : Store} (hs : s.Grown) (hacyclic : s.ImportsAcyclic)
    (r : Nat) (x : String) (v : Value) :
    ((∃ s', EvalM.assignName r x v s = (.ok (), s')) ↔
      ∃ r₀ w, s.Nearest x (s.chain r) r₀ (.mutable w)) ∧
    (∀ s', EvalM.assignName r x v s = (.ok (), s') →
      s.assign r x v = .ok s' ∧ s'.search? r x = some (some v) ∧
      ∃ r₀ w, s.Nearest x (s.chain r) r₀ (.mutable w) ∧
        (∀ r' y, s.Resolves r' y r₀ x → s'.search? r' y = some (some v)) ∧
        ∀ r' y, ¬ s.Resolves r' y r₀ x →
          ∃ found, s.search? r' y = some found ∧ s'.search? r' y = some found) ∧
    ∀ stop s', EvalM.assignName r x v s = (.error stop, s') →
      (∃ f, stop = .fault f ∧ s.assign r x v = .error f ∧ s.Refuses r x f) ∧
      ∀ r' y, ∃ found, s.search? r' y = some found ∧ s'.search? r' y = some found := by
  have hends : ∀ r' y, ∃ found, s.search? r' y = some found := fun r' y =>
    Option.isSome_iff_exists.1 (Store.search?_isSome hs.importsSound hacyclic r' y)
  rcases s.nearest_or_refuses r x with ⟨r₀, w, hnear⟩ | ⟨f, hf⟩
  · have hb := (Store.nearest_iff.1 hnear).2
    have hseen : ∀ r' y, s.Resolves r' y r₀ x →
        (s.declare r₀ x v).search? r' y = some (some v) := by
      intro r' y hleads
      obtain ⟨found, hfound⟩ := hends r' y
      have hfollow : s.follow s.imports r' y ≠ none := Option.ne_none_iff_exists'.2 ⟨found, hfound⟩
      exact hleads.follow_declare hb hfollow
    have hassign := Store.assign_of_nearest hnear v
    rw [EvalM.assignName_of_ok hassign, hassign]
    refine ⟨⟨fun _ => ⟨r₀, w, hnear⟩, fun _ => ⟨_, rfl⟩⟩, ?_, ?_⟩
    · rintro s' ⟨⟩
      refine ⟨rfl, hseen r x (.bound hnear rfl), r₀, w, hnear, hseen, fun r' y hother => ?_⟩
      obtain ⟨found, hfound⟩ := hends r' y
      exact ⟨found, hfound, (Store.follow_declare_other hb hother).trans hfound⟩
    · rintro stop s' ⟨⟩
  · have hassign := Store.assign_of_refuses hf v
    rw [EvalM.assignName_of_error hassign, hassign]
    refine ⟨⟨?_, ?_⟩, ?_, ?_⟩
    · rintro ⟨s', ⟨⟩⟩
    · rintro ⟨r₀, w, hnear⟩
      cases (Store.assign_of_nearest hnear v).symm.trans hassign
    · rintro s' ⟨⟩
    · rintro stop s' ⟨⟩
      refine ⟨⟨f, rfl, rfl, hf⟩, fun r' y => ?_⟩
      obtain ⟨found, hfound⟩ := hends r' y
      exact ⟨found, hfound, hfound⟩

/-- Three modules, and a scope inside each of the first two. -/
def Store.separate : Store :=
  let s : Store := (({} : Store).addScope {}).2
  let s := (s.addModule ⟨"/a.js", ""⟩).2
  let s := (s.addModule ⟨"/b.js", ""⟩).2
  let s := (s.addModule ⟨"/c.js", ""⟩).2
  let s := (s.addScope (s.inside 1)).2
  let s := (s.addScope (s.inside 2)).2
  (s.declare 1 "value" (.string "old")).declareConstant 5 "v" (.string "own")

/-- The second module imports a name from the first, and the third imports it from the second. -/
def Store.sharing : Store :=
  (Store.separate.declareImport 2 "v" 1 "value").declareImport 3 "w" 2 "v"

theorem Store.separate_grown : Store.separate.Grown :=
  .change (.change (.change (.change (.change (.change (.change (.change .empty (.addScope _ rfl))
    (.addScope _ rfl)) (.addScope _ rfl)) (.addScope _ rfl)) (.addScope _ rfl)) (.addScope _ rfl))
    (.declare _ _ _ (knows_of_lax ..))) (.declareConstant _ _ _ (knows_of_lax ..))

theorem Store.sharing_acyclic : Store.sharing.ImportsAcyclic := by
  have hno : ∀ {r name target name'}, ¬ Store.separate.Imports r name target name' :=
    Store.separate_grown.importsSound.not_imports rfl
  have himports : ∀ {r name target name'}, Store.sharing.Imports r name target name' →
      (name = "w" ∧ name' = "v") ∨ (name = "v" ∧ name' = "value") := by
    intro r name target name' hi
    rcases hi.of_declareImport with ⟨_, hname, _, hexported⟩ | hi
    · exact .inl ⟨hname, hexported⟩
    rcases hi.of_declareImport with ⟨_, hname, _, hexported⟩ | hi
    · exact .inr ⟨hname, hexported⟩
    · exact (hno hi).elim
  -- the only step goes from the name of the third module to that of the second
  have hhop : ∀ {a b}, Store.sharing.Hop a b → a.2 = "w" ∧ b.2 = "v" := by
    rintro a b ⟨target, target', name', ha, _, hb⟩
    rcases himports ha with h | h
    · exact h
    · rcases himports hb with h' | h'
      · exact absurd (h.2.symm.trans h'.1) (by decide)
      · exact absurd (h.2.symm.trans h'.1) (by decide)
  intro a hcycle
  obtain ⟨_, hfirst, _⟩ := Relation.TransGen.head'_iff.1 hcycle
  obtain ⟨_, _, hlast⟩ := Relation.TransGen.tail'_iff.1 hcycle
  exact absurd ((hhop hfirst).1.symm.trans (hhop hlast).2) (by decide)

/-- A name assigned in the first module is seen in the third; where it is hidden it is not. -/
theorem assignment_seen_through_names_reexported :
    Store.sharing.Grown ∧ Store.sharing.ImportsAcyclic ∧
      ∃ s', EvalM.assignName 4 "value" (.string "new") Store.sharing = (.ok (), s') ∧
        s'.search? 4 "value" = some (some (.string "new")) ∧
        s'.search? 3 "w" = some (some (.string "new")) ∧
        s'.search? 5 "v" = some (some (.string "own")) := by
  have hgrown : Store.sharing.Grown :=
    .declareImport (.declareImport Store.separate_grown _ _ _ _ (by decide)) _ _ _ _ (by decide)
  have hheld : Store.sharing.Nearest "value" (Store.sharing.chain 1) 1 (.mutable (.string "old")) :=
    .here (by decide)
  have hv : Store.sharing.Nearest "v" (Store.sharing.chain 2) 2 (.imported 1 "value") :=
    .here (by decide)
  have hw : Store.sharing.Nearest "w" (Store.sharing.chain 3) 3 (.imported 2 "v") :=
    .here (by decide)
  have hleads : Store.sharing.Resolves 3 "w" 1 "value" :=
    .imported hw (.imported hv (.bound hheld rfl))
  have hvalue : Store.sharing.Nearest "value" (Store.sharing.chain 4) 1 _ :=
    .outside (by decide) hheld
  have hown : Store.sharing.Nearest "v" (Store.sharing.chain 5) 5 (.constant (.string "own")) :=
    .here (by decide)
  have hhidden : ¬ Store.sharing.Resolves 5 "v" 1 "value" := by
    generalize hx : "value" = x
    intro h
    cases h with
    | bound => exact absurd hx (by decide)
    | imported h _ => cases (hown.unique h).2
  obtain ⟨hiff, hok, _⟩ :=
    assignment_seen_through_names hgrown Store.sharing_acyclic 4 "value" (.string "new")
  obtain ⟨s', hrun⟩ := hiff.2 ⟨1, _, hvalue⟩
  obtain ⟨_, hsame, r₀, w, hnear, hseen, hother⟩ := hok s' hrun
  obtain ⟨rfl, _⟩ := hvalue.unique hnear
  obtain ⟨found, hfound, hfound'⟩ := hother 5 "v" hhidden
  rw [Store.search?, Store.follow_of_nearest hown rfl] at hfound
  cases hfound
  exact ⟨hgrown, Store.sharing_acyclic, s', hrun, hsame, hseen 3 "w" hleads, hfound'⟩

end Typings
