import Mathlib.Data.List.Chain
import Typings.Proofs.Eval.Written

namespace Typings

theorem PropertyMap.get?_of_not_contains {m : PropertyMap} {key : String}
    (h : m.contains key = false) : m.get? key = none := by
  have hindex : m.index[key]? = none := by
    rw [← Option.not_isSome_iff_eq_none, ← Std.TreeMap.contains_eq_isSome_getElem?]
    exact Bool.eq_false_iff.1 h
  simp [get?, hindex]

namespace Store

variable {s : Store} {table : ClassCell → PropertyMap} {key : String} {c a : Nat} {p : Property}
  {v : Value} {line : List Nat}

def Derives (s : Store) (c p : Nat) : Prop := (s.classCell c).superclass = .classOf p

/-- Every class from `c` up to one that extends no class, each once. -/
structure IsLine (s : Store) (c : Nat) (line : List Nat) : Prop where
  head : line.head? = some c
  chain : line.IsChain s.Derives
  last : ∀ a ∈ line.getLast?, ∀ p, ¬ s.Derives a p
  nodup : line.Nodup

theorem Lines.induction (h : s.Lines) {P : Nat → Prop} (base : ∀ c, (∀ p, ¬ s.Derives c p) → P c)
    (step : ∀ c p, s.Derives c p → P p → P c) (c : Nat) : P c := by
  induction c using Nat.strongRecOn with
  | ind c ih =>
    by_cases hp : ∃ p, s.Derives c p
    · obtain ⟨p, hp⟩ := hp
      exact step c p hp (ih p (h c p hp))
    · exact base c fun p hc => hp ⟨p, hc⟩

theorem Lines.acyclic (h : s.Lines) (c : Nat) : ¬ Relation.TransGen s.Derives c c := by
  have hlt : ∀ a, Relation.TransGen s.Derives c a → a < c := by
    intro a ha
    induction ha with
    | single hp => exact h _ _ hp
    | tail _ hp ih => exact Nat.lt_trans (h _ _ hp) ih
  exact fun hc => Nat.lt_irrefl c (hlt c hc)

theorem lineage_eq_cons (s : Store) (c : Nat) : ∃ above, s.lineage c = c :: above := by
  rw [lineage]
  split
  · split
    · exact ⟨_, rfl⟩
    · exact ⟨_, rfl⟩
  · exact ⟨_, rfl⟩

theorem lineage_ne_nil (s : Store) (c : Nat) : s.lineage c ≠ [] := by
  obtain ⟨above, h⟩ := s.lineage_eq_cons c
  simp [h]

theorem staticProperty?_of_own (h : (s.classCell c).statics.get? key = some p) :
    s.staticProperty? c key = some p := by
  obtain ⟨above, hline⟩ := s.lineage_eq_cons c
  simp [staticProperty?, hline, h]

theorem Lines.isLine_lineage (h : s.Lines) (c : Nat) : s.IsLine c (s.lineage c) := by
  induction c using h.induction with
  | base c hlast =>
    rw [lineage_of_no_class hlast]
    refine ⟨rfl, .singleton _, ?_, List.nodup_singleton _⟩
    simpa using hlast
  | step c p hp ih =>
    have hnodup := nodup_lineage s c
    rw [h.lineage_eq hp] at hnodup ⊢
    refine ⟨rfl, ih.chain.cons ?_, ?_, hnodup⟩
    · rw [ih.head]
      rintro _ ⟨⟩
      exact hp
    · rw [List.getLast?_cons_of_ne_nil (lineage_ne_nil s p)]
      exact ih.last

/-- `a` is the first class of a line that has the property, and has `p` there. -/
def FirstOf (s : Store) (table : ClassCell → PropertyMap) (key : String) (line : List Nat) (a : Nat)
    (p : Property) : Prop :=
  ∃ before after, line = before ++ a :: after ∧
    (∀ b ∈ before, (table (s.classCell b)).get? key = none) ∧
    (table (s.classCell a)).get? key = some p

/-- Going up from class to class, `a` is the first that has the property, and has `p` there. -/
inductive Finds (s : Store) (table : ClassCell → PropertyMap) (key : String) :
    Nat → Nat → Property → Prop
  | own {c : Nat} {p : Property} (h : (table (s.classCell c)).get? key = some p) :
    Finds s table key c c p
  | above {c b a : Nat} {p : Property} (h : (table (s.classCell c)).get? key = none)
    (hc : s.Derives c b) (hb : Finds s table key b a p) : Finds s table key c a p

/-- Going up from class to class, none has the property, and the last one extends `v`. -/
inductive Lacks (s : Store) (table : ClassCell → PropertyMap) (key : String) : Nat → Value → Prop
  | last {c : Nat} (h : (table (s.classCell c)).get? key = none) (hc : ∀ p, ¬ s.Derives c p) :
    Lacks s table key c (s.classCell c).superclass
  | above {c b : Nat} {v : Value} (h : (table (s.classCell c)).get? key = none)
    (hc : s.Derives c b) (hb : Lacks s table key b v) : Lacks s table key c v

theorem firstOf_cons_iff : s.FirstOf table key (c :: line) a p ↔
    (a = c ∧ (table (s.classCell c)).get? key = some p) ∨
      ((table (s.classCell c)).get? key = none ∧ s.FirstOf table key line a p) := by
  constructor
  · rintro ⟨_ | ⟨b, before⟩, after, hline, hbefore, hp⟩
    · cases hline
      exact .inl ⟨rfl, hp⟩
    · cases hline
      obtain ⟨hc, hbefore⟩ := List.forall_mem_cons.1 hbefore
      exact .inr ⟨hc, before, after, rfl, hbefore, hp⟩
  · rintro (⟨rfl, hp⟩ | ⟨hc, before, after, rfl, hbefore, hp⟩)
    · exact ⟨[], line, rfl, by simp, hp⟩
    · exact ⟨c :: before, after, rfl, List.forall_mem_cons.2 ⟨hc, hbefore⟩, hp⟩

theorem not_firstOf_nil : ¬ s.FirstOf table key [] a p := by
  rintro ⟨before, after, hline, _⟩
  simp at hline

/-- Going up from class to class finds what searching the line finds. -/
theorem Lines.finds_iff (h : s.Lines) :
    s.Finds table key c a p ↔ s.FirstOf table key (s.lineage c) a p := by
  induction c using h.induction with
  | base c hlast =>
    rw [lineage_of_no_class hlast, firstOf_cons_iff]
    constructor
    · rintro (hp | ⟨_, hc, _⟩)
      · exact .inl ⟨rfl, hp⟩
      · exact absurd hc (hlast _)
    · rintro (⟨rfl, hp⟩ | ⟨_, hfirst⟩)
      · exact .own hp
      · exact absurd hfirst not_firstOf_nil
  | step c b hc ih =>
    rw [h.lineage_eq hc, firstOf_cons_iff, ← ih]
    constructor
    · rintro (hp | ⟨hnone, hc', hb⟩)
      · exact .inl ⟨rfl, hp⟩
      · cases hc.symm.trans hc'
        exact .inr ⟨hnone, hb⟩
    · rintro (⟨rfl, hp⟩ | ⟨hnone, hb⟩)
      · exact .own hp
      · exact .above hnone hc hb

/-- Going up without finding the property ends at what the last class of the line extends. -/
theorem Lines.lacks_iff (h : s.Lines) : s.Lacks table key c v ↔
    (∀ a p, ¬ s.FirstOf table key (s.lineage c) a p) ∧ v = s.root c := by
  induction c using h.induction with
  | base c hlast =>
    have hroot : s.root c = (s.classCell c).superclass := by
      rw [root, lineage_of_no_class hlast]
      rfl
    rw [lineage_of_no_class hlast, hroot]
    constructor
    · rintro (⟨hnone, _⟩ | ⟨_, hc, _⟩)
      · refine ⟨fun a p hfirst => ?_, rfl⟩
        rcases firstOf_cons_iff.1 hfirst with ⟨_, hp⟩ | ⟨_, hfirst⟩
        · cases hnone.symm.trans hp
        · exact not_firstOf_nil hfirst
      · exact absurd hc (hlast _)
    · rintro ⟨hnone, rfl⟩
      refine .last ?_ hlast
      cases hp : (table (s.classCell c)).get? key with
      | none => rfl
      | some p => exact absurd (firstOf_cons_iff.2 (.inl ⟨rfl, hp⟩)) (hnone c p)
  | step c b hc ih =>
    -- both lines end with the same class
    have hroot : s.root c = s.root b := by
      rw [root, root, h.lineage_eq hc, List.getLast?_cons_of_ne_nil (lineage_ne_nil s b)]
    rw [h.lineage_eq hc, hroot]
    constructor
    · rintro (⟨_, hlast⟩ | ⟨hnone, hc', hb⟩)
      · exact absurd hc (hlast b)
      · cases hc.symm.trans hc'
        obtain ⟨hnone', hv⟩ := ih.1 hb
        refine ⟨fun a p hfirst => ?_, hv⟩
        rcases firstOf_cons_iff.1 hfirst with ⟨_, hp⟩ | ⟨_, hfirst⟩
        · cases hnone.symm.trans hp
        · exact hnone' a p hfirst
    · rintro ⟨hnone, hv⟩
      cases hp : (table (s.classCell c)).get? key with
      | none =>
        have habove : ∀ a p, ¬ s.FirstOf table key (s.lineage b) a p :=
          fun a p hb => hnone a p (firstOf_cons_iff.2 (.inr ⟨hp, hb⟩))
        exact .above hp hc (ih.2 ⟨habove, hv⟩)
      | some p => exact absurd (firstOf_cons_iff.2 (.inl ⟨rfl, hp⟩)) (hnone c p)

theorem findSome?_eq_some_iff :
    (line.findSome? fun c => (table (s.classCell c)).get? key) = some p ↔
      ∃ a, s.FirstOf table key line a p := by
  rw [List.findSome?_eq_some_iff]
  constructor
  · rintro ⟨before, a, after, hline, hp, hbefore⟩
    exact ⟨a, before, after, hline, hbefore, hp⟩
  · rintro ⟨a, before, after, hline, hbefore, hp⟩
    exact ⟨before, a, after, hline, hp, hbefore⟩

theorem findSome?_eq_none (h : ∀ a p, ¬ s.FirstOf table key line a p) :
    (line.findSome? fun c => (table (s.classCell c)).get? key) = none := by
  rw [Option.eq_none_iff_forall_ne_some]
  intro p hp
  obtain ⟨a, hfirst⟩ := findSome?_eq_some_iff.1 hp
  exact h a p hfirst

theorem isSome_findSome?_iff :
    (line.findSome? fun c => (table (s.classCell c)).get? key).isSome = true ↔
      ∃ a p, s.FirstOf table key line a p := by
  rw [Option.isSome_iff_exists, exists_comm]
  exact exists_congr fun _ => findSome?_eq_some_iff

/--
The properties of `base` that are not its own are those of the line of `c`. Reading, writing and
asking for one all go by the first class that has it. Where none has it, a write makes a property of
the base itself, and a reading finds a member of the host that the last class extends, or nothing.
-/
structure Inherits (s : Store) (table : ClassCell → PropertyMap) (c : Nat) (m : Machine)
    (base : Value) (key : String) : Prop where
  read : ∀ a p, s.FirstOf table key (s.lineage c) a p →
    EvalM.getProperty m base key s = EvalM.readSlot m p.slot base s
  write : ∀ a p, s.FirstOf table key (s.lineage c) a p → ∀ v,
    EvalM.setProperty m base key v s = EvalM.writeOver m base key v p.slot s
  ask : ∃ found, EvalM.hasProperty base key s = (.ok found, s) ∧
    (found = true ↔ ∃ a p, s.FirstOf table key (s.lineage c) a p)
  readHost : (∀ a p, ¬ s.FirstOf table key (s.lineage c) a p) → ∀ r path, s.root c = .host r path →
    EvalM.getProperty m base key s = EvalM.make (·.addHost (path ++ "." ++ key)) s
  readNothing : (∀ a p, ¬ s.FirstOf table key (s.lineage c) a p) →
    (∀ r path, s.root c ≠ .host r path) → EvalM.getProperty m base key s = (.ok .undefined, s)
  writeNew : (∀ a p, ¬ s.FirstOf table key (s.lineage c) a p) → ∀ v,
    EvalM.setProperty m base key v s = (.ok (), s.putOwn base key v)

/-- A base inherits by the one search of the line that reading, writing and asking share. -/
theorem inherits_of_nearest {m : Machine} {base : Value} (hbase : base.hasProperties = true)
    (hnearest : s.nearestProperty? base key =
      (s.lineage c).findSome? fun c => (table (s.classCell c)).get? key)
    (hread : ∀ p, s.nearestProperty? base key = some p →
      EvalM.getProperty m base key s = EvalM.readSlot m p.slot base s)
    (hroot : s.nearestProperty? base key = none →
      EvalM.getProperty m base key s = EvalM.rootProperty c key s)
    (hask : EvalM.hasProperty base key s = (.ok (s.nearestProperty? base key).isSome, s)) :
    s.Inherits table c m base key where
  read a p hfirst := hread p (hnearest.trans (findSome?_eq_some_iff.2 ⟨a, hfirst⟩))
  write a p hfirst v := by
    have hp := hnearest.trans (findSome?_eq_some_iff.2 ⟨a, hfirst⟩)
    exact EvalM.setProperty_of_nearest hp m v
  ask := by
    rw [hnearest] at hask
    exact ⟨_, hask, isSome_findSome?_iff⟩
  readHost hnone r path hr := by
    rw [hroot (hnearest.trans (findSome?_eq_none hnone))]
    refine (get_bind s).trans ?_
    simp only [hr]
  readNothing hnone hr := by
    rw [hroot (hnearest.trans (findSome?_eq_none hnone))]
    refine (get_bind s).trans ?_
    cases hv : s.root c with
    | host r path => exact absurd hv (hr r path)
    | _ => rfl
  writeNew hnone v :=
    EvalM.setProperty_of_none hbase (hnearest.trans (findSome?_eq_none hnone)) m v

theorem inherits_object (m : Machine) {r : Nat} (hclass : (s.object r).class? = some c)
    (hown : (s.object r).props.contains key = false) (hkey : key ≠ "constructor") :
    s.Inherits ClassCell.shared c m (.object r) key := by
  have hnone : (s.object r).props.get? key = none := PropertyMap.get?_of_not_contains hown
  have hnearest : s.nearestProperty? (.object r) key = s.sharedProperty? c key := by
    simp [nearestProperty?, hnone, hclass]
  have hget : EvalM.getProperty m (.object r) key s = EvalM.sharedGet m c key (.object r) s := by
    refine (get_bind s).trans ?_
    simp only [hnone, hclass]
  have hne : (key == "constructor") = false := by simpa using hkey
  refine inherits_of_nearest rfl hnearest (fun p hp => ?_) (fun hp => ?_) ?_
  · rw [hnearest] at hp
    rw [hget]
    simp only [EvalM.sharedGet, hne]
    refine (get_bind s).trans ?_
    simp only [hp]
  · rw [hnearest] at hp
    rw [hget]
    simp only [EvalM.sharedGet, hne]
    refine (get_bind s).trans ?_
    simp only [hp]
  · refine (get_bind s).trans ?_
    simp only [hown, hclass, hnearest]
    rfl

theorem inherits_class (m : Machine) (c : Nat) (hkey : key ∉ ["name", "length", "prototype"]) :
    s.Inherits ClassCell.statics c m (.classOf c) key := by
  obtain ⟨hname, hlength, hprototype⟩ : key ≠ "name" ∧ key ≠ "length" ∧ key ≠ "prototype" := by
    simpa using hkey
  refine inherits_of_nearest rfl rfl (fun p hp => ?_) (fun hp => ?_) (get_bind s)
  · have hstatic : s.staticProperty? c key = some p := hp
    refine (get_bind s).trans ((get_bind s).trans ?_)
    -- a static of the class itself is asked for first, and it is the first of the line as well
    cases hown : (s.classCell c).statics.get? key with
    | none => simp only [beq_iff_eq, hname, hlength, hprototype, if_false, hstatic]
    | some q =>
      cases (staticProperty?_of_own hown).symm.trans hstatic
      rfl
  · have hstatic : s.staticProperty? c key = none := hp
    refine (get_bind s).trans ((get_bind s).trans ?_)
    cases hown : (s.classCell c).statics.get? key with
    | none => simp only [beq_iff_eq, hname, hlength, hprototype, if_false, hstatic]
    | some q => cases (staticProperty?_of_own hown).symm.trans hstatic

/--
The classes of every store that can arise extend one another without a circle, so the line of a
class is the way up to one that extends no class, with each class once. Going up class by class
finds what a search of the line finds. So an instance is read, written and asked by the same
property of the same class, and so is a class for what is static.
-/
theorem class_walks_agree (hs : s.Reachable) :
    (∀ c, ¬ Relation.TransGen s.Derives c c) ∧ (∀ c, s.IsLine c (s.lineage c)) ∧
      (∀ table key c a p, s.Finds table key c a p ↔ s.FirstOf table key (s.lineage c) a p) ∧
      (∀ table key c v, s.Lacks table key c v ↔
        (∀ a p, ¬ s.FirstOf table key (s.lineage c) a p) ∧ v = s.root c) ∧
      (∀ m r c key, (s.object r).class? = some c → (s.object r).props.contains key = false →
        key ≠ "constructor" → s.Inherits ClassCell.shared c m (.object r) key) ∧
      ∀ m c key, key ∉ ["name", "length", "prototype"] →
        s.Inherits ClassCell.statics c m (.classOf c) key :=
  have hlines : s.Lines := hs.invariant.sound.toLines
  ⟨hlines.acyclic, hlines.isLine_lineage, fun _ _ _ _ _ => hlines.finds_iff,
    fun _ _ _ _ => hlines.lacks_iff, fun m _ _ _ => inherits_object m,
    fun m c _ => inherits_class m c⟩

/-- An instance has no way to be read where a class hides the getter of its ancestor. -/
theorem class_walks_agree_withHalves :
    withHalves.Reachable ∧ (withHalves.object 0).class? = some 2 ∧
      (withHalves.object 0).props.contains "x" = false ∧
      withHalves.FirstOf ClassCell.shared "x" (withHalves.lineage 2) 1
        ⟨.accessor none (some (.function 5)), false⟩ ∧
      EvalM.getProperty .full (.object 0) "x" withHalves = (.ok .undefined, withHalves) ∧
      EvalM.setProperty .full (.object 0) "x" .null withHalves =
        EvalM.callSetter .full (.function 5) (.object 0) .null withHalves := by
  have hreachable : withHalves.Reachable := afterText_reachable _
  obtain ⟨hclass, hown, hline, hnone, hset⟩ := withHalves_holds.2
  have hfirst : withHalves.FirstOf ClassCell.shared "x" (withHalves.lineage 2) 1
      ⟨.accessor none (some (.function 5)), false⟩ :=
    ⟨[2], [0], hline, by simpa using hnone, hset⟩
  obtain ⟨_, _, _, _, hobject, _⟩ := class_walks_agree hreachable
  have hinherits := hobject .full 0 2 "x" hclass hown (by decide)
  exact ⟨hreachable, hclass, hown, hfirst, hinherits.read 1 _ hfirst,
    hinherits.write 1 _ hfirst .null⟩

end Store

end Typings
