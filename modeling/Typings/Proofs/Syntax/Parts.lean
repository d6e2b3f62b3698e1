import Typings.Proofs.Syntax.Whole

namespace Typings

open Parse
open Carrier (parts)

/-- A part with `P` for every node in it and `B` for the tokens of every body in it. -/
inductive Part.Deep (P : Node → Prop) (B : List Lexeme → Prop) : Part → Prop
  | node {n : Node} (hn : P n) (hparts : ∀ p ∈ n.parts, Deep P B p) : Deep P B (.node n)
  | body {ts : List Lexeme} (hts : B ts) : Deep P B (.body ts)

section
variable {w : Watch} {ts : List Lexeme} {m : Module} {n : Node}

theorem moduleItems_hold {g : Grammar} {k fuel : Nat} (hg : g.Watched w k)
    {items res : List ModuleItem} {c c' : Cursor} (hc : c.rest ≤ k + 1)
    (hitems : ∀ p ∈ parts items, ∃ i j, w c.tokens i j p)
    (h : repeated (moduleStep g) fuel (items, []) c = (.ok (res, []), c')) :
    ∀ p ∈ parts res, ∃ i j, w c.tokens i j p := by
  induction fuel generalizing items c with
  | zero => cases h
  | succ fuel ih =>
    rcases repeated_moduleStep_ok h with ⟨_, rfl, _⟩ | ⟨_, item, c₁, hitem, h⟩
    · exact fun p hp => hitems p (parts_reverse_subset items hp)
    · obtain ⟨hleads, hends⟩ := Grammar.yields_moduleItem hg hc
      rw [hitem] at hleads hends
      rw [← hleads.tokens] at hitems ⊢
      refine ih (hleads.rest_le hc) (fun p hp => ?_) h
      rcases List.mem_append.1 hp with hp | hp
      · exact ⟨_, _, hleads.tokens ▸ hends.2 p hp⟩
      · exact hitems p hp

theorem Module.ofTokens_holds (w : Watch) (h : Module.ofTokens ts = .ok m) :
    ∀ p ∈ parts m.items, ∃ i k, w (Cursor.terminated ts).toArray i k p := by
  obtain ⟨items, span⟩ := m
  have hrun : wholeModule (Grammar.for ts) (Cursor.ofTokens ts) =
      (.ok (items, [], span), Module.lastCursor ts) :=
    Prod.ext (Module.ofTokens_eq_ok.1 h) rfl
  obtain ⟨_, _, hhere, hrun⟩ := bind_run_ok hrun
  cases hhere
  obtain ⟨⟨_, _⟩, c', hloop, hrun⟩ := bind_run_ok hrun
  obtain ⟨_, _, hhere, hrun⟩ := bind_run_ok hrun
  cases hhere
  generalize Module.lastCursor ts = last at hrun
  cases hrun
  exact moduleItems_hold (Grammar.levels_watched _) (Nat.le_succ_of_le (Cursor.rest_ofTokens ts))
    (by simp [parts]) hloop

/-- What is known of everything that is read from tokens with `B` is known of a module. -/
theorem Module.Has.deep {P : Node → Prop} {B : List Lexeme → Prop}
    (hread : ∀ {ts i k p}, B ts → w (Cursor.terminated ts).toArray i k p → p.Deep P B)
    (hts : B ts) (h : Module.ofTokens ts = .ok m) (hn : m.Has n) : Part.Deep P B (.node n) := by
  induction hn with
  | @item x n hx hn =>
    have hmem : .node n ∈ parts m.items := List.mem_flatMap.2 ⟨x, hx, List.mem_map_of_mem hn⟩
    obtain ⟨i, k, hw⟩ := Module.ofTokens_holds w h _ hmem
    exact hread hts hw
  | @child n n' _ hn' ih =>
    cases ih with
    | node _ hparts =>
      rcases Node.mem_children hn' with hn' | ⟨us, ss, s, hus, hss, hs, rfl⟩
      · exact hparts _ hn'
      · cases hparts _ hus with
        | body hus =>
          obtain ⟨k, hk⟩ := (Statement.ofTokens_holds w us).ok hss
          exact hread hus (hk _ (List.mem_flatMap.2 ⟨s, hs, List.mem_singleton.2 rfl⟩))

end

theorem toList_extract_part (T : Array Lexeme) (a b : Nat) :
    (T.extract a b).toList <:+: T.toList := by
  rw [Array.toList_extract, List.extract_eq_take_drop]
  exact (List.take_prefix ..).isInfix.trans (List.drop_suffix ..).isInfix

theorem mem_toList_of_getElem? {T : Array Lexeme} {i : Nat} {x : Lexeme} (h : T[i]? = some x) :
    x ∈ T.toList :=
  Array.mem_toList_iff.2 (Array.mem_of_getElem? h)

/-- What is read from tokens that are known is known. -/
structure Likeness.Kept (L : Likeness) : Prop where
  terminated : ∀ {ts}, L.source ts → L.source (Cursor.terminated ts)
  among : ∀ {ts us}, us <:+: ts → L.source ts → L.source us
  substitution : ∀ {ts us parts s}, L.source ts → (.template parts, s) ∈ ts →
    .substitution us ∈ parts → L.source us
  known : ∀ {n a} {c c' : Cursor}, L.source c.tokens.toList → c.rest ≤ n + 1 →
    (Grammar.levels n).classDef c = (.ok a, c') → L.known a

section
variable {L : Likeness} (hL : L.Kept)
include hL

def Node.Known (L : Likeness) (n : Node) : Prop := ∀ c, n = .classOf c → L.known c

theorem Node.ReadIn.known {T : Array Lexeme} {n : Node} (h : n.ReadIn T) (hT : L.source T.toList) :
    n.Known L := by
  rintro c rfl
  obtain ⟨_, _, _, rfl, hrest, hrun⟩ := h
  exact hL.known hT hrest hrun

/-- Every class is known, and every body is read from such tokens as the tree is. -/
def Likeness.watch : Watch where
  asks T _ _ p := L.source T.toList → p.Deep (Node.Known L) L.source
  wider _ _ h := h
  closed _ _ hread _ hparts hT := .node (hread.known hL hT) fun p hp => hparts p hp hT
  ended _ _ _ hlast hparts hT := .node nofun fun p hp =>
    (hparts p hp).elim (fun h => h ▸ hlast hT) fun h => h hT
  wrapped hread hparts _ hm hT := .node (hread.known hL hT) fun p hp => by
    rw [hparts, List.mem_singleton] at hp
    exact hp ▸ hm hT
  template _ hform hparts hT := .node nofun fun p hp => by
    obtain ⟨ts, k, hts, hp⟩ := hparts p hp
    exact hp (hL.terminated (hL.substitution hT (mem_toList_of_getElem? hform) hts))
  body _ _ _ _ hT := .body (hL.among (toList_extract_part ..) hT)

theorem Module.Has.known {ts : List Lexeme} (hts : L.source ts) {m : Module}
    (h : Module.ofTokens ts = .ok m) {c : ClassDef} (hc : m.Has (.classOf c)) : L.known c := by
  cases hc.deep (w := Likeness.watch hL) (fun hts hp => hp (hL.terminated hts)) hts h with
  | node hknown _ => exact hknown c rfl

end

end Typings
