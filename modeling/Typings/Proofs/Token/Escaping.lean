import Mathlib.Data.Nat.Digits.Lemmas
import Typings.Proofs.Token.Quoting

namespace Typings

namespace Escape

/-- A part of a body that is replaced as a whole. -/
inductive Item
  | plain (c : Char)
  /-- A line that goes on in the next. -/
  | lineFeed
  | single (c : Char)
  /-- Behind an `x`. -/
  | byte (digits : List Char)
  /-- Behind a `u`. -/
  | code (digits : List Char)
  /-- Behind a `u`, between braces. -/
  | braced (inner : List Char)
  /-- Behind a `u` and a brace that is not closed. -/
  | openBrace (inner : List Char)
  /-- A backslash at the end. -/
  | lone

/-- The number that hexadecimal digits write. -/
def hexValue (digits : List Char) : Nat :=
  Nat.ofDigits 16 (digits.reverse.map fun d => (digitIn? 16 d).getD 0)

/-- The character whose number is written in hexadecimal digits, at least one. -/
def named? (digits : List Char) : Option Char :=
  if digits ≠ [] ∧ digits.all isHexDigit ∧ (hexValue digits).isValidChar then
    some (Char.ofNat (hexValue digits))
  else none

/-- Without one plus sign at the start. -/
def signless (digits : List Char) : List Char :=
  if digits.head? = some '+' then digits.tail else digits

namespace Item

/-- How an item is written. -/
def source : Item → List Char
  | plain c => [c]
  | lineFeed => ['\\', '\n']
  | single c => ['\\', c]
  | byte digits => '\\' :: 'x' :: digits
  | code digits => '\\' :: 'u' :: digits
  | braced inner => '\\' :: 'u' :: '{' :: (inner ++ ['}'])
  | openBrace inner => '\\' :: 'u' :: '{' :: inner
  | lone => ['\\']

/-- The character that a well-formed escape names by its number. -/
def char? : Item → Option Char
  | byte digits => if digits.length = 2 then named? digits else none
  | code digits => if digits.length = 4 then named? digits else none
  | braced inner => named? inner
  | _ => none

/-- What an item stands for: an escape that is not well formed, for itself. -/
def meaning : Item → List Char
  | lineFeed => []
  | single c => [simple c]
  | i => (i.char?.map ([·])).getD i.source

/-- The items that do not come out as what they stand for. -/
def Slips : Item → Prop
  | code digits => 0 < digits.length ∧ digits.length < 4
  | braced inner => named? inner = none
  | openBrace _ | lone => True
  | _ => False

def outcome : Item → List Char
  | code digits => ((named? digits).map ([·])).getD ('\\' :: 'u' :: digits)
  | braced inner | openBrace inner =>
    ((named? (signless inner)).map ([·])).getD ('\\' :: 'u' :: inner)
  | lone => []
  | i => i.meaning

/-- At most `n` hexadecimal digits, and as many as there are before `rest`. -/
structure DigitRun (n : Nat) (digits rest : List Char) : Prop where
  length_le : digits.length ≤ n
  isHex : ∀ d ∈ digits, isHexDigit d = true
  stop : digits.length < n → ∀ c ∈ rest.head?, isHexDigit c = false

/-- Whether an item ends where `rest` begins. -/
def Fits : Item → List Char → Prop
  | plain c, _ => c ≠ '\\'
  | lineFeed, _ => True
  | single c, _ => c ≠ '\n' ∧ c ≠ 'u' ∧ c ≠ 'x'
  | byte digits, rest => DigitRun 2 digits rest
  | code digits, rest => DigitRun 4 digits rest ∧ (digits = [] → rest.head? ≠ some '{')
  | braced inner, _ => '}' ∉ inner
  | openBrace inner, rest => '}' ∉ inner ∧ rest = []
  | lone, rest => rest = []

end Item

/-- A body, read as items from left to right. -/
inductive Reading : List Item → List Char → Prop
  | nil : Reading [] []
  | cons {i : Item} {is : List Item} {cs : List Char} (hi : i.Fits cs) (h : Reading is cs) :
      Reading (i :: is) (i.source ++ cs)

theorem hexValue_cons (c : Char) (cs : List Char) :
    hexValue (c :: cs) = (digitIn? 16 c).getD 0 * 16 ^ cs.length + hexValue cs := by
  simp [hexValue, Nat.ofDigits_append, Nat.add_comm, Nat.mul_comm]

theorem digitIn?_lt {base n : Nat} {c : Char} (h : digitIn? base c = some n) : n < base := by
  unfold digitIn? at h
  grind

theorem hexValue_lt (cs : List Char) : hexValue cs < 16 ^ cs.length := by
  have hlt := Nat.ofDigits_lt_base_pow_length (b := 16)
    (l := cs.reverse.map fun d => (digitIn? 16 d).getD 0) (by decide) ?_
  · simpa [hexValue] using hlt
  · intro n hn
    obtain ⟨d, _, rfl⟩ := List.mem_map.1 hn
    cases hd : digitIn? 16 d with
    | none => decide
    | some n => exact digitIn?_lt hd

theorem foldlM_digitIn? (n : Nat) (cs : List Char) :
    cs.foldlM (fun acc c => (digitIn? 16 c).map (acc * 16 + ·)) n =
      if cs.all isHexDigit then some (n * 16 ^ cs.length + hexValue cs) else none := by
  induction cs generalizing n with
  | nil => simp [hexValue]
  | cons c cs ih =>
    rw [List.foldlM_cons, List.all_cons, hexValue_cons, isHexDigit, List.length_cons]
    cases digitIn? 16 c with
    | none => rfl
    | some d =>
      rw [Option.map_some, Option.bind_eq_bind, Option.bind_some, ih]
      simp only [Option.isSome_some, Bool.true_and, Option.getD_some]
      congr 2
      ring

theorem digitsIn?_eq (cs : List Char) :
    digitsIn? 16 cs = if cs.all isHexDigit then some (hexValue cs) else none := by
  rw [digitsIn?, foldlM_digitIn?, Nat.zero_mul, Nat.zero_add]

theorem scalar?_eq (n : Nat) : scalar? n = if n.isValidChar then some (Char.ofNat n) else none := by
  unfold scalar? Char.ofNat
  by_cases h : n.isValidChar
  · rw [dif_pos h, if_pos h, dif_pos h]
  · rw [dif_neg h, if_neg h]

theorem unsigned?_eq (bound : Nat) (cs : List Char) : unsigned? 16 bound cs =
    if (signless cs).isEmpty then none else (digitsIn? 16 (signless cs)).filter (· < bound) := by
  unfold unsigned?
  split
  · rfl
  · rename_i hplus
    have hself : signless cs = cs := by
      refine if_neg fun hhead => ?_
      obtain ⟨rest, rfl⟩ := List.head?_eq_some_iff.1 hhead
      exact hplus rest rfl
    rw [hself]

/-- The character of a number that is read up to a bound, where the bound cuts no character off. -/
theorem unsigned?_bind_scalar? {bound : Nat} {cs : List Char}
    (hbound : (hexValue (signless cs)).isValidChar → hexValue (signless cs) < bound) :
    (unsigned? 16 bound cs).bind scalar? = named? (signless cs) := by
  rw [unsigned?_eq, digitsIn?_eq, named?]
  generalize signless cs = digits at hbound ⊢
  by_cases hempty : digits = []
  · simp [hempty]
  rw [if_neg (by simpa using hempty)]
  by_cases hhex : digits.all isHexDigit = true
  · rw [if_pos hhex]
    by_cases hvalid : (hexValue digits).isValidChar
    · rw [if_pos ⟨hempty, hhex, hvalid⟩, Option.filter_some_pos (by simpa using hbound hvalid),
        Option.bind_some, scalar?_eq, if_pos hvalid]
    · rw [if_neg fun h => hvalid h.2.2]
      refine Option.bind_eq_none_iff.2 fun n hn => ?_
      obtain ⟨rfl, _⟩ : hexValue digits = n ∧ _ := by simpa using Option.filter_eq_some_iff.1 hn
      rw [scalar?_eq, if_neg hvalid]
  · simp [hempty, hhex]

theorem signless_of_isHexDigit {cs : List Char} (h : ∀ c ∈ cs, isHexDigit c = true) :
    signless cs = cs := by
  unfold signless
  rw [if_neg]
  intro hhead
  exact absurd (h '+' (List.mem_of_mem_head? hhead)) (by decide)

theorem isHexDigit_of_named? {cs : List Char} {c : Char} (h : named? cs = some c) :
    ∀ d ∈ cs, isHexDigit d = true := by
  unfold named? at h
  split at h
  · rename_i hcs
    exact List.all_eq_true.1 hcs.2.1
  · cases h

theorem named?_of_length_lt {cs : List Char} (hne : cs ≠ []) (hhex : ∀ c ∈ cs, isHexDigit c = true)
    (hlength : cs.length < 4) : ∃ c, named? cs = some c := by
  have hlt := hexValue_lt cs
  have hpow : 16 ^ cs.length ≤ 16 ^ 3 := Nat.pow_le_pow_right (by decide) (by omega)
  have hvalid : (hexValue cs).isValidChar := .inl (by omega)
  exact ⟨_, if_pos ⟨hne, List.all_eq_true.2 hhex, hvalid⟩⟩

theorem Item.DigitRun.hexRun_eq {n : Nat} {digits rest : List Char} (h : DigitRun n digits rest) :
    hexRun n (digits ++ rest) = (digits, rest) := by
  induction digits generalizing n with
  | nil =>
    cases n with
    | zero => rfl
    | succ n =>
      cases rest with
      | nil => rfl
      | cons c rest => simp [hexRun, h.stop (by simp) c rfl]
  | cons d digits ih =>
    cases n with
    | zero => simpa using h.length_le
    | succ n =>
      have hrest : DigitRun n digits rest :=
        ⟨by simpa using h.length_le, fun c hc => h.isHex c (List.mem_cons_of_mem _ hc),
          fun hlt => h.stop (by simpa using hlt)⟩
      simp [hexRun, h.isHex d List.mem_cons_self, ih hrest]

theorem digitRun_hexRun (n : Nat) (cs : List Char) :
    Item.DigitRun n (hexRun n cs).1 (hexRun n cs).2 ∧ (hexRun n cs).1 ++ (hexRun n cs).2 = cs := by
  fun_induction hexRun n cs with
  | case1 cs => exact ⟨⟨by simp, by simp, by simp⟩, rfl⟩
  | case2 n => exact ⟨⟨by simp, by simp, by simp⟩, rfl⟩
  | case3 n c cs hc digits rest heq ih =>
    rw [heq] at ih
    obtain ⟨hrun, happend⟩ := ih
    refine ⟨⟨by simpa using hrun.length_le, ?_, fun hlt => hrun.stop (by simpa using hlt)⟩, ?_⟩
    · simpa [hc] using hrun.isHex
    · simp [← happend]
  | case4 n c cs hc => exact ⟨⟨by simp, by simp, by simpa using hc⟩, rfl⟩

theorem cook_code (cs : List Char) : cook ('\\' :: 'u' :: cs) =
    ((named? (signless (codePoint cs).1)).map ([·])).getD ('\\' :: 'u' :: (codePoint cs).1) ++
      cook (codePoint cs).2 := by
  rw [cook, unsigned?_bind_scalar?]
  · cases named? (signless (codePoint cs).1) <;> rfl
  · intro hvalid
    have hlt : hexValue (signless (codePoint cs).1) < 0x110000 := by
      rcases hvalid with h | h <;> omega
    exact hlt.trans (by decide)

theorem cook_byte (cs : List Char) : cook ('\\' :: 'x' :: cs) =
    ((byte? (hexRun 2 cs).1).map ([·])).getD ('\\' :: 'x' :: (hexRun 2 cs).1) ++
      cook (hexRun 2 cs).2 := by
  rw [cook]
  cases byte? (hexRun 2 cs).1 <;> rfl

theorem byte?_eq {digits : List Char} (h : ∀ d ∈ digits, isHexDigit d = true) :
    byte? digits = if digits.length = 2 then named? digits else none := by
  unfold byte?
  split
  · rename_i hlength
    have hlt : hexValue digits < 256 := by
      simpa [hlength] using hexValue_lt digits
    rw [unsigned?_bind_scalar?] <;> rw [signless_of_isHexDigit h]
    exact fun _ => hlt
  · rfl

theorem codePoint_digits {digits rest : List Char} (h : (Item.code digits).Fits rest) :
    codePoint (digits ++ rest) = (digits, rest) := by
  have hbrace : ∀ cs, digits ++ rest ≠ '{' :: cs := by
    intro cs hcs
    cases digits with
    | nil => exact h.2 rfl (by rw [← List.nil_append rest, hcs]; rfl)
    | cons d digits =>
      obtain ⟨rfl, _⟩ := List.cons.inj hcs
      exact absurd (h.1.isHex '{' List.mem_cons_self) (by decide)
  rw [codePoint, h.1.hexRun_eq]
  exact hbrace

theorem codePoint_brace {inner rest : List Char} (h : '}' ∉ inner) (hrest : ∀ c ∈ rest.head?, c = '}') :
    codePoint ('{' :: (inner ++ rest)) = (inner, rest.drop 1) := by
  have hinner : ∀ c ∈ inner, (c != '}') = true := by
    intro c hc
    simpa using ne_of_mem_of_not_mem hc h
  rw [codePoint, List.takeWhile_append_of_pos hinner, List.dropWhile_append_of_pos hinner]
  cases rest with
  | nil => simp
  | cons c rest =>
    obtain rfl := hrest c rfl
    simp

theorem Item.cook_source_append {i : Item} {rest : List Char} (hi : i.Fits rest) :
    cook (i.source ++ rest) = i.outcome ++ cook rest := by
  cases i with
  | plain c => exact cook_plain hi rest
  | lineFeed => simp [source, outcome, meaning, cook]
  | single c => exact cook_escaped hi rest
  | byte digits =>
    rw [source, List.cons_append, List.cons_append, cook_byte, hi.hexRun_eq, byte?_eq hi.isHex]
    rfl
  | code digits =>
    rw [source, List.cons_append, List.cons_append, cook_code, codePoint_digits hi,
      signless_of_isHexDigit hi.1.isHex]
    rfl
  | braced inner =>
    have happend : (braced inner).source ++ rest = '\\' :: 'u' :: '{' :: (inner ++ '}' :: rest) := by
      simp [source]
    rw [happend, cook_code, codePoint_brace hi (by simp)]
    rfl
  | openBrace inner =>
    obtain ⟨hinner, rfl⟩ := hi
    have hpoint : codePoint ('{' :: (inner ++ [])) = (inner, []) := codePoint_brace hinner (by simp)
    rw [List.append_nil] at hpoint
    rw [source, List.append_nil, cook_code, hpoint]
    rfl
  | lone =>
    obtain rfl : rest = [] := hi
    simp [source, outcome, cook]

theorem Reading.cook_eq {items : List Item} {body : List Char} (h : Reading items body) :
    cook body = items.flatMap Item.outcome := by
  induction h with
  | nil => rw [cook, List.flatMap_nil]
  | cons hi _ ih => rw [Item.cook_source_append hi, ih, List.flatMap_cons]

/-- What stands behind a `u` is one item, up to where the escape ends. -/
theorem exists_item_code (cs : List Char) :
    ∃ i : Item, i.Fits (codePoint cs).2 ∧ '\\' :: 'u' :: cs = i.source ++ (codePoint cs).2 := by
  by_cases hbrace : cs.head? = some '{'
  · obtain ⟨cs, rfl⟩ := List.head?_eq_some_iff.1 hbrace
    have hinner : '}' ∉ cs.takeWhile (· != '}') := by
      intro hmem
      simpa using List.all_eq_true.1 List.all_takeWhile _ hmem
    have hsplit := List.takeWhile_append_dropWhile (p := (· != '}')) (l := cs)
    rw [codePoint]
    cases hrest : cs.dropWhile (· != '}') with
    | nil =>
      rw [hrest, List.append_nil] at hsplit
      exact ⟨.openBrace _, ⟨hinner, rfl⟩, by simp [Item.source, hsplit]⟩
    | cons c rest =>
      obtain rfl : c = '}' := by
        have hhead := List.head?_dropWhile_not (· != '}') cs
        rw [hrest] at hhead
        simpa using hhead
      rw [hrest] at hsplit
      exact ⟨.braced _, hinner, by simp [Item.source, hsplit]⟩
  · obtain ⟨hrun, happend⟩ := digitRun_hexRun 4 cs
    have hpoint : codePoint cs = hexRun 4 cs := by
      rw [codePoint]
      rintro cs rfl
      exact hbrace rfl
    rw [hpoint]
    refine ⟨.code _, ⟨hrun, fun hnil => ?_⟩, by simp [Item.source, happend]⟩
    rw [hnil, List.nil_append] at happend
    rwa [happend]

theorem exists_reading (body : List Char) : ∃ items, Reading items body := by
  -- The cases are those of `cook`, which needs only the lengths of what is left.
  fun_induction cook body with
  | case1 => exact ⟨[], .nil⟩
  | case2 =>
    have hlone : Reading [.lone] (Item.lone.source ++ []) := .cons rfl .nil
    exact ⟨_, hlone⟩
  | case3 cs ih =>
    obtain ⟨items, h⟩ := ih
    exact ⟨_, .cons (i := .lineFeed) trivial h⟩
  | case4 cs c _ ih | case5 cs _ ih =>
    obtain ⟨items, h⟩ := ih
    obtain ⟨i, hi, hcs⟩ := exists_item_code cs
    rw [hcs]
    exact ⟨_, .cons hi h⟩
  | case6 cs c _ ih | case7 cs _ ih =>
    obtain ⟨items, h⟩ := ih
    obtain ⟨hrun, happend⟩ := digitRun_hexRun 2 cs
    have hreading := Reading.cons (i := .byte _) hrun h
    rw [Item.source, List.cons_append, List.cons_append, happend] at hreading
    exact ⟨_, hreading⟩
  | case8 c cs hfeed hu hx ih =>
    obtain ⟨items, h⟩ := ih
    exact ⟨_, .cons (i := .single c) ⟨hfeed, hu, hx⟩ h⟩
  | case9 c cs hlone _ _ _ hpair ih =>
    obtain ⟨items, h⟩ := ih
    refine ⟨_, .cons (i := .plain c) ?_ h⟩
    intro hslash
    cases cs with
    | nil => exact hlone hslash rfl
    | cons d cs => exact hpair d cs hslash rfl

namespace Item

variable {i : Item} {rest : List Char}

theorem outcome_of_not_slips (hi : i.Fits rest) (h : ¬ i.Slips) : i.outcome = i.meaning := by
  cases i with
  | code digits =>
    by_cases hlength : digits.length = 4
    · simp [outcome, meaning, char?, source, hlength]
    · -- The only number of digits that is left is zero.
      have hle := hi.1.length_le
      have hzero : digits.length = 0 := by
        simp only [Slips] at h
        omega
      obtain rfl := List.eq_nil_of_length_eq_zero hzero
      rfl
  | braced inner =>
    obtain ⟨c, hc⟩ := Option.ne_none_iff_exists'.1 h
    have hsignless := signless_of_isHexDigit (isHexDigit_of_named? hc)
    simp [outcome, meaning, char?, hsignless, hc]
  | openBrace | lone => exact absurd trivial h
  | _ => rfl

theorem length_getD_le (c? : Option Char) (inner : List Char) :
    ((c?.map ([·])).getD ('\\' :: 'u' :: inner)).length ≤ inner.length + 2 := by
  cases c? <;> simp

theorem length_outcome_lt (hi : i.Fits rest) (h : i.Slips) : i.outcome.length < i.meaning.length := by
  cases i with
  | code digits =>
    obtain ⟨c, hc⟩ := named?_of_length_lt (List.length_pos_iff.1 h.1) hi.1.isHex h.2
    have hlength : digits.length ≠ 4 := by
      have hlt := h.2
      omega
    simp [outcome, meaning, char?, source, hc, hlength]
  | braced inner =>
    have hle := length_getD_le (named? (signless inner)) inner
    have hmeaning : (braced inner).meaning = (braced inner).source := by
      simp only [Slips] at h
      simp [meaning, char?, h]
    rw [hmeaning]
    simp only [outcome, source, List.length_cons, List.length_append, List.length_nil]
    omega
  | openBrace inner =>
    have hle := length_getD_le (named? (signless inner)) inner
    have hmeaning : (openBrace inner).meaning.length = inner.length + 3 := rfl
    rw [hmeaning]
    exact Nat.lt_succ_of_le hle
  | lone => decide
  | _ => exact h.elim

end Item

namespace Reading

variable {items : List Item} {body : List Char}

theorem length_outcome_le (h : Reading items body) :
    (items.flatMap Item.outcome).length ≤ (items.flatMap Item.meaning).length := by
  induction h with
  | nil => exact Nat.le_refl _
  | @cons i is cs hi _ ih =>
    have hfirst : i.outcome.length ≤ i.meaning.length := by
      by_cases hslips : i.Slips
      · exact Nat.le_of_lt (Item.length_outcome_lt hi hslips)
      · rw [Item.outcome_of_not_slips hi hslips]
    simp only [List.flatMap_cons, List.length_append]
    omega

/-- No item comes out longer than what it stands for, so nothing makes up for one that slips. -/
theorem outcome_eq_meaning_iff (h : Reading items body) :
    items.flatMap Item.outcome = items.flatMap Item.meaning ↔ ∀ i ∈ items, ¬ i.Slips := by
  induction h with
  | nil => simp
  | @cons i is cs hi hrest ih =>
    rw [List.flatMap_cons, List.flatMap_cons, List.forall_mem_cons]
    by_cases hslips : i.Slips
    · have hlt := Item.length_outcome_lt hi hslips
      have hle := hrest.length_outcome_le
      refine iff_of_false (fun heq => ?_) fun h => h.1 hslips
      have hlength := congrArg List.length heq
      simp only [List.length_append] at hlength
      omega
    · rw [Item.outcome_of_not_slips hi hslips, List.append_cancel_left_eq, ih]
      exact (and_iff_right hslips).symm

end Reading

end Escape

/--
A body is read from left to right as items in at least one way. However it is read, it comes out as
its items do, one after the other; and it comes out as what they stand for, an escape that is not well
formed for itself, exactly where none of them slips.
-/
theorem escapes_replaced_iff (body : List Char) :
    (∃ items, Escape.Reading items body) ∧
      ∀ items, Escape.Reading items body →
        Escape.cook body = items.flatMap Escape.Item.outcome ∧
          (Escape.cook body = items.flatMap Escape.Item.meaning ↔ ∀ i ∈ items, ¬ i.Slips) := by
  refine ⟨Escape.exists_reading body, fun items h => ⟨h.cook_eq, ?_⟩⟩
  rw [h.cook_eq]
  exact h.outcome_eq_meaning_iff

/-- The number of no character, between braces: the escape is malformed, and loses its braces. -/
theorem braces_not_kept :
    let body := "\\u\x7b110000\x7d".toList
    let items := [Escape.Item.braced "110000".toList]
    Escape.Reading items body ∧ items.flatMap Escape.Item.meaning = body ∧
      Escape.cook body = "\\u110000".toList := by
  intro body items
  have hinner : '}' ∉ "110000".toList := by decide
  have hsource : Escape.Item.source (.braced "110000".toList) ++ [] = body := by decide
  have hreading : Escape.Reading items body := by
    rw [← hsource]
    exact .cons hinner .nil
  refine ⟨hreading, by decide, ?_⟩
  rw [hreading.cook_eq]
  decide

end Typings
