import Typings.Proofs.Token.Extent

namespace Typings

def utf8 (cs : List Char) : List UInt8 := cs.flatMap String.utf8EncodeChar

/-- The point after one byte of a comment. -/
def Mark.nextByte (m : Mark) (b : UInt8) : Mark :=
  if b == '\n'.toUInt8 then ⟨m.offset + 1, m.line + 1, 1⟩ else ⟨m.offset + 1, m.line, m.column + 1⟩

namespace ByteScan

open Scan (firstError textPart)

/-- The text that bytes are, unless they are cut out of the middle of a character. -/
def cut? (bytes : List UInt8) : Option (List Char) := bytes.toByteArray.utf8Decode?.map (·.toList)

/-- The bytes of a block comment after its opening, up to and with the closing. -/
def comment? : List UInt8 → Option (List UInt8)
  | [] => none
  | b :: bytes =>
    if b == '*'.toUInt8 && bytes.head? == some '/'.toUInt8 then some [b, '/'.toUInt8]
    else (comment? bytes).map (b :: ·)

/-- The bytes of a substitution up to its closing brace, and what follows that. -/
def substitution? (depth : Nat) : List UInt8 → Option (List UInt8 × List UInt8)
  | [] => none
  | b :: bytes =>
    if b == '{'.toUInt8 then (substitution? (depth + 1) bytes).map fun (x, y) => (b :: x, y)
    else if b == '}'.toUInt8 then
      match depth with
      | 0 => some ([], bytes)
      | d + 1 => (substitution? d bytes).map fun (x, y) => (b :: x, y)
    else (substitution? depth bytes).map fun (x, y) => (b :: x, y)

theorem length_substitution? {depth : Nat} {bytes x y : List UInt8}
    (h : substitution? depth bytes = some (x, y)) : x.length + y.length < bytes.length := by
  fun_induction substitution? depth bytes generalizing x y with
  | case1 => cases h
  | case3 => cases h; simp
  | case2 _ _ _ _ ih | case4 _ _ _ _ _ ih | case5 _ _ _ _ _ ih =>
    obtain ⟨⟨x', y'⟩, h', heq⟩ := Option.map_eq_some_iff.1 h
    have := ih h'
    cases heq
    simp only [List.length_cons]
    omega

/-- A piece of a template in bytes; a substitution has the offset of its `$`. -/
inductive RawPart
  | text (raw : List UInt8)
  | substitution (offset : Nat) (inner : List UInt8)

/-- How a template ends: with the bytes behind it, or never. -/
inductive Ending
  | closed (rest : List UInt8)
  | openSubstitution (offset : Nat)
  | openTemplate

/-- A template in bytes. `lead` is its text up to the first of the `parts`. -/
structure RawTemplate where
  lead : List UInt8
  parts : List RawPart
  ending : Ending

/-- All pieces, without empty ones. -/
def RawTemplate.pieces (r : RawTemplate) : List RawPart :=
  if r.lead.isEmpty then r.parts else .text r.lead :: r.parts

/-- Divide a template, after its opening, into its pieces. A backslash keeps the next byte. -/
def rawTemplate (offset : Nat) (bytes : List UInt8) : RawTemplate :=
  match bytes with
  | [] => ⟨[], [], .openTemplate⟩
  | b :: rest =>
    if b == '`'.toUInt8 then ⟨[], [], .closed rest⟩
    else if b == '\\'.toUInt8 then
      let r := rawTemplate (offset + 1 + min rest.length 1) (rest.drop 1)
      { r with lead := b :: (rest.take 1 ++ r.lead) }
    else if b == '$'.toUInt8 && rest.head? == some '{'.toUInt8 then
      match h : substitution? 0 (rest.drop 1) with
      | none => ⟨[], [], .openSubstitution offset⟩
      | some (inner, after) =>
        let r := rawTemplate (offset + 3 + inner.length) after
        ⟨[], .substitution offset inner :: r.pieces, r.ending⟩
    else
      let r := rawTemplate (offset + 1) rest
      { r with lead := b :: r.lead }
termination_by bytes.length
decreasing_by
  all_goals simp only [List.length_cons]
  · simp only [List.length_drop]; omega
  · have := length_substitution? h; simp only [List.length_drop] at this; omega
  · omega

theorem length_inner {offset o : Nat} {bytes inner : List UInt8}
    (h : .substitution o inner ∈ (rawTemplate offset bytes).pieces) :
    inner.length < bytes.length := by
  have hparts : ∀ r : RawTemplate, .substitution o inner ∈ r.pieces → .substitution o inner ∈ r.parts := by
    intro r hr
    rw [RawTemplate.pieces] at hr
    split at hr <;> simpa using hr
  replace h := hparts _ h
  fun_induction rawTemplate offset bytes with
  | case1 | case2 | case4 => cases h
  | case3 offset b rest _ _ r ih =>
    have := ih h
    simp only [List.length_cons, List.length_drop] at this ⊢
    omega
  | case5 offset b rest _ _ _ inner' after hs r ih =>
    have hlength := length_substitution? hs
    simp only [List.length_cons, List.length_drop] at hlength ⊢
    rcases List.mem_cons.1 h with heq | h
    · cases heq
      omega
    · have := ih (hparts _ h)
      omega
  | case6 offset b rest _ _ _ r ih =>
    have := ih h
    simp only [List.length_cons]
    omega

theorem length_closed {offset : Nat} {bytes rest : List UInt8}
    (h : (rawTemplate offset bytes).ending = .closed rest) : rest.length < bytes.length := by
  fun_induction rawTemplate offset bytes with
  | case1 | case4 => cases h
  | case2 => cases h; simp
  | case3 offset b rest _ _ r ih =>
    have := ih h
    simp only [List.length_cons, List.length_drop] at this ⊢
    omega
  | case5 offset b rest _ _ _ inner' after hs r ih =>
    have := ih h
    have hlength := length_substitution? hs
    simp only [List.length_cons, List.length_drop] at hlength ⊢
    omega
  | case6 offset b rest _ _ _ r ih =>
    have := ih h
    simp only [List.length_cons]
    omega

def isSpace (b : UInt8) : Bool :=
  b == ' '.toUInt8 || b == '\t'.toUInt8 || b == '\r'.toUInt8 || b == '\n'.toUInt8

/--
The tokens of a text in bytes, and what is wrong with it. There is no result when a cut goes
through a character.
-/
def tokens (bytes : List UInt8) (place : Mark) : Option (List Lexeme × List LexError) :=
  match bytes with
  | [] => some ([(.eof, place.span place.offset)], [])
  | b :: rest =>
    if isSpace b then tokens rest (place.nextByte b)
    else if b == '/'.toUInt8 && rest.head? == some '/'.toUInt8 then
      tokens (rest.dropWhile (· != '\n'.toUInt8))
        ((b :: rest.takeWhile (· != '\n'.toUInt8)).foldl Mark.nextByte place)
    else if b == '/'.toUInt8 && rest.head? == some '*'.toUInt8 then
      match comment? (rest.drop 1) with
      | some body =>
        tokens (rest.drop (body.length + 1)) ((b :: '*'.toUInt8 :: body).foldl Mark.nextByte place)
      | none => some ([], [⟨.unterminatedComment, place⟩])
    else match cut? (b :: rest) with
    | none | some [] => none
    | some (c :: cs) =>
      if c == '\ufeff' then
        tokens (rest.drop (c.utf8Size - 1)) { place with offset := place.offset + c.utf8Size }
      else if b == '`'.toUInt8 then
        let raw := rawTemplate (place.offset + 1) rest
        let parts := raw.pieces.attach.map fun
          | ⟨.text raw, _⟩ => (cut? raw).map fun t => .ok (textPart t)
          | ⟨.substitution offset inner, _⟩ => do
            discard (cut? inner)
            let (ts, es) ← tokens inner (Mark.origin (offset + 2))
            if es.isEmpty then some (.ok (.substitution (ts.filter (!·.1.isEof))))
            else some (.error offset)
        let fail := fun offset => some ([], [⟨.unterminatedTemplate, { place with offset := offset }⟩])
        match parts.mapM id with
        | none => none
        | some parts =>
          match firstError parts, _h : raw.ending with
          | .error offset, _ => fail offset
          | .ok _, .openSubstitution offset => fail offset
          | .ok _, .openTemplate => fail place.offset
          | .ok parts, .closed after => do
            let text ← cut? (b :: rest.take (rest.length - after.length))
            let stop := place.after text
            let (ts, es) ← tokens after stop
            some ((.template parts, place.span stop.offset) :: ts, es)
      else match Scan.piece c cs with
        | .token t length => do
          -- What is matched are characters; the scanner goes on by their bytes.
          let size := byteLength (c :: cs.take (length - 1))
          let stop := place.after (← cut? (b :: rest.take (size - 1)))
          let (ts, es) ← tokens (rest.drop (size - 1)) stop
          some ((t, place.span stop.offset) :: ts, es)
        | .junk length => do
          let size := byteLength (c :: cs.take (length - 1))
          let stop := place.after (← cut? (b :: rest.take (size - 1)))
          let (ts, es) ← tokens (rest.drop (size - 1)) stop
          some (ts, ⟨.unexpectedCharacter c, place⟩ :: es)
        | .openString => some ([], [⟨.unterminatedString, place⟩])
termination_by bytes.length
decreasing_by
  · simp
  · have := (List.dropWhile_suffix (· != '\n'.toUInt8) (l := rest)).length_le
    simp only [List.length_cons]
    omega
  · simp only [List.length_drop, List.length_cons]
    omega
  · simp only [List.length_drop, List.length_cons]
    omega
  · rename_i hmem
    have := length_inner hmem
    simp only [List.length_cons]
    omega
  · have := length_closed _h
    simp only [List.length_cons]
    omega
  · simp only [List.length_drop, List.length_cons]
    omega
  · simp only [List.length_drop, List.length_cons]
    omega

end ByteScan

@[simp] theorem utf8_nil : utf8 [] = [] := rfl

@[simp] theorem utf8_cons (c : Char) (cs : List Char) :
    utf8 (c :: cs) = String.utf8EncodeChar c ++ utf8 cs := rfl

@[simp] theorem utf8_append (a b : List Char) : utf8 (a ++ b) = utf8 a ++ utf8 b :=
  List.flatMap_append

theorem length_utf8 (cs : List Char) : (utf8 cs).length = byteLength cs := by
  induction cs with
  | nil => rfl
  | cons c cs ih => simp [ih]

theorem ByteScan.cut?_utf8 (cs : List Char) : cut? (utf8 cs) = some cs := by
  have hdecode : (utf8 cs).toByteArray.utf8Decode? = some cs.toArray :=
    List.utf8Decode?_utf8Encode
  rw [cut?, hdecode]
  rfl

theorem toNat_toUInt8 {a : Char} (ha : a.toNat < 128) : a.toUInt8.toNat = a.toNat := by
  simp only [Char.toUInt8, UInt32.toNat_toUInt8, Char.toNat] at *
  omega

theorem utf8EncodeChar_of_lt {c : Char} (h : c.toNat < 128) :
    String.utf8EncodeChar c = [c.toUInt8] := by
  apply String.utf8EncodeChar_eq_singleton
  rw [Char.utf8Size_eq_one_iff, UInt32.le_iff_toNat_le]
  exact Nat.le_of_lt_succ h

theorem le_of_mem_utf8EncodeChar {c : Char} (h : 128 ≤ c.toNat) :
    ∀ x ∈ String.utf8EncodeChar c, 128 ≤ x.toNat := by
  have hval : c.val.toNat = c.toNat := rfl
  unfold String.utf8EncodeChar
  dsimp only
  split
  · omega
  split
  · simp only [List.mem_cons, List.not_mem_nil, or_false]
    rintro x (rfl | rfl) <;> simp only [UInt8.toNat_ofNat'] <;> omega
  split
  · simp only [List.mem_cons, List.not_mem_nil, or_false]
    rintro x (rfl | rfl | rfl) <;> simp only [UInt8.toNat_ofNat'] <;> omega
  · simp only [List.mem_cons, List.not_mem_nil, or_false]
    rintro x (rfl | rfl | rfl | rfl) <;> simp only [UInt8.toNat_ofNat'] <;> omega

/-- A character in bytes. The first one tells characters below 128 apart; the others are wide. -/
structure Encodes (c : Char) (b : UInt8) (u : List UInt8) : Prop where
  eq : String.utf8EncodeChar c = b :: u
  narrow : c.toNat < 128 → u = []
  wide : ∀ x ∈ u, 128 ≤ x.toNat
  beq : ∀ a : Char, a.toNat < 128 → (b == a.toUInt8) = (c == a)

theorem Encodes.size {c : Char} {b : UInt8} {u : List UInt8} (h : Encodes c b u) :
    c.utf8Size = u.length + 1 := by
  rw [← String.length_utf8EncodeChar, h.eq, List.length_cons]

theorem exists_encodes (c : Char) : ∃ b u, Encodes c b u := by
  by_cases hc : c.toNat < 128
  · refine ⟨_, _, utf8EncodeChar_of_lt hc, fun _ => rfl, nofun, fun a ha => ?_⟩
    rw [Bool.eq_iff_iff, beq_iff_eq, beq_iff_eq, ← UInt8.toNat_inj, toNat_toUInt8 hc,
      toNat_toUInt8 ha, Char.toNat_inj]
  · have hbytes := le_of_mem_utf8EncodeChar (Nat.le_of_not_lt hc)
    obtain ⟨b, u, hbu⟩ := List.exists_cons_of_ne_nil (String.utf8EncodeChar_ne_nil (c := c))
    rw [hbu] at hbytes
    refine ⟨b, u, hbu, fun h => absurd h hc, fun x hx => hbytes x (by simp [hx]), fun a ha => ?_⟩
    have hb : b ≠ a.toUInt8 := by
      rintro rfl
      have := hbytes _ List.mem_cons_self
      rw [toNat_toUInt8 ha] at this
      omega
    have hca : c ≠ a := by
      rintro rfl
      exact hc ha
    rw [beq_false_of_ne hb, beq_false_of_ne hca]

theorem beq_of_wide {x : UInt8} (hx : 128 ≤ x.toNat) {a : Char} (ha : a.toNat < 128) :
    (x == a.toUInt8) = false := by
  apply beq_false_of_ne
  rintro rfl
  rw [toNat_toUInt8 ha] at hx
  omega

theorem head?_utf8 (cs : List Char) {a : Char} (ha : a.toNat < 128) :
    ((utf8 cs).head? == some a.toUInt8) = (cs.head? == some a) := by
  cases cs with
  | nil => rfl
  | cons c cs =>
    obtain ⟨b, u, h⟩ := exists_encodes c
    rw [utf8_cons, h.eq]
    exact h.beq a ha

theorem Encodes.beq_head? {c : Char} {b : UInt8} {u : List UInt8} (h : Encodes c b u)
    (cs : List Char) {a a' : Char} (ha : a.toNat < 128) (ha' : a'.toNat < 128) :
    (b == a.toUInt8 && (u ++ utf8 cs).head? == some a'.toUInt8) =
      (c == a && cs.head? == some a') := by
  rw [h.beq a ha]
  by_cases hc : c = a
  · rw [h.narrow (hc ▸ ha), List.nil_append, head?_utf8 cs ha']
  · rw [beq_false_of_ne hc, Bool.false_and, Bool.false_and]

theorem takeWhile_utf8 (cs : List Char) {a : Char} (ha : a.toNat < 128) :
    (utf8 cs).takeWhile (· != a.toUInt8) = utf8 (cs.takeWhile (· != a)) := by
  induction cs with
  | nil => rfl
  | cons c cs ih =>
    obtain ⟨b, u, h⟩ := exists_encodes c
    have hb := h.beq a ha
    have hwide : ∀ x ∈ u, (x != a.toUInt8) = true := by
      intro x hx
      simp [bne, beq_of_wide (h.wide x hx) ha]
    by_cases hc : c = a
    · rw [hc, beq_self_eq_true] at hb
      rw [utf8_cons, h.eq, List.cons_append, List.takeWhile_cons_of_neg (by simp [bne, hb]),
        List.takeWhile_cons_of_neg (by simp [hc]), utf8_nil]
    · rw [beq_false_of_ne hc] at hb
      rw [utf8_cons, h.eq, List.cons_append, List.takeWhile_cons_of_pos (by simp [bne, hb]),
        List.takeWhile_append_of_pos hwide, ih, List.takeWhile_cons_of_pos (by simpa using hc),
        utf8_cons, h.eq, List.cons_append]

theorem dropWhile_utf8 (cs : List Char) {a : Char} (ha : a.toNat < 128) :
    (utf8 cs).dropWhile (· != a.toUInt8) = utf8 (cs.dropWhile (· != a)) := by
  have hbytes := List.takeWhile_append_dropWhile (p := (· != a.toUInt8)) (l := utf8 cs)
  have hchars := congrArg utf8 (List.takeWhile_append_dropWhile (p := (· != a)) (l := cs))
  rw [utf8_append, ← takeWhile_utf8 cs ha] at hchars
  exact List.append_cancel_left (hbytes.trans hchars.symm)

theorem Mark.foldl_nextByte (p : Mark) (cs : List Char) :
    (utf8 cs).foldl nextByte p = p.afterBytes cs := by
  have hwide : ∀ (u : List UInt8) (p : Mark), (∀ x ∈ u, 128 ≤ x.toNat) →
      u.foldl nextByte p = ⟨p.offset + u.length, p.line, p.column + u.length⟩ := by
    intro u
    induction u with
    | nil => exact fun p _ => rfl
    | cons x u ih =>
      intro p hu
      rw [List.foldl_cons, ih _ fun y hy => hu y (by simp [hy]), nextByte,
        if_neg (by simp [beq_of_wide (hu x List.mem_cons_self)])]
      simp only [List.length_cons, Mark.mk.injEq, true_and]
      omega
  induction cs generalizing p with
  | nil => rfl
  | cons c cs ih =>
    obtain ⟨b, u, h⟩ := exists_encodes c
    have hsize := h.size
    have hstep : (b :: u).foldl nextByte p = p.nextBytes c := by
      rw [List.foldl_cons, hwide u _ h.wide, nextByte, nextBytes, h.beq '\n' (by decide)]
      split
      · rename_i hc
        obtain rfl : c = '\n' := by simpa using hc
        simp [h.narrow (by decide)]
      · simp only [hsize, Mark.mk.injEq, true_and]
        omega
    rw [utf8_cons, h.eq, List.foldl_append, hstep, ih]
    rfl

namespace ByteScan

open Scan (firstError textPart)

variable {u : List UInt8}

theorem comment?_wide (hu : ∀ x ∈ u, 128 ≤ x.toNat) (bytes : List UInt8) :
    comment? (u ++ bytes) = (comment? bytes).map (u ++ ·) := by
  induction u with
  | nil => simp
  | cons x u ih =>
    rw [List.cons_append, comment?, beq_of_wide (hu x (by simp)) (by decide),
      ih fun y hy => hu y (by simp [hy])]
    simp [Function.comp_def]

theorem comment?_utf8 (cs : List Char) : comment? (utf8 cs) = (Scan.comment? cs).map utf8 := by
  fun_induction Scan.comment? cs with
  | case1 => rfl
  | case2 rest => rfl
  | case3 c cs hc ih =>
    obtain ⟨b, u, h⟩ := exists_encodes c
    have hopen : (c == '*' && cs.head? == some '/') = false := by
      cases cs with
      | nil => simp
      | cons d cs => simpa using fun hstar hslash => hc cs hstar (by rw [hslash])
    rw [utf8_cons, h.eq, List.cons_append, comment?, h.beq_head? cs (by decide) (by decide), hopen,
      comment?_wide h.wide, ih]
    simp [Function.comp_def, h.eq]

theorem substitution?_cons {depth : Nat} {b : UInt8} {bytes : List UInt8}
    (hopen : (b == '{'.toUInt8) = false) (hclose : (b == '}'.toUInt8) = false) :
    substitution? depth (b :: bytes) =
      (substitution? depth bytes).map fun (x, y) => (b :: x, y) := by
  cases depth <;> simp [substitution?, hopen, hclose]

theorem substitution?_wide (hu : ∀ x ∈ u, 128 ≤ x.toNat) (depth : Nat) (bytes : List UInt8) :
    substitution? depth (u ++ bytes) =
      (substitution? depth bytes).map fun (x, y) => (u ++ x, y) := by
  induction u with
  | nil => simp
  | cons x u ih =>
    have hx := hu x List.mem_cons_self
    rw [List.cons_append, substitution?_cons (beq_of_wide hx (by decide))
      (beq_of_wide hx (by decide)), ih fun y hy => hu y (by simp [hy])]
    simp [Function.comp_def]

theorem substitution?_utf8 (depth : Nat) (cs : List Char) :
    substitution? depth (utf8 cs) =
      (Scan.substitution? depth cs).map fun (x, y) => (utf8 x, utf8 y) := by
  have hopened : String.utf8EncodeChar '{' = ['{'.toUInt8] := utf8EncodeChar_of_lt (by decide)
  have hclosed : String.utf8EncodeChar '}' = ['}'.toUInt8] := utf8EncodeChar_of_lt (by decide)
  fun_induction Scan.substitution? depth cs with
  | case1 => rfl
  | case2 depth c cs hc ih =>
    obtain rfl : c = '{' := by simpa using hc
    rw [utf8_cons, hopened, List.singleton_append]
    cases depth <;> simp [substitution?, ih, Function.comp_def, hopened]
  | case3 c cs hc hd =>
    obtain rfl : c = '}' := by simpa using hd
    rw [utf8_cons, hclosed]
    rfl
  | case4 c cs hc hd depth ih =>
    obtain rfl : c = '}' := by simpa using hd
    have hne : '}'.toUInt8 ≠ '{'.toUInt8 := by decide
    rw [utf8_cons, hclosed, List.singleton_append]
    simp [substitution?, ih, Function.comp_def, hclosed, hne]
  | case5 depth c cs hc hd ih =>
    obtain ⟨b, u, h⟩ := exists_encodes c
    have hopen : (b == '{'.toUInt8) = false := (h.beq '{' (by decide)).trans (by simpa using hc)
    have hclose : (b == '}'.toUInt8) = false := (h.beq '}' (by decide)).trans (by simpa using hd)
    rw [utf8_cons, h.eq, List.cons_append, substitution?_cons hopen hclose,
      substitution?_wide h.wide, ih]
    simp [Function.comp_def, h.eq]

def RawPart.ofChars : Scan.RawPart → RawPart
  | .text raw => .text (utf8 raw)
  | .substitution offset inner => .substitution offset (utf8 inner)

def Ending.ofChars : Scan.Ending → Ending
  | .closed rest => .closed (utf8 rest)
  | .openSubstitution offset => .openSubstitution offset
  | .openTemplate => .openTemplate

def RawTemplate.ofChars (r : Scan.RawTemplate) : RawTemplate :=
  ⟨utf8 r.lead, r.parts.map .ofChars, .ofChars r.ending⟩

theorem utf8_eq_nil_iff {cs : List Char} : utf8 cs = [] ↔ cs = [] := by
  cases cs with
  | nil => simp
  | cons c cs => simp [String.utf8EncodeChar_ne_nil]

theorem RawTemplate.pieces_ofChars (r : Scan.RawTemplate) :
    (RawTemplate.ofChars r).pieces = r.pieces.map .ofChars := by
  have hlead : (utf8 r.lead).isEmpty = r.lead.isEmpty := by
    rw [Bool.eq_iff_iff, List.isEmpty_iff, List.isEmpty_iff, utf8_eq_nil_iff]
  rw [pieces, Scan.RawTemplate.pieces, apply_ite (List.map RawPart.ofChars), List.map_cons]
  simp only [ofChars, hlead]
  rfl

theorem rawTemplate_cons {offset : Nat} {b : UInt8} {bytes : List UInt8}
    (htick : (b == '`'.toUInt8) = false) (hslash : (b == '\\'.toUInt8) = false)
    (hopen : (b == '$'.toUInt8 && bytes.head? == some '{'.toUInt8) = false) :
    rawTemplate offset (b :: bytes) =
      { rawTemplate (offset + 1) bytes with lead := b :: (rawTemplate (offset + 1) bytes).lead } := by
  rw [rawTemplate, if_neg (by simp [htick]), if_neg (by simp [hslash]), if_neg (by simp [hopen])]

theorem rawTemplate_wide (hu : ∀ x ∈ u, 128 ≤ x.toNat) (offset : Nat) (bytes : List UInt8) :
    rawTemplate offset (u ++ bytes) =
      { rawTemplate (offset + u.length) bytes with
        lead := u ++ (rawTemplate (offset + u.length) bytes).lead } := by
  induction u generalizing offset with
  | nil => rfl
  | cons x u ih =>
    have hx := hu x List.mem_cons_self
    rw [List.cons_append, rawTemplate_cons (beq_of_wide hx (by decide))
      (beq_of_wide hx (by decide)) (by rw [beq_of_wide hx (by decide)]; rfl),
      ih fun y hy => hu y (by simp [hy])]
    simp [Nat.add_assoc, Nat.add_comm 1]

theorem rawTemplate_substitution {offset : Nat} {bytes inner after : List UInt8}
    (h : substitution? 0 bytes = some (inner, after)) :
    rawTemplate offset ('$'.toUInt8 :: '{'.toUInt8 :: bytes) =
      ⟨[], .substitution offset inner :: (rawTemplate (offset + 3 + inner.length) after).pieces,
        (rawTemplate (offset + 3 + inner.length) after).ending⟩ := by
  rw [rawTemplate, if_neg (by decide), if_neg (by decide), if_pos (by simp)]
  split
  · rename_i hnone
    cases h.symm.trans hnone
  · rename_i hsome
    cases h.symm.trans hsome
    rfl

theorem rawTemplate_openSubstitution {offset : Nat} {bytes : List UInt8}
    (h : substitution? 0 bytes = none) :
    rawTemplate offset ('$'.toUInt8 :: '{'.toUInt8 :: bytes) =
      ⟨[], [], .openSubstitution offset⟩ := by
  rw [rawTemplate, if_neg (by decide), if_neg (by decide), if_pos (by simp)]
  split
  · rfl
  · rename_i hsome
    cases h.symm.trans hsome

theorem utf8_ascii {c : Char} (hc : c.toNat < 128) (cs : List Char) :
    utf8 (c :: cs) = c.toUInt8 :: utf8 cs := by
  rw [utf8_cons, utf8EncodeChar_of_lt hc, List.singleton_append]

theorem rawTemplate_utf8 (offset : Nat) (cs : List Char) :
    rawTemplate offset (utf8 cs) = .ofChars (Scan.rawTemplate offset cs) := by
  fun_induction Scan.rawTemplate offset cs with
  | case1 =>
    rw [utf8_nil, rawTemplate]
    rfl
  | case2 offset rest =>
    rw [utf8_ascii (by decide), rawTemplate, if_pos (by decide)]
    rfl
  | case3 offset =>
    rw [utf8_ascii (by decide), rawTemplate, if_neg (by decide), if_pos (by decide), utf8_nil,
      List.drop_nil, rawTemplate]
    rfl
  | case4 offset c rest r ih =>
    obtain ⟨b, u, h⟩ := exists_encodes c
    have hsize : offset + 1 + c.utf8Size = offset + 1 + 1 + u.length := by
      rw [h.size]
      omega
    have hmin : min (b :: (u ++ utf8 rest)).length 1 = 1 := by simp
    rw [utf8_ascii (by decide), rawTemplate, if_neg (by decide), if_pos (by decide), utf8_cons, h.eq,
      List.cons_append, hmin, List.drop_one, List.tail_cons, rawTemplate_wide h.wide, ← hsize, ih]
    simp [RawTemplate.ofChars, h.eq, r, utf8EncodeChar_of_lt (c := '\\') (by decide)]
  | case5 offset rest hs =>
    have hbytes : substitution? 0 (utf8 rest) = none := by rw [substitution?_utf8, hs]; rfl
    rw [utf8_ascii (by decide), utf8_ascii (by decide), rawTemplate_openSubstitution hbytes]
    rfl
  | case6 offset rest inner after hs r ih =>
    have hbytes : substitution? 0 (utf8 rest) = some (utf8 inner, utf8 after) := by
      rw [substitution?_utf8, hs]
      rfl
    rw [utf8_ascii (by decide), utf8_ascii (by decide), rawTemplate_substitution hbytes,
      length_utf8, ih, RawTemplate.pieces_ofChars]
    rfl
  | case7 offset c rest hclose hlast hescape hopen r ih =>
    obtain ⟨b, u, h⟩ := exists_encodes c
    have hsize : offset + c.utf8Size = offset + 1 + u.length := by
      rw [h.size]
      omega
    have hslash : c ≠ '\\' := by
      rintro rfl
      cases rest with
      | nil => exact hlast rfl rfl
      | cons d rest => exact hescape d rest rfl rfl
    have hplain : (c == '$' && rest.head? == some '{') = false := by
      cases rest with
      | nil => simp
      | cons d rest => simpa using fun hdollar hbrace => hopen rest hdollar (by rw [hbrace])
    rw [utf8_cons, h.eq, List.cons_append, rawTemplate_cons
      ((h.beq '`' (by decide)).trans (beq_false_of_ne hclose))
      ((h.beq '\\' (by decide)).trans (beq_false_of_ne hslash))
      ((h.beq_head? rest (by decide) (by decide)).trans hplain),
      rawTemplate_wide h.wide, ← hsize, ih]
    simp [RawTemplate.ofChars, h.eq, r]

theorem isSpace_eq {c : Char} {b : UInt8} {u : List UInt8} (h : Encodes c b u) :
    isSpace b = Scan.isSpace c := by
  simp only [isSpace, Scan.isSpace, h.beq ' ' (by decide), h.beq '\t' (by decide),
    h.beq '\r' (by decide), h.beq '\n' (by decide)]

theorem nextByte_eq {c : Char} {b : UInt8} {u : List UInt8} (h : Encodes c b u)
    (hc : c.toNat < 128) (p : Mark) : p.nextByte b = p.next c := by
  have hsize : c.utf8Size = 1 := by rw [h.size, h.narrow hc, List.length_nil]
  rw [Mark.nextByte, Mark.next, h.beq '\n' (by decide), hsize]

/-- The part that a piece of a template is, or where it goes wrong. -/
def RawPart.result? : RawPart → Option (Except Nat TemplatePart)
  | .text raw => (cut? raw).map fun t => .ok (textPart t)
  | .substitution offset inner => do
    discard (cut? inner)
    let (ts, es) ← tokens inner (Mark.origin (offset + 2))
    if es.isEmpty then some (.ok (.substitution (ts.filter (!·.1.isEof)))) else some (.error offset)

theorem result?_ofChars {raw : Scan.RawPart}
    (h : ∀ o inner, raw = .substitution o inner →
      ∀ p, tokens (utf8 inner) p = some (Scan.tokens inner p)) :
    (RawPart.ofChars raw).result? = some raw.result := by
  cases raw with
  | text raw => simp [RawPart.ofChars, RawPart.result?, cut?_utf8, Scan.RawPart.result]
  | substitution o inner =>
    rw [RawPart.ofChars, RawPart.result?, cut?_utf8, h o inner rfl, Scan.RawPart.result,
      apply_ite some]
    rfl

theorem mapM_id_map_some {α β : Type} {f : α → Option β} {g : α → β} {l : List α}
    (h : ∀ a ∈ l, f a = some (g a)) : (l.map f).mapM id = some (l.map g) := by
  induction l with
  | nil => rfl
  | cons a l ih =>
    rw [List.map_cons, List.mapM_cons, h a (by simp), ih fun a' ha' => h a' (by simp [ha'])]
    rfl

theorem tokens_tick {bytes : List UInt8} {cs : List Char} {p : Mark}
    (hcs : cut? ('`'.toUInt8 :: bytes) = some ('`' :: cs)) :
    tokens ('`'.toUInt8 :: bytes) p =
      (let raw := rawTemplate (p.offset + 1) bytes
      let fail := fun offset => some ([], [⟨.unterminatedTemplate, { p with offset := offset }⟩])
      match (raw.pieces.map RawPart.result?).mapM id with
      | none => none
      | some parts =>
        match firstError parts, raw.ending with
        | .error offset, _ => fail offset
        | .ok _, .openSubstitution offset => fail offset
        | .ok _, .openTemplate => fail p.offset
        | .ok parts, .closed after => do
          let text ← cut? ('`'.toUInt8 :: bytes.take (bytes.length - after.length))
          let stop := p.after text
          let (ts, es) ← tokens after stop
          some ((.template parts, p.span stop.offset) :: ts, es)) := by
  have hparts : ∀ raw : RawTemplate, (raw.pieces.attach.map fun
      | ⟨.text raw, _⟩ => (cut? raw).map fun t => .ok (textPart t)
      | ⟨.substitution offset inner, _⟩ => do
        discard (cut? inner)
        let (ts, es) ← tokens inner (Mark.origin (offset + 2))
        if es.isEmpty then some (.ok (.substitution (ts.filter (!·.1.isEof))))
        else some (.error offset)) = raw.pieces.map RawPart.result? := by
    intro raw
    rw [← List.attach_map_val (l := raw.pieces) (f := RawPart.result?)]
    apply List.map_congr_left
    rintro ⟨raw, _⟩ _
    cases raw <;> rfl
  have hslash : ('`'.toUInt8 == '/'.toUInt8) = false := by decide
  rw [tokens, if_neg (by decide), if_neg (by simp [hslash]), if_neg (by simp [hslash]), hcs]
  dsimp only
  rw [if_neg (by decide), if_pos (by simp), hparts]
  cases (List.map RawPart.result? (rawTemplate (p.offset + 1) bytes).pieces).mapM id with
  | none => rfl
  | some parts =>
    dsimp only
    split
    next hfirst => simp only [hfirst]
    next hfirst hending => simp only [hfirst, hending]
    next hfirst hending => simp only [hfirst, hending]
    next hfirst hending => simp only [hfirst, hending]

theorem scanTokens_tick (cs : List Char) (p : Mark) :
    Scan.tokens ('`' :: cs) p =
      (let raw := Scan.rawTemplate (p.offset + 1) cs
      let fail := fun offset => ([], [⟨.unterminatedTemplate, { p with offset := offset }⟩])
      match firstError (raw.pieces.map Scan.RawPart.result), raw.ending with
      | .error offset, _ => fail offset
      | .ok _, .openSubstitution offset => fail offset
      | .ok _, .openTemplate => fail p.offset
      | .ok parts, .closed after =>
        let stop := p.after ('`' :: cs.take (cs.length - after.length))
        ((.template parts, p.span stop.offset) :: (Scan.tokens after stop).1,
          (Scan.tokens after stop).2)) := by
  rw [Scan.tokens, if_neg (by decide), if_neg (by simp), if_neg (by simp), if_neg (by decide),
    if_pos (by simp)]
  have hresults := congrArg firstError (Scan.map_result_pieces (Scan.rawTemplate (p.offset + 1) cs))
  dsimp only
  split
  next hfirst => simp only [hresults.symm.trans hfirst]
  next hfirst hending => simp only [hresults.symm.trans hfirst, hending]
  next hfirst hending => simp only [hresults.symm.trans hfirst, hending]
  next hfirst hending => simp only [hresults.symm.trans hfirst, hending]

theorem cut?_take_utf8 {b : UInt8} {bytes : List UInt8} {c : Char} {a cs : List Char}
    (h : b :: bytes = utf8 (c :: a ++ cs)) :
    cut? (b :: bytes.take (byteLength (c :: a) - 1)) = some (c :: a) ∧
      bytes.drop (byteLength (c :: a) - 1) = utf8 cs := by
  obtain ⟨n, hn⟩ := Nat.exists_eq_add_of_lt (byteLength_pos (List.cons_ne_nil c a))
  rw [Nat.zero_add] at hn
  rw [utf8_append] at h
  have htake : (b :: bytes).take (n + 1) = utf8 (c :: a) := by
    rw [h, ← hn, ← length_utf8, List.take_left]
  have hdrop : (b :: bytes).drop (n + 1) = utf8 cs := by
    rw [h, ← hn, ← length_utf8, List.drop_left]
  rw [hn, Nat.add_sub_cancel]
  exact ⟨by rw [← List.take_succ_cons, htake, cut?_utf8], hdrop⟩

/-- Scanning by bytes makes no cut through a character, and finds what scanning by characters does. -/
theorem tokens_utf8 (cs : List Char) (p : Mark) :
    tokens (utf8 cs) p = some (Scan.tokens cs p) := by
  induction hn : cs.length using Nat.strongRecOn generalizing cs p with
  | _ n ih =>
    subst hn
    cases cs with
    | nil => rw [utf8_nil, tokens, Scan.tokens]
    | cons c rest =>
      obtain ⟨b, u, h⟩ := exists_encodes c
      have hbytes : utf8 (c :: rest) = b :: (u ++ utf8 rest) := by rw [utf8_cons, h.eq]; rfl
      by_cases htick : c = '`'
      · subst htick
        have hinner : ∀ raw ∈ (Scan.rawTemplate (p.offset + 1) rest).pieces,
            (RawPart.ofChars raw).result? = some raw.result := by
          intro raw hraw
          apply result?_ofChars
          rintro o inner rfl q
          have := Scan.length_inner (Scan.mem_parts_of_mem_pieces hraw)
          exact ih inner.length (by simp; omega) inner q rfl
        have hcut : cut? ('`'.toUInt8 :: utf8 rest) = some ('`' :: rest) := by
          rw [← utf8_ascii (by decide), cut?_utf8]
        rw [utf8_ascii (by decide), tokens_tick hcut, scanTokens_tick, rawTemplate_utf8]
        dsimp only
        rw [RawTemplate.pieces_ofChars, List.map_map,
          mapM_id_map_some (f := RawPart.result? ∘ RawPart.ofChars) hinner]
        dsimp only [RawTemplate.ofChars]
        cases firstError ((Scan.rawTemplate (p.offset + 1) rest).pieces.map Scan.RawPart.result) with
        | error offset => rfl
        | ok parts =>
          cases hending : (Scan.rawTemplate (p.offset + 1) rest).ending with
          | openSubstitution offset => rfl
          | openTemplate => rfl
          | closed after =>
            obtain ⟨v, _, rfl, _⟩ := Scan.rawTemplate_append hending
            have hsize : (utf8 (v ++ after)).length - (utf8 after).length =
                byteLength ('`' :: v) - 1 := by
              have htick : '`'.utf8Size = 1 := rfl
              simp only [length_utf8, byteLength_append, byteLength_cons]
              omega
            have htext := (cut?_take_utf8 (a := v) (utf8_ascii (c := '`') (by decide)
              (v ++ after)).symm).1
            have hrest := fun q =>
              ih after.length (by simp only [List.length_append, List.length_cons]; omega) after q rfl
            simp only [Ending.ofChars, hsize, htext, hrest, List.length_append, Nat.add_sub_cancel,
              List.take_left]
            rfl
      rw [hbytes, tokens, Scan.tokens, isSpace_eq h, h.beq_head? rest (by decide) (by decide),
        h.beq_head? rest (by decide) (by decide), ← hbytes, cut?_utf8]
      split
      · rename_i hspace
        have hc : c.toNat < 128 := by
          simp only [Scan.isSpace, Bool.or_eq_true, beq_iff_eq] at hspace
          rcases hspace with ((rfl | rfl) | rfl) | rfl <;> decide
        rw [h.narrow hc, nextByte_eq h hc]
        exact ih rest.length (by simp) rest _ rfl
      split
      · rename_i hline
        simp only [Bool.and_eq_true, beq_iff_eq, List.head?_eq_some_iff] at hline
        obtain ⟨rfl, rest, rfl⟩ := hline
        have hcons : ∀ cs, b :: utf8 cs = utf8 ('/' :: cs) := by
          intro cs
          rw [utf8_cons, h.eq, h.narrow (by decide)]
          rfl
        have hlength := (List.dropWhile_suffix (· != '\n') (l := '/' :: rest)).length_le
        rw [h.narrow (by decide), List.nil_append, takeWhile_utf8 _ (by decide),
          dropWhile_utf8 _ (by decide), hcons, Mark.foldl_nextByte]
        exact ih _ (by simp only [List.length_cons] at hlength ⊢; omega) _ _ rfl
      split
      · rename_i hblock
        simp only [Bool.and_eq_true, beq_iff_eq, List.head?_eq_some_iff] at hblock
        obtain ⟨rfl, rest, rfl⟩ := hblock
        have hcons : ∀ cs, b :: '*'.toUInt8 :: utf8 cs = utf8 ('/' :: '*' :: cs) := by
          intro cs
          rw [utf8_cons, h.eq, h.narrow (by decide), utf8_ascii (by decide)]
          rfl
        rw [h.narrow (by decide), List.nil_append, utf8_ascii (by decide)]
        simp only [List.drop_succ_cons, List.drop_zero, comment?_utf8]
        cases hbody : Scan.comment? rest with
        | none => rfl
        | some body =>
          obtain ⟨_, rest, rfl, _⟩ := Scan.comment?_append hbody
          have hdrop : (utf8 (body ++ rest)).drop (utf8 body).length = utf8 rest := by
            rw [utf8_append, List.drop_left]
          simp only [Option.map_some, hdrop, hcons, Mark.foldl_nextByte, List.drop_left]
          exact ih rest.length (by simp; omega) rest _ rfl
      dsimp only
      split
      · rename_i horder
        obtain rfl : c = '\ufeff' := by simpa using horder
        rw [h.size, Nat.add_sub_cancel, List.drop_left]
        exact ih rest.length (by simp) rest _ rfl
      rw [if_neg (by rw [h.beq '`' (by decide)]; simpa using htick), if_neg (by simpa using htick)]
      have hnext : ∀ n, cut? (b :: (u ++ utf8 rest).take (byteLength (c :: rest.take n) - 1)) =
            some (c :: rest.take n) ∧
          ∀ q, tokens ((u ++ utf8 rest).drop (byteLength (c :: rest.take n) - 1)) q =
            some (Scan.tokens (rest.drop n) q) := by
        intro n
        have hsplit : b :: (u ++ utf8 rest) = utf8 (c :: rest.take n ++ rest.drop n) := by
          rw [List.cons_append, List.take_append_drop, hbytes]
        obtain ⟨htext, hdrop⟩ := cut?_take_utf8 hsplit
        have hlt : (rest.drop n).length < (c :: rest).length := by
          rw [List.length_drop, List.length_cons]
          omega
        exact ⟨htext, fun q => hdrop ▸ ih (rest.drop n).length hlt _ q rfl⟩
      cases Scan.piece c rest with
      | token t length =>
        simp only [(hnext (length - 1)).1, (hnext (length - 1)).2]
        rfl
      | junk length =>
        simp only [(hnext (length - 1)).1, (hnext (length - 1)).2]
        rfl
      | openString => rfl

end ByteScan

end Typings
